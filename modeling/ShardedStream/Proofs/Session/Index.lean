import ShardedStream.Proofs.Session.Deed
import ShardedStream.Proofs.Session.Turn

/-!
The index of a reader through all its uses.
The tracked shards and their index are updated apart, and every access goes from one to the other
without a check. Whatever a caller does with a reader, in whatever order, every access finds the
shard that it is for, and a tracked shard keeps its place.
-/

namespace ShardedStream

variable {σ : Type} {service : Service σ}

namespace Reader

/--
The tracked shards have different names, the index holds these names and no others, each with its
own place, and whatever place it leads to is within the list and holds the shard of that name.
-/
structure Filed (reader : Reader) : Prop where
  distinct : reader.ids.Nodup
  names : ∀ id, reader.index.contains id = true ↔ id ∈ reader.ids
  own : ∀ place (tracked : Tracked), reader.shards[place]? = some tracked →
    reader.index[tracked.id]? = some place
  within : ∀ id place, reader.index[id]? = some place →
    ∃ bound : place < reader.shards.length, reader.shards[place].id = id
  found : ∀ id, id ∈ reader.ids → ∃ tracked, reader.tracked? id = some tracked ∧ tracked.id = id

variable {reader : Reader}

/-- All of this is what a right index means. -/
theorem Indexed.filed (indexed : reader.Indexed) : reader.Filed where
  distinct := indexed.distinct
  names := fun _ => indexed.contains_iff
  own := fun place tracked found => (indexed tracked.id place).mpr ⟨tracked, found, rfl⟩
  within := fun id place led => by
    obtain ⟨tracked, found, same⟩ := (indexed id place).mp led
    obtain ⟨bound, here⟩ := List.getElem?_eq_some_iff.mp found
    exact ⟨bound, here ▸ same⟩
  found := fun id known => by
    obtain ⟨tracked, member, same⟩ := mem_ids.mp known
    exact ⟨tracked, indexed.tracked?_eq_some_iff.mpr ⟨member, same⟩, same⟩

/-- A reader goes on when its index stays right and its tracked shards keep their places. -/
def GoesOn (reader later : Reader) : Prop := later.Indexed ∧ reader.ids <+: later.ids

theorem GoesOn.refl (indexed : reader.Indexed) : reader.GoesOn reader :=
  ⟨indexed, List.prefix_refl _⟩

theorem GoesOn.trans {between later : Reader} (first : reader.GoesOn between)
    (second : between.GoesOn later) : reader.GoesOn later :=
  ⟨second.1, first.2.trans second.2⟩

end Reader

namespace Session

variable {session : Session σ}

/-- A reader goes on while it is asked for the next record. -/
theorem next_goesOn (service : Service σ) (fuel : Nat) (session : Session σ)
    (indexed : session.reader.Indexed) :
    session.reader.GoesOn (session.next service fuel).2.reader := by
  have turned : ∀ later : Session σ, session.reader.GoesOn later.reader →
      session.reader.GoesOn (later.advance service).2.reader := by
    intro later goesOn
    have turn : Turn service later _ _ := advance_turn goesOn.1
    exact goesOn.trans (turn.indexed goesOn.1)
  exact next_preserves turned fuel (.refl indexed)

/-- Whatever its caller does, a reader goes on. -/
theorem perform_goesOn (service : Service σ) (indexed : session.reader.Indexed) (deed : Deed) :
    session.reader.GoesOn (session.perform service deed).2.reader := by
  cases deed with
  | next fuel patience =>
      exact next_goesOn service fuel
        { session with world := session.world.limitTo patience } indexed
  | close =>
      obtain ⟨closed, same⟩ := close_indexed indexed
      exact ⟨closed, [], (List.append_nil _).trans same.symm⟩
  | step shard => exact .refl indexed
  | apply outcome => exact (Reader.Change.applied session.reader outcome).indexed indexed
  | prune shard => exact (Reader.Change.pruned session.reader shard).indexed indexed
  | surround clock signal => exact .refl indexed

/-- The caller does several things, one after the other. -/
def performAll (service : Service σ) (deeds : List Deed) (session : Session σ) : Session σ :=
  deeds.foldl (fun session deed => (session.perform service deed).2) session

/-- However long this goes on, so does the reader. -/
theorem performAll_goesOn (service : Service σ) (deeds : List Deed)
    (indexed : session.reader.Indexed) :
    session.reader.GoesOn (session.performAll service deeds).reader := by
  induction deeds generalizing session with
  | nil => exact .refl indexed
  | cons deed deeds inductionHypothesis =>
      have first := perform_goesOn service indexed deed
      exact first.trans (inductionHypothesis first.1)

/--
Whatever a caller has done with a new reader, in any order, with passes asked for records and
dropped, steps for any shard, any outcomes applied and any shards pruned, the index and the tracked
shards fit together. They do so in the middle of an applied outcome as well, when its successors are
tracked and its own shard is looked up again. And whatever is done next, the shards that are tracked
stay in their places.
-/
theorem deeds_filed (service : Service σ) (settings : ReaderSettings) (world : World σ)
    (deeds : List Deed) :
    let session := (start (.ofSettings settings) world).performAll service deeds
    session.reader.Filed ∧
      (∀ assignments, (session.reader.track assignments).2.Filed ∧
        session.reader.ids <+: (session.reader.track assignments).2.ids) ∧
      ∀ deed, session.reader.ids <+: (session.perform service deed).2.reader.ids := by
  intro session
  have indexed : session.reader.Indexed := by
    have begun : (start (Reader.ofSettings settings) world).reader.Indexed :=
      Reader.indexed_ofSettings settings
    exact (performAll_goesOn service deeds begun).1
  refine ⟨indexed.filed, fun assignments => ?_, fun deed => (perform_goesOn service indexed deed).2⟩
  obtain ⟨prepared, before⟩ := (Reader.Change.prepared session.reader assignments).indexed indexed
  have tracks := indexed.track assignments
  exact ⟨tracks.indexed.filed, before⟩

end Session
end ShardedStream
