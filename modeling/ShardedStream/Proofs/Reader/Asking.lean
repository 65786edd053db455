import ShardedStream.Proofs.Reader.Index
import ShardedStream.Proofs.World.Conversation
import ShardedStream.Reader.Step

/-!
What a reader may ask.
An iterator is asked for at the position at which its shard waits, and at no other.
-/

namespace ShardedStream

variable {σ α : Type}

/-- All questions of the dialogue are among these. -/
inductive Asks (allowed : Request → Prop) : Dialogue α → Prop where
  | done (value : α) : Asks allowed (.done value)
  | tell (report : Report) {next : Dialogue α} (rest : Asks allowed next) :
      Asks allowed (.tell report next)
  | ask {request : Request} {next : Settled request → Dialogue α} (own : allowed request)
      (rest : ∀ settled, Asks allowed (next settled)) : Asks allowed (.ask request next)

theorem asks_reportAll {allowed : Request → Prop} (reports : List Report) {next : Dialogue α}
    (rest : Asks allowed next) :
    Asks allowed ((Dialogue.reportAll reports).andThen fun _ => next) := by
  induction reports with
  | nil => exact rest
  | cons report reports inductionHypothesis => exact .tell report inductionHypothesis

/-- All operations of a dialogue are for its questions. -/
theorem Asks.conversation {allowed : Request → Prop} {dialogue : Dialogue α}
    {made : List Exchange} {result : Option α} (asks : Asks allowed dialogue)
    (conversation : Conversation dialogue made result) :
    ∀ exchange ∈ made, allowed exchange.request := by
  induction conversation with
  | done value => exact fun _ member => absurd member List.not_mem_nil
  | tell report _ inductionHypothesis =>
      cases asks with
      | tell _ rest => exact inductionHypothesis rest
  | left next _ =>
      cases asks with
      | ask own _ => exact fun exchange member => List.mem_singleton.mp member ▸ own
  | asks _ _ inductionHypothesis =>
      cases asks with
      | ask own rest =>
          intro exchange member
          rcases List.mem_cons.mp member with rfl | later
          · exact own
          · exact inductionHypothesis (rest _) exchange later

/-- A dialogue puts its questions on record, and nothing else. -/
theorem World.converse_asks (service : Service σ) (plan : Nat → RetryPlan) {allowed : Request → Prop}
    {dialogue : Dialogue α} (asks : Asks allowed dialogue) (world : World σ) :
    ∃ made, (world.converse service plan dialogue).2.exchanges = world.exchanges ++ made ∧
      ∀ exchange ∈ made, allowed exchange.request := by
  obtain ⟨made, exchanges, conversation⟩ := converse_conversation service plan dialogue world
  exact ⟨made, exchanges, asks.conversation conversation⟩

namespace Reader

/-- An iterator may be asked for where its shard waits. -/
def MayAsk (reader : Reader) (request : Request) : Prop :=
  ∀ stream shard position, request = .openIterator stream shard position →
    ∃ tracked ∈ reader.shards, tracked.id = shard ∧ tracked.phase = .waiting position

variable {reader : Reader}

theorem asks_readFrom (shard : ShardId) (token : Token) (fresh : Bool) :
    Asks reader.MayAsk (reader.readFrom shard token fresh) := by
  refine .ask (fun _ _ _ same => by cases same) fun settled => ?_
  rcases settled with fault | _ | batch
  · cases fault with
    | expiredIterator => exact .done _
    | _ => exact .done _
  · exact .done _
  · exact .done _

/-- A step asks for an iterator only where its own shard waits. -/
theorem asks_step (indexed : reader.Indexed) (shard : ShardId) :
    Asks reader.MayAsk (reader.step shard) := by
  unfold step
  split
  · exact .done _
  · rename_i tracked found
    obtain ⟨member, rfl⟩ := indexed.tracked?_eq_some_iff.mp found
    cases phase : tracked.phase with
    | waiting position =>
        refine .ask (fun _ _ _ same => ?_) fun settled => ?_
        · cases same
          exact ⟨tracked, member, rfl, phase⟩
        · rcases settled with fault | _ | token
          · cases fault with
            | resourceNotFound detail => exact .done _
            | _ => exact .done _
          · exact .done _
          · exact .tell _ (asks_readFrom tracked.id token true)
    | reading token => exact asks_readFrom tracked.id token false
    | exhausted =>
        refine .ask (fun _ _ _ same => by cases same) fun settled => ?_
        rcases settled with fault | _ | shards
        · exact .done _
        · exact .done _
        · exact .done _
    | done => exact .done _

/-- A preparation asks for no iterator. -/
theorem asks_prepare (reader : Reader) : Asks reader.MayAsk reader.prepare := by
  unfold prepare
  split
  · exact .done _
  · refine .ask (fun _ _ _ same => by cases same) fun settled => ?_
    rcases settled with fault | _ | shards
    · exact .done _
    · exact .tell _ (.done _)
    · exact asks_reportAll _ (.done _)

end Reader
end ShardedStream
