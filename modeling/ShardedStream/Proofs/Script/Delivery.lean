import ShardedStream.Proofs.Reader.Consult
import ShardedStream.Proofs.Script.Tokens
import ShardedStream.Proofs.World.Plays

/-!
Tokens in the hands of a reader.
A reader keeps a token in the phase of its shard or in the outcome of a step, and it has got every
one of them for that shard: a visit reads from the token of its shard alone, and what it brings has
been handed over for the shard.
-/

namespace ShardedStream

/-- This is the token that a transition leaves to its shard. -/
def Transition.token? : Transition → Option Token
  | .continued next => some next
  | .throttled token => token
  | .exhausted => none
  | .expired => none
  | .noIterator => none
  | .successorsKnown _ => none
  | .successorsUnknown => none
  | .idle => none

/-- A shard reads on from no other token. -/
theorem Transition.token?_of_phase? {transition : Transition} {resume : Position} {token : Token}
    (reads : transition.phase? resume = some (.reading token)) :
    transition.token? = some token := by
  cases transition with
  | continued next =>
      cases reads
      rfl
  | throttled kept =>
      cases kept with
      | none => cases reads
      | some kept =>
          cases reads
          rfl
  | _ => cases reads

namespace Reader

/-- Every live token of the reader is in the right hands. -/
def Holds (owns : ShardId → Token → Prop) (reader : Reader) : Prop :=
  ∀ tracked ∈ reader.shards, ∀ token, tracked.phase = .reading token → owns tracked.id token

namespace Holds

variable {owns later : ShardId → Token → Prop} {reader : Reader}

theorem mono (holds : reader.Holds owns) (grows : ∀ shard token, owns shard token →
    later shard token) : reader.Holds later :=
  fun tracked member token reading => grows _ _ (holds tracked member token reading)

/-- A shard that has just come to be tracked has no token. -/
theorem track (holds : reader.Holds owns) (indexed : reader.Indexed) (assignments : Assignments) :
    (reader.track assignments).2.Holds owns := by
  intro tracked member token reading
  rw [(indexed.track assignments).shards] at member
  rcases List.mem_append.mp member with old | new
  · exact holds tracked old token reading
  · obtain ⟨entry, _, rfl⟩ := List.mem_map.mp new
    cases reading

/-- An applied outcome leaves its shard the token that it brings. -/
theorem apply (holds : reader.Holds owns) (indexed : reader.Indexed) {outcome : Outcome}
    (brings : ∀ token, outcome.transition.token? = some token → owns outcome.shard token) :
    (reader.apply outcome).2.Holds owns := by
  by_cases known : outcome.shard ∈ reader.ids
  · obtain ⟨visited, here, same⟩ := mem_ids.mp known
    intro tracked member token reading
    rcases (follows_apply indexed here same.symm).mem member with
      ⟨old, oldMember, rfl⟩ | ⟨entry, _, _, rfl⟩
    · by_cases own : old.id = visited.id
      · rw [if_pos own] at reading ⊢
        cases entered : outcome.transition.phase? (visited.resume reader.checkpoint) with
        | none =>
            rw [entered] at reading
            exact holds old oldMember token reading
        | some phase =>
            rw [entered] at reading
            have brought := Transition.token?_of_phase? (entered.trans (congrArg some reading))
            have owned := brings token brought
            rw [← same, ← own] at owned
            exact owned
      · rw [if_neg own] at reading ⊢
        exact holds old oldMember token reading
    · cases reading
  · rw [apply_of_not_mem indexed known]
    exact holds

/-- A shard that restarts has lost its token. -/
theorem restartAt (holds : reader.Holds owns) (indexed : reader.Indexed) (shard : ShardId)
    (position : Position) : (reader.restartAt shard position).Holds owns := by
  intro tracked member token reading
  rw [Reader.restartAt, indexed.shards_modifyTracked] at member
  obtain ⟨old, oldMember, rfl⟩ := List.mem_map.mp member
  split at reading
  · cases reading
  · rename_i other
    rw [if_neg other]
    exact holds old oldMember token reading

/-- What is pruned is no token. -/
theorem prune (holds : reader.Holds owns) (shard : ShardId) :
    (reader.prune shard).2.Holds owns := by
  rw [prune_eq]
  exact holds

end Holds

end Reader

/-- An item of a list put together is in its first part, or in the second one behind the first. -/
theorem split_append {α : Type} {first second before after : List α} {item : α}
    (split : first ++ second = before ++ item :: after) :
    (∃ rest, first = before ++ item :: rest) ∨
      ∃ rest, before = first ++ rest ∧ second = rest ++ item :: after := by
  rcases List.append_eq_append_iff.mp split with ⟨rest, rfl, tail⟩ | ⟨rest, rfl, tail⟩
  · exact .inr ⟨rest, rfl, tail⟩
  · cases rest with
    | nil => exact .inr ⟨[], by simp, tail.symm⟩
    | cons other rest =>
        obtain ⟨rfl, _⟩ := List.cons.inj tail
        exact .inl ⟨rest, rfl⟩

namespace Script

/-- The calls of a reader are uses of its service. -/
def usesOf (calls : List (Nat × Request)) : List Use :=
  calls.map fun call => .call call.2 call.1

@[simp] theorem usesOf_append (calls others : List (Nat × Request)) :
    usesOf (calls ++ others) = usesOf calls ++ usesOf others := List.map_append

variable {start state later : Script} {uses : List Use} {request : Request}
  {attempts : List (Attempt request.Answer)} {shard : ShardId} {token : Token}

/-- The attempts of an operation are used on the service. -/
theorem useAll_of_makes (outcome : Option (Except RetryFailure request.Answer))
    {cutoff : Nat} (makes : Operation.Makes (service.call request) cutoff state attempts later) :
    later = state.useAll (usesOf (Exchange.calls ⟨request, attempts, outcome⟩)) := by
  induction makes with
  | nothing state => rfl
  | call heard rest inductionHypothesis => exact inductionHypothesis

/-- So are all operations of a dialogue. -/
theorem useAll_of_plays {made : List Exchange} (plays : service.Plays state made later) :
    later = state.useAll (usesOf (made.flatMap Exchange.calls)) := by
  induction plays with
  | nothing state => rfl
  | @operation state between later exchange exchanges _ makes rest inductionHypothesis =>
      rw [inductionHypothesis, useAll_of_makes exchange.outcome makes, ← useAll_append,
        List.flatMap_cons, usesOf_append]

/-- A token that an operation brings has been handed over for the shard that it was about. -/
theorem granted_of_answer {answer : request.Answer} {cutoff : Nat}
    (makes : Operation.Makes (service.call request) cutoff (start.useAll uses) attempts later)
    (tried : Exchange.Tried ⟨request, attempts, some (.ok answer)⟩)
    (brings : request.token? answer = some token)
    (about : ∀ before,
      before <+: usesOf (Exchange.calls ⟨request, attempts, some (.ok answer)⟩) →
        (start.useAll (uses ++ before)).about? request = some shard) :
    Granted start (uses ++ usesOf (Exchange.calls ⟨request, attempts, some (.ok answer)⟩)) shard
      token := by
  obtain ⟨before, attempt, between, rfl, earlier, said⟩ := makes.answered tried
  have calls : usesOf (Exchange.calls ⟨request, before ++ [attempt], some (.ok answer)⟩) =
      usesOf (Exchange.calls ⟨request, before, some (.ok answer)⟩) ++
        [.call request attempt.start] := by
    simp [usesOf, Exchange.calls]
  rw [calls] at about ⊢
  have known := about _ (List.prefix_append _ _)
  have state := useAll_of_makes (some (.ok answer)) earlier
  rw [← useAll_append] at state
  subst state
  rw [← List.append_assoc]
  exact granted_last (grant?_of_answer known said brings)

/--
A visit reads only from tokens that have been handed over for its shard, and a token that its
outcome brings has been handed over for the shard of the outcome.
-/
structure OwnTokens (start : Script) (uses : List Use) (shard : ShardId) (made : List Exchange)
    (result : Option (Except ReaderError Outcome)) : Prop where
  reads : ∀ before time token limit after,
    made.flatMap Exchange.calls = before ++ (time, .readRecords token limit) :: after →
      Granted start (uses ++ usesOf before) shard token
  brings : ∀ outcome token, result = some (.ok outcome) →
    outcome.transition.token? = some token →
      Granted start (uses ++ usesOf (made.flatMap Exchange.calls)) outcome.shard token

variable {made : List Exchange} {result : Option (Except ReaderError Outcome)} {reader : Reader}

/-- All calls of an operation are for its request. -/
theorem request_of_split {exchange : Exchange} {before after : List (Nat × Request)}
    {call : Nat × Request} (split : exchange.calls = before ++ call :: after) :
    call.2 = exchange.request := by
  have member : call ∈ exchange.calls := split ▸ List.mem_append_right _ List.mem_cons_self
  obtain ⟨attempt, _, rfl⟩ := List.mem_map.mp member
  rfl

/-- A visit that ends without a call has nothing to do with tokens, unless it brings one. -/
theorem OwnTokens.of_done {answer : Except ReaderError Outcome}
    (bare : ∀ outcome, answer = .ok outcome → outcome.transition.token? = none)
    (ended : Conversation (.done answer) made result) : OwnTokens start uses shard made result := by
  cases ended
  refine ⟨fun before _ _ _ _ split => ?_, fun outcome token came brings => ?_⟩
  · simp at split
  · rw [bare outcome (Option.some.inj came)] at brings
    cases brings

/-- Neither has one that its caller has left. -/
theorem OwnTokens.of_left {exchange : Exchange}
    (silent : ∀ token limit, exchange.request ≠ .readRecords token limit) :
    OwnTokens start uses shard [exchange] none where
  reads := fun before time token limit after split => by
    rw [List.flatMap_singleton] at split
    exact absurd (request_of_split split).symm (silent token limit)
  brings := nofun

/-- What was asked before without a read makes no difference. -/
theorem OwnTokens.after {exchange : Exchange}
    (silent : ∀ token limit, exchange.request ≠ .readRecords token limit)
    (own : OwnTokens start (uses ++ usesOf exchange.calls) shard made result) :
    OwnTokens start uses shard (exchange :: made) result where
  reads := fun before time token limit after split => by
    rw [List.flatMap_cons] at split
    rcases split_append split with ⟨rest, early⟩ | ⟨rest, rfl, late⟩
    · exact absurd (request_of_split early).symm (silent token limit)
    · rw [usesOf_append, ← List.append_assoc]
      exact own.reads rest time token limit after late
  brings := fun outcome token came brings => by
    rw [List.flatMap_cons, usesOf_append, ← List.append_assoc]
    exact own.brings outcome token came brings

/-- A batch brings its next token. -/
theorem token?_ofBatch (shard : ShardId) (batch : Batch) :
    (Outcome.ofBatch shard batch).transition.token? = batch.next := by
  obtain ⟨records, next, lag⟩ := batch
  cases next <;> rfl

/-- A read goes on from its own token to another one of its shard. -/
theorem readFrom_ownTokens {fresh : Bool}
    (conversation : Conversation (reader.readFrom shard token fresh) made result)
    (plays : service.Plays (start.useAll uses) made later)
    (clean : Clean start (uses ++ usesOf (made.flatMap Exchange.calls)))
    (granted : Granted start uses shard token) : OwnTokens start uses shard made result := by
  obtain ⟨reading, rfl, asked, -⟩ := Reader.readFrom_consults conversation
  have kept : Granted start (uses ++ usesOf ([reading].flatMap Exchange.calls)) shard token :=
    granted.later (List.prefix_append _ _)
  have postponed : ∀ next, Transition.token? (.throttled (if fresh then some token else none)) =
      some next → Granted start (uses ++ usesOf ([reading].flatMap Exchange.calls)) shard next := by
    intro next brings
    cases fresh with
    | true =>
        cases brings
        exact kept
    | false => cases brings
  refine ⟨fun before time other limit after split => ?_, fun outcome next came brings => ?_⟩
  · rw [List.flatMap_singleton] at split
    have same := (request_of_split split).trans asked
    cases same
    exact granted.later (List.prefix_append _ _)
  · cases conversation with
    | left next tried => cases came
    | @asks _ _ attempts settled made _ tried rest =>
        rcases settled with (budget | _ | fault) | batch
        · cases rest
          cases came
          exact postponed next brings
        · cases rest
          cases came
          exact postponed next brings
        · cases fault with
          | expiredIterator =>
              cases rest
              cases came
              cases brings
          | resourceNotFound detail =>
              cases rest
              cases came
              cases brings
          | _ =>
              cases rest
              cases came
        · cases rest
          cases came
          rw [token?_ofBatch] at brings
          cases plays with
          | operation makes others =>
              rw [List.flatMap_singleton] at clean ⊢
              refine granted_of_answer makes tried brings fun before earlier => ?_
              exact (granted.later (List.prefix_append _ _)).owned
                (clean.earlier ((List.prefix_append_right_inj uses).mpr earlier))

/-- A shard without an iterator is read from the one that it is given. -/
theorem openAndRead_ownTokens {position : Position}
    (conversation : Conversation (reader.openAndRead shard position) made result)
    (plays : service.Plays (start.useAll uses) made later)
    (clean : Clean start (uses ++ usesOf (made.flatMap Exchange.calls))) :
    OwnTokens start uses shard made result := by
  cases conversation with
  | left next tried => exact .of_left fun _ _ => nofun
  | @asks _ _ attempts settled made _ tried rest =>
      refine OwnTokens.after (fun _ _ => nofun) ?_
      rcases settled with (budget | _ | fault) | token
      · exact .of_done (by rintro outcome ⟨⟩; rfl) rest
      · exact .of_done (by rintro outcome ⟨⟩; rfl) rest
      · cases fault with
        | resourceNotFound detail => exact .of_done (by rintro outcome ⟨⟩; rfl) rest
        | _ => exact .of_done (by rintro outcome ⟨⟩) rest
      · cases rest with
        | tell _ rest =>
            cases plays with
            | operation makes others =>
                have given := granted_of_answer makes tried rfl fun _ _ => rfl
                rw [useAll_of_makes (some (.ok token)) makes, ← useAll_append] at others
                rw [List.flatMap_cons, usesOf_append, ← List.append_assoc] at clean
                exact readFrom_ownTokens rest others clean given

/-- Successors are looked up without a token. -/
theorem lookUpSuccessors_ownTokens
    (conversation : Conversation (reader.lookUpSuccessors shard) made result) :
    OwnTokens start uses shard made result := by
  cases conversation with
  | left next tried => exact .of_left fun _ _ => nofun
  | @asks _ _ attempts settled made _ tried rest =>
      refine OwnTokens.after (fun _ _ => nofun) ?_
      rcases settled with (budget | _ | fault) | shards
      · exact .of_done (by rintro outcome ⟨⟩; rfl) rest
      · exact .of_done (by rintro outcome ⟨⟩; rfl) rest
      · cases fault with
        | resourceNotFound detail => exact .of_done (by rintro outcome ⟨⟩; rfl) rest
        | _ => exact .of_done (by rintro outcome ⟨⟩) rest
      · exact .of_done (by rintro outcome ⟨⟩; rfl) rest

/-- A pass is prepared without a read. -/
theorem unread_of_prepared {entered : Option Reader} (prepared : reader.Prepared made entered)
    {before after : List (Nat × Request)} {time : Nat} {limit : Int} :
    made.flatMap Exchange.calls ≠ before ++ (time, .readRecords token limit) :: after := by
  intro split
  cases prepared with
  | ready _ => simp at split
  | described _ lists _ =>
      rw [List.flatMap_singleton] at split
      cases (request_of_split split).trans lists
  | undescribed _ lists _ =>
      rw [List.flatMap_singleton] at split
      cases (request_of_split split).trans lists

/-- As long as a reader holds its own tokens, a step deals with the tokens of its shard. -/
theorem step_ownTokens (indexed : reader.Indexed) (holds : reader.Holds (Granted start uses))
    (conversation : Conversation (reader.step shard) made result)
    (plays : service.Plays (start.useAll uses) made later)
    (clean : Clean start (uses ++ usesOf (made.flatMap Exchange.calls))) :
    OwnTokens start uses shard made result := by
  by_cases known : shard ∈ reader.ids
  · obtain ⟨tracked, member, rfl⟩ := Reader.mem_ids.mp known
    rw [Reader.step_eq indexed member] at conversation
    cases phase : tracked.phase with
    | waiting position =>
        rw [phase] at conversation
        exact openAndRead_ownTokens conversation plays clean
    | reading token =>
        rw [phase] at conversation
        exact readFrom_ownTokens conversation plays clean (holds tracked member token phase)
    | exhausted =>
        rw [phase] at conversation
        exact lookUpSuccessors_ownTokens conversation
    | done =>
        rw [phase] at conversation
        exact .of_done (by rintro outcome ⟨⟩; rfl) conversation
  · rw [Reader.step, indexed.tracked?_eq_none known] at conversation
    exact .of_done (by rintro outcome ⟨⟩) conversation

end Script
end ShardedStream
