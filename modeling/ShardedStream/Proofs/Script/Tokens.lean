import Mathlib.Data.List.Induction
import ShardedStream.Proofs.Script.Calls
import ShardedStream.Proofs.Script.Uses

/-!
Tokens of a scripted service.
Every use hands over one token at most. Issued tokens are numbered through and tell their number, so
no two of them are alike. As long as a script names a token for one shard only, and no issued one, a
token stays with its shard whatever else is done.
-/

namespace ShardedStream

/-- This is the token that an answer brings. -/
def Request.token? : (request : Request) → request.Answer → Option Token
  | .listShards _, _ => none
  | .openIterator _ _ _, token => some token
  | .readRecords _ _, batch => batch.next

namespace Script

/-- A token that is handed over for a shard. -/
structure Grant where
  shard : ShardId
  token : Token
  /-- The token stands in the script; any other is issued. -/
  scripted : Bool
  deriving DecidableEq, Repr

/-- This is the shard that a call is about; a call for records tells it by its token. -/
def about? (script : Script) : Request → Option ShardId
  | .listShards _ => none
  | .openIterator _ shard _ => some shard
  | .readRecords token _ => script.owners[token]?

/-- Only a token for an iterator may stand in the script. -/
def scripts (script : Script) : Request → Bool
  | .listShards _ => false
  | .openIterator _ shard _ => !(script.iterators.getD shard []).isEmpty
  | .readRecords _ _ => false

/-- This is what a use hands over. -/
def grant? (script : Script) : Use → Option Grant
  | .issue shard => some ⟨shard, (script.issue shard).1, false⟩
  | .call request time =>
    match script.about? request, (service.call request time script).1.result with
    | some shard, .ok answer =>
      (request.token? answer).map fun token => ⟨shard, token, script.scripts request⟩
    | _, _ => none
  | .describe _ => none
  | .queueDescriptions _ => none
  | .queueIterators _ _ => none
  | .queueBatches _ _ => none

/-- A token that a call brings is handed over for the shard that the call is about. -/
theorem grant?_of_answer {script : Script} {request : Request} {time : Nat}
    {answer : request.Answer} {shard : ShardId} {token : Token}
    (about : script.about? request = some shard)
    (said : (service.call request time script).1.result = .ok answer)
    (brings : request.token? answer = some token) :
    script.grant? (.call request time) = some ⟨shard, token, script.scripts request⟩ := by
  simp only [grant?, about, said, brings, Option.map_some]

/-- Everything that is handed over, in order. -/
def grants (script : Script) : List Use → List Grant
  | [] => []
  | use :: uses => (script.grant? use).toList ++ (script.use use).grants uses

/-- What is issued, in order. -/
def issues (script : Script) (uses : List Use) : List Grant :=
  (script.grants uses).filter fun grant => !grant.scripted

/-- Whoever gets a token of a shard becomes its owner, and only issued tokens are counted. -/
inductive Grants (before after : Script) : Option Grant → Prop where
  | nothing (owners : after.owners = before.owners) (issued : after.issued = before.issued) :
      Grants before after none
  | scripted {shard : ShardId} {token : Token}
      (owners : after.owners = before.owners.insert token shard)
      (issued : after.issued = before.issued) : Grants before after (some ⟨shard, token, true⟩)
  | issued {shard : ShardId}
      (owners : after.owners = before.owners.insert (tokenText shard before.issued) shard)
      (issued : after.issued = before.issued + 1) :
      Grants before after (some ⟨shard, tokenText shard before.issued, false⟩)

variable {script : Script} {uses others : List Use}

namespace Grants

variable {before other after : Script}

/-- Nothing but the owners and the count is looked at. -/
theorem of_eq {grant : Option Grant} (grants : Grants other after grant)
    (owners : other.owners = before.owners) (issued : other.issued = before.issued) :
    Grants before after grant := by
  cases grants with
  | nothing sameOwners sameIssued =>
      exact .nothing (sameOwners.trans owners) (sameIssued.trans issued)
  | scripted newOwners sameIssued =>
      exact .scripted (owners ▸ newOwners) (sameIssued.trans issued)
  | issued newOwners newIssued =>
      rw [issued] at newOwners newIssued ⊢
      exact .issued (owners ▸ newOwners) newIssued

theorem owners_of_none (grants : Grants before after none) : after.owners = before.owners := by
  cases grants with
  | nothing owners _ => exact owners

theorem owners_of_some {grant : Grant} (grants : Grants before after (some grant)) :
    after.owners = before.owners.insert grant.token grant.shard := by
  cases grants with
  | scripted owners _ => exact owners
  | issued owners _ => exact owners

end Grants

/-- An open batch comes with an issued token. -/
theorem complete_grants (script : Script) (shard : ShardId) (batch : ScriptedBatch) :
    Grants script (script.complete shard batch).2
      ((script.complete shard batch).1.next.map fun token => ⟨shard, token, false⟩) := by
  unfold complete
  split
  · exact .issued rfl rfl
  · exact .nothing rfl rfl

/-- This is what every use does with the tokens. -/
theorem use_grants (script : Script) (use : Use) :
    Grants script (script.use use) (script.grant? use) := by
  cases use with
  | describe shards => exact .nothing rfl rfl
  | queueDescriptions replies => exact .nothing rfl rfl
  | queueIterators shard replies => exact .nothing rfl rfl
  | queueBatches shard replies => exact .nothing rfl rfl
  | issue shard => exact .issued rfl rfl
  | call request time =>
      cases request with
      | listShards stream =>
          simp only [Script.use, grant?, about?, service, answerList]
          split <;> exact .nothing rfl rfl
      | openIterator stream shard position =>
          simp only [Script.use, grant?, about?, scripts, service, answerIterator]
          cases script.iterators.getD shard [] with
          | nil => exact .issued rfl rfl
          | cons reply rest =>
              obtain ⟨result, latency⟩ := reply
              cases result with
              | error fault => exact .nothing rfl rfl
              | ok token => exact .scripted rfl rfl
      | readRecords token limit =>
          simp only [Script.use, grant?, about?, scripts, service]
          cases owned : script.owners[token]? with
          | none =>
              rw [answerRead, owned]
              exact .nothing rfl rfl
          | some shard =>
              have taken := script.takeBatch_tokens shard
              rw [answerRead_eq owned]
              cases (script.batchDue shard).result with
              | error fault => exact .nothing taken.1 taken.2
              | ok batch =>
                  exact (complete_grants _ shard batch).of_eq taken.1 taken.2

theorem grants_append (script : Script) (uses others : List Use) :
    script.grants (uses ++ others) = script.grants uses ++ (script.useAll uses).grants others := by
  induction uses generalizing script with
  | nil => rfl
  | cons use uses inductionHypothesis =>
      simp only [List.cons_append, grants, inductionHypothesis, List.append_assoc]
      rfl

/-- Issued tokens are numbered through, and the count goes on behind them. -/
theorem issues_numbered (script : Script) (uses : List Use) :
    (script.issues uses).map Grant.token =
        (((script.issues uses).map Grant.shard).zipIdx script.issued).map
          (fun entry => tokenText entry.1 entry.2) ∧
      (script.useAll uses).issued = script.issued + (script.issues uses).length := by
  induction uses generalizing script with
  | nil => exact ⟨rfl, rfl⟩
  | cons use uses inductionHypothesis =>
      obtain ⟨numbered, counted⟩ := inductionHypothesis (script.use use)
      have split : script.issues (use :: uses) =
          (script.grant? use).toList.filter (fun grant => !grant.scripted) ++
            (script.use use).issues uses := List.filter_append _ _
      change _ ∧ ((script.use use).useAll uses).issued = _
      rw [split, counted]
      have grants := script.use_grants use
      generalize script.grant? use = grant at grants
      cases grants with
      | nothing _ issued => exact ⟨issued ▸ numbered, congrArg (· + _) issued⟩
      | scripted _ issued => exact ⟨issued ▸ numbered, congrArg (· + _) issued⟩
      | issued _ issued =>
          rw [issued] at numbered ⊢
          refine ⟨congrArg (_ :: ·) numbered, ?_⟩
          rw [List.length_append]
          exact Nat.add_assoc _ _ _

/-- A token tells how many were issued before. -/
theorem tokenText_number {first second : ShardId} {number other : Nat}
    (same : tokenText first number = tokenText second other) : number = other := by
  have digits : ∀ number, (Nat.repr number).toList = Nat.toDigits 10 number := fun number => by
    rw [Nat.repr_eq_ofList_toDigits, String.toList_ofList]
  have value : ∀ number, Nat.ofDigitChars 10 (Nat.toDigits 10 number) 0 = number :=
    fun number => Nat.ofDigitChars_toDigits (by decide) (by decide)
  rw [tokenText_shard same] at same
  rw [← value number, ← digits, (String.append_right_inj _).mp same, digits, value]

/-- No token is issued twice, whatever the shards are called. -/
theorem nodup_issues (script : Script) (uses : List Use) :
    ((script.issues uses).map Grant.token).Nodup := by
  rw [(script.issues_numbered uses).1, List.Nodup, List.pairwise_map]
  have numbers : ((((script.issues uses).map Grant.shard).zipIdx script.issued).map
      Prod.snd).Nodup := by
    rw [List.zipIdx_map_snd]
    exact List.nodup_range'
  exact (List.pairwise_map.mp numbers).imp fun apart same => apart (tokenText_number same)

/-- An issued token is named for its shard. -/
theorem named_of_not_scripted {grant : Grant} (member : grant ∈ script.grants uses)
    (issued : grant.scripted = false) : ∃ number, grant.token = tokenText grant.shard number := by
  induction uses generalizing script with
  | nil => cases member
  | cons use uses inductionHypothesis =>
      rcases List.mem_append.mp member with first | later
      · have grants := script.use_grants use
        rw [Option.mem_toList.mp first] at grants
        cases grants with
        | scripted _ _ => cases issued
        | issued _ _ => exact ⟨_, rfl⟩
      · exact inductionHypothesis later

/-- Scripted tokens are each used for one shard only, and none of them is issued as well. -/
structure Clean (script : Script) (uses : List Use) : Prop where
  once : ∀ first ∈ script.grants uses, ∀ second ∈ script.grants uses,
    first.scripted = true → second.scripted = true → first.token = second.token →
      first.shard = second.shard
  apart : ∀ first ∈ script.grants uses, ∀ second ∈ script.grants uses,
    first.scripted = true → second.scripted = false → first.token ≠ second.token

instance (script : Script) (uses : List Use) : Decidable (Clean script uses) :=
  decidable_of_iff
    ((∀ first ∈ script.grants uses, ∀ second ∈ script.grants uses,
        first.scripted = true → second.scripted = true → first.token = second.token →
          first.shard = second.shard) ∧
      ∀ first ∈ script.grants uses, ∀ second ∈ script.grants uses,
        first.scripted = true → second.scripted = false → first.token ≠ second.token)
    ⟨fun both => ⟨both.1, both.2⟩, fun clean => ⟨clean.once, clean.apart⟩⟩

/-- Whatever is handed over stays so. -/
theorem grants_subset (within : uses <+: others) : script.grants uses ⊆ script.grants others := by
  obtain ⟨later, rfl⟩ := within
  rw [grants_append]
  exact List.subset_append_left _ _

/-- What came first was clean by itself. -/
theorem Clean.earlier (clean : Clean script others) (within : uses <+: others) :
    Clean script uses where
  once := fun first here second there =>
    clean.once first (grants_subset within here) second (grants_subset within there)
  apart := fun first here second there =>
    clean.apart first (grants_subset within here) second (grants_subset within there)

/-- So a token stands for one shard. -/
theorem Clean.shard_eq (clean : Clean script uses) {first second : Grant}
    (here : first ∈ script.grants uses) (there : second ∈ script.grants uses)
    (same : first.token = second.token) : first.shard = second.shard := by
  cases scripted : first.scripted with
  | true =>
      cases other : second.scripted with
      | true => exact clean.once first here second there scripted other same
      | false => exact absurd same (clean.apart first here second there scripted other)
  | false =>
      cases other : second.scripted with
      | true => exact absurd same.symm (clean.apart second there first here other scripted)
      | false =>
          obtain ⟨number, named⟩ := named_of_not_scripted here scripted
          obtain ⟨another, alsoNamed⟩ := named_of_not_scripted there other
          exact tokenText_shard (named.symm.trans (same.trans alsoNamed))

/-- The token has been handed over for the shard. -/
def Granted (script : Script) (uses : List Use) (shard : ShardId) (token : Token) : Prop :=
  ∃ grant ∈ script.grants uses, grant.shard = shard ∧ grant.token = token

variable {shard : ShardId} {token : Token}

theorem Granted.later (granted : Granted script uses shard token)
    (within : uses <+: others) : Granted script others shard token := by
  obtain ⟨grant, member, named⟩ := granted
  exact ⟨grant, grants_subset within member, named⟩

/-- What the last use hands over has been handed over. -/
theorem granted_last {use : Use} {scripted : Bool}
    (last : (script.useAll uses).grant? use = some ⟨shard, token, scripted⟩) :
    Granted script (uses ++ [use]) shard token := by
  refine ⟨⟨shard, token, scripted⟩, ?_, rfl, rfl⟩
  rw [grants_append, grants, last]
  exact List.mem_append_right _ List.mem_cons_self

/-- A token that has been handed over belongs to its shard from then on. -/
theorem Granted.owned (granted : Granted script uses shard token) (clean : Clean script uses) :
    (script.useAll uses).owners[token]? = some shard := by
  induction uses using List.reverseRecOn with
  | nil =>
      obtain ⟨grant, member, _⟩ := granted
      cases member
  | append_singleton uses use inductionHypothesis =>
      obtain ⟨grant, member, rfl, rfl⟩ := granted
      have earlier : grant ∈ script.grants uses →
          (script.useAll uses).owners[grant.token]? = some grant.shard :=
        fun before => inductionHypothesis ⟨grant, before, rfl, rfl⟩
          (clean.earlier (List.prefix_append uses [use]))
      have last := (script.useAll uses).use_grants use
      have split := script.grants_append uses [use]
      rw [grants, grants, List.append_nil] at split
      rw [useAll_append]
      change ((script.useAll uses).use use).owners[grant.token]? = some grant.shard
      cases handed : (script.useAll uses).grant? use with
      | none =>
          rw [handed] at last split
          rw [last.owners_of_none]
          exact earlier (by rwa [split, Option.toList_none, List.append_nil] at member)
      | some new =>
          rw [handed] at last split
          simp only [last.owners_of_some, Std.ExtTreeMap.getElem?_insert,
            Std.LawfulEqCmp.compare_eq_iff_eq]
          by_cases same : new.token = grant.token
          · have there : new ∈ script.grants (uses ++ [use]) :=
              split ▸ List.mem_append_right _ List.mem_cons_self
            rw [if_pos same, clean.shard_eq there member same]
          · rw [if_neg same]
            rw [split] at member
            rcases List.mem_append.mp member with before | own
            · exact earlier before
            · exact absurd (congrArg Grant.token (List.mem_singleton.mp own)).symm same

end Script
end ShardedStream
