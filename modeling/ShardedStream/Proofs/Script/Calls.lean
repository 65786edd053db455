import ShardedStream.Script
import ShardedStream.Proofs.World.Patient

/-!
Calls of a scripted service.
A call about one shard leaves the scripts of all others alone, and the tokens that it hands out are
named for its shard. What a retried call comes to is drawn from the one script that it reads.
-/

namespace ShardedStream
namespace Script

/-- Digits alone follow the last hyphen of an issued token, so it names its shard. -/
theorem tokenText_shard {first second : ShardId} {number other : Nat}
    (same : tokenText first number = tokenText second other) : first = second := by
  have stripped : ∀ (shard : ShardId) (number : Nat),
      (tokenText shard number).toList.reverse.dropWhile Char.isDigit =
        "-iterator-".toList.reverse ++ shard.toList.reverse := by
    intro shard number
    have digits : ∀ character ∈ (Nat.repr number).toList.reverse, character.isDigit = true := by
      intro character member
      rw [List.mem_reverse, Nat.repr_eq_ofList_toDigits, String.toList_ofList] at member
      exact Nat.isDigit_of_mem_toDigits (by decide) (by decide) member
    rw [tokenText, String.toList_append, List.reverse_append,
      List.dropWhile_append_of_pos digits, String.toList_append, List.reverse_append]
    rfl
  have lists := stripped first number
  rw [same, stripped second other] at lists
  exact String.toList_inj.mp (List.reverse_inj.mp (List.append_cancel_left lists)).symm

/-- Tokens name their shards: those that are issued, those that are scripted, and no two alike. -/
structure Named (names : ShardId → Token → Prop) (script : Script) : Prop where
  issued : ∀ shard number, names shard (tokenText shard number)
  scripted : ∀ shard, ∀ reply ∈ script.iterators.getD shard [], ∀ token,
    reply.result = .ok token → names shard token
  apart : ∀ first second token, names first token → names second token → first = second

/--
Only the descriptions and the script of one shard are used up, and only tokens named for that shard
change hands.
-/
structure Keeps (names : ShardId → Token → Prop) (only : ShardId) (before after : Script) :
    Prop where
  description : after.description = before.description
  descriptions : after.descriptions <:+ before.descriptions
  iterators : ∀ shard, shard ≠ only → after.iterators[shard]? = before.iterators[shard]?
  batches : ∀ shard, shard ≠ only → after.batches[shard]? = before.batches[shard]?
  ownIterators : after.iterators.getD only [] <:+ before.iterators.getD only []
  ownBatches : after.batches.getD only [] <:+ before.batches.getD only []
  owners : ∀ token, after.owners[token]? = before.owners[token]? ∨
    names only token ∧ after.owners[token]? = some only

variable {names : ShardId → Token → Prop} {only shard : ShardId}
  {script before between after : Script}

namespace Keeps

theorem refl (names : ShardId → Token → Prop) (only : ShardId) (script : Script) :
    Keeps names only script script :=
  ⟨rfl, List.suffix_refl _, fun _ _ => rfl, fun _ _ => rfl, List.suffix_refl _, List.suffix_refl _,
    fun _ => .inl rfl⟩

theorem trans (first : Keeps names only before between) (second : Keeps names only between after) :
    Keeps names only before after where
  description := second.description.trans first.description
  descriptions := second.descriptions.trans first.descriptions
  iterators := fun shard other => (second.iterators shard other).trans (first.iterators shard other)
  batches := fun shard other => (second.batches shard other).trans (first.batches shard other)
  ownIterators := second.ownIterators.trans first.ownIterators
  ownBatches := second.ownBatches.trans first.ownBatches
  owners := fun token => by
    rcases second.owners token with same | changed
    · rw [same]
      exact first.owners token
    · exact .inr changed

theorem iterators_getD (keeps : Keeps names only before after) (other : shard ≠ only) :
    after.iterators.getD shard [] = before.iterators.getD shard [] := by
  rw [Std.ExtTreeMap.getD_eq_getD_getElem?, Std.ExtTreeMap.getD_eq_getD_getElem?,
    keeps.iterators shard other]

theorem batches_getD (keeps : Keeps names only before after) (other : shard ≠ only) :
    after.batches.getD shard [] = before.batches.getD shard [] := by
  rw [Std.ExtTreeMap.getD_eq_getD_getElem?, Std.ExtTreeMap.getD_eq_getD_getElem?,
    keeps.batches shard other]

theorem iterators_suffix (keeps : Keeps names only before after) (shard : ShardId) :
    after.iterators.getD shard [] <:+ before.iterators.getD shard [] := by
  by_cases own : shard = only
  · exact own ▸ keeps.ownIterators
  · exact ⟨[], keeps.iterators_getD own⟩

theorem batches_suffix (keeps : Keeps names only before after) (shard : ShardId) :
    after.batches.getD shard [] <:+ before.batches.getD shard [] := by
  by_cases own : shard = only
  · exact own ▸ keeps.ownBatches
  · exact ⟨[], keeps.batches_getD own⟩

/-- The scripted tokens that are left are named as before. -/
theorem named (keeps : Keeps names only before after) (named : Named names before) :
    Named names after where
  issued := named.issued
  scripted := fun shard reply member =>
    named.scripted shard reply ((keeps.iterators_suffix shard).subset member)
  apart := named.apart

/-- A token stays with its shard. -/
theorem owned (keeps : Keeps names only before after) (named : Named names before)
    {token : Token} (own : names shard token) (owned : before.owners[token]? = some shard) :
    after.owners[token]? = some shard := by
  rcases keeps.owners token with same | ⟨other, changed⟩
  · exact same.trans owned
  · rw [changed, named.apart only shard token other own]

end Keeps

/-- A token is registered for the shard that it is named for. -/
theorem keeps_register (script : Script) {token : Token} (own : names only token) :
    Keeps names only script (script.register token only) := by
  refine ⟨rfl, List.suffix_refl _, fun _ _ => rfl, fun _ _ => rfl, List.suffix_refl _,
    List.suffix_refl _, fun other => ?_⟩
  simp only [register, Std.ExtTreeMap.getElem?_insert, Std.LawfulEqCmp.compare_eq_iff_eq]
  by_cases same : token = other
  · subst same
    exact .inr ⟨own, if_pos rfl⟩
  · exact .inl (if_neg same)

theorem keeps_issue (named : Named names before) (script : Script) (only : ShardId) :
    Keeps names only script (script.issue only).2 :=
  let keeps := keeps_register script (named.issued only script.issued)
  ⟨keeps.description, keeps.descriptions, keeps.iterators, keeps.batches, keeps.ownIterators,
    keeps.ownBatches, keeps.owners⟩

/-- An issued token is registered. -/
theorem issue_owned (script : Script) (shard : ShardId) :
    (script.issue shard).2.owners[(script.issue shard).1]? = some shard :=
  Std.ExtTreeMap.getElem?_insert_self

/-- The script of iterators of one shard is cut down to its rest. -/
theorem keeps_iterators (names : ShardId → Token → Prop) {reply : Reply Token}
    {rest : List (Reply Token)}
    (queue : script.iterators.getD only [] = reply :: rest) :
    Keeps names only script { script with iterators := script.iterators.insert only rest } ∧
      (script.iterators.insert only rest).getD only [] = rest := by
  have left : (script.iterators.insert only rest).getD only [] = rest := by
    rw [Std.ExtTreeMap.getD_insert_self]
  refine ⟨⟨rfl, List.suffix_refl _, fun shard other => ?_, fun _ _ => rfl, ?_, List.suffix_refl _,
    fun _ => .inl rfl⟩, left⟩
  · simp only [Std.ExtTreeMap.getElem?_insert, Std.LawfulEqCmp.compare_eq_iff_eq,
      if_neg other.symm]
  · rw [left, queue]
    exact List.suffix_cons _ _

/-- The script of batches of one shard is cut down to its rest. -/
theorem keeps_batches (names : ShardId → Token → Prop) {reply : Reply ScriptedBatch}
    {rest : List (Reply ScriptedBatch)}
    (queue : script.batches.getD only [] = reply :: rest) :
    Keeps names only script { script with batches := script.batches.insert only rest } ∧
      (script.batches.insert only rest).getD only [] = rest := by
  have left : (script.batches.insert only rest).getD only [] = rest := by
    rw [Std.ExtTreeMap.getD_insert_self]
  refine ⟨⟨rfl, List.suffix_refl _, fun _ _ => rfl, fun shard other => ?_, List.suffix_refl _, ?_,
    fun _ => .inl rfl⟩, left⟩
  · simp only [Std.ExtTreeMap.getElem?_insert, Std.LawfulEqCmp.compare_eq_iff_eq,
      if_neg other.symm]
  · rw [left, queue]
    exact List.suffix_cons _ _

/-- An answered batch is the scripted one, and an open one comes with a token of its shard. -/
inductive Completes (names : ShardId → Token → Prop) (shard : ShardId) (script : Script) :
    ScriptedBatch → Batch → Prop where
  | goesOn {records : List Record} {lag : Int} {token : Token} (own : names shard token)
      (owned : script.owners[token]? = some shard) :
      Completes names shard script ⟨records, true, lag⟩ ⟨records, some token, lag⟩
  | ends {records : List Record} {lag : Int} :
      Completes names shard script ⟨records, false, lag⟩ ⟨records, none, lag⟩

theorem complete_keeps (named : Named names before) (script : Script) (shard : ShardId)
    (batch : ScriptedBatch) :
    Keeps names shard script (script.complete shard batch).2 ∧
      (script.complete shard batch).2.iterators = script.iterators ∧
      (script.complete shard batch).2.batches = script.batches ∧
      Completes names shard (script.complete shard batch).2 batch
        (script.complete shard batch).1 := by
  obtain ⟨records, isOpen, lag⟩ := batch
  cases isOpen with
  | true =>
      exact ⟨keeps_issue named script shard, rfl, rfl,
        .goesOn (named.issued shard _) (issue_owned script shard)⟩
  | false => exact ⟨.refl names shard script, rfl, rfl, .ends⟩

/-- Without a scripted description the shards of the script are described. -/
theorem listShards_imitates (original : Script) (stream : String) :
    Operation.Imitates (service.call (.listShards stream)) .scripted
      (fun script queue => script = { original with descriptions := queue })
      (fun _ shards scripted => shards = scripted.getD original.description) := by
  rintro time otherTime script queue rfl
  cases queue with
  | nil => exact ⟨rfl, .value rfl, rfl⟩
  | cons reply rest =>
      obtain ⟨result, latency⟩ := reply
      cases result with
      | error fault => exact ⟨rfl, .failure fault, rfl⟩
      | ok shards => exact ⟨rfl, .value rfl, rfl⟩

/-- An iterator is opened from the script of its shard, or else its token is issued. -/
theorem openIterator_imitates {original : Script} (named : Named names original)
    (stream : String) (shard : ShardId) (position : Position) :
    Operation.Imitates (service.call (.openIterator stream shard position)) .scripted
      (fun script queue => Keeps names shard original script ∧
        script.batches = original.batches ∧ script.iterators.getD shard [] = queue)
      (fun script token _ => names shard token ∧ script.owners[token]? = some shard) := by
  rintro time otherTime script queue ⟨keeps, batches, own⟩
  simp only [service, answerIterator]
  cases queue with
  | nil =>
      rw [own]
      exact ⟨rfl, .value ⟨named.issued shard _, issue_owned script shard⟩,
        keeps.trans (keeps_issue named script shard), batches, own⟩
  | cons reply rest =>
      rw [own]
      obtain ⟨cut, left⟩ := keeps_iterators names own
      obtain ⟨result, latency⟩ := reply
      cases result with
      | error fault => exact ⟨rfl, .failure fault, keeps.trans cut, batches, left⟩
      | ok token =>
          have named : names shard token := named.scripted shard ⟨.ok token, latency⟩
            ((keeps.iterators_suffix shard).subset (own ▸ List.mem_cons_self)) token rfl
          exact ⟨rfl, .value ⟨named, Std.ExtTreeMap.getElem?_insert_self⟩,
            keeps.trans (cut.trans (keeps_register _ named)), batches, left⟩

/-- A read from a token that belongs to a shard reads the script of that shard. -/
theorem readRecords_imitates {original : Script} (named : Named names original) (token : Token)
    (limit : Int) (shard : ShardId) (own : names shard token) :
    Operation.Imitates (service.call (.readRecords token limit)) .scripted
      (fun script queue => Keeps names shard original script ∧
        script.iterators = original.iterators ∧ script.owners[token]? = some shard ∧
        script.batches.getD shard [] = queue)
      (fun script batch scripted =>
        Completes names shard script (scripted.getD ⟨[], true, 0⟩) batch) := by
  rintro time otherTime script queue ⟨keeps, iterators, owned, queued⟩
  simp only [service, answerRead, owned]
  have noted : Keeps names shard script
      { script with reads := script.reads ++ [(shard, limit)] } :=
    let same := Keeps.refl names shard script
    ⟨rfl, same.descriptions, same.iterators, same.batches, same.ownIterators, same.ownBatches,
      same.owners⟩
  cases queue with
  | nil =>
      rw [queued]
      obtain ⟨completed, sameIterators, sameBatches, completes⟩ := complete_keeps named
        { script with reads := script.reads ++ [(shard, limit)] } shard ⟨[], true, 0⟩
      exact ⟨rfl, .value completes, keeps.trans (noted.trans completed),
        sameIterators.trans iterators, (noted.trans completed).owned (keeps.named named) own owned,
        (congrArg (fun batches => batches.getD shard []) sameBatches).trans queued⟩
  | cons reply rest =>
      rw [queued]
      have notedQueue : ({ script with reads := script.reads ++ [(shard, limit)] } :
          Script).batches.getD shard [] = reply :: rest := queued
      obtain ⟨cut, left⟩ := keeps_batches names notedQueue
      obtain ⟨result, latency⟩ := reply
      cases result with
      | error fault =>
          exact ⟨rfl, .failure fault, keeps.trans (noted.trans cut), iterators, owned, left⟩
      | ok batch =>
          obtain ⟨completed, sameIterators, sameBatches, completes⟩ := complete_keeps named
            { script with
              reads := script.reads ++ [(shard, limit)]
              batches := script.batches.insert shard rest } shard batch
          have whole := noted.trans (cut.trans completed)
          exact ⟨rfl, .value completes, keeps.trans whole, sameIterators.trans iterators,
            whole.owned (keeps.named named) own owned,
            (congrArg (fun batches => batches.getD shard []) sameBatches).trans left⟩

end Script
end ShardedStream
