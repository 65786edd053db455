import ShardedStream.Proofs.World.Conversation
import ShardedStream.Reader.Step

/-!
The failures that a reader passes on.
A dialogue of a reader stops at the first question that the service refuses for good, and with that
refusal; whatever else a question comes to, the dialogue goes on.
-/

namespace ShardedStream

variable {σ α : Type}

/-- The operations on record, and the error that the last of them raises, if it raises one. -/
inductive Raises : List Exchange → Option ReaderError → Prop where
  | quiet {made : List Exchange} (tried : ∀ exchange ∈ made, exchange.Tried)
      (harmless : ∀ exchange ∈ made, ∀ fault, ¬ exchange.AbortsWith fault) : Raises made none
  | aborted {made : List Exchange} {last : Exchange} {fault : Fault}
      (tried : ∀ exchange ∈ made, exchange.Tried)
      (harmless : ∀ exchange ∈ made, ∀ fault, ¬ exchange.AbortsWith fault)
      (lastTried : last.Tried) (aborts : last.AbortsWith fault) :
      Raises (made ++ [last]) (some (.client fault))

namespace Raises

variable {made earlier later : List Exchange} {error : Option ReaderError}

theorem nothing : Raises [] none :=
  .quiet (fun _ member => absurd member List.not_mem_nil)
    (fun _ member => absurd member List.not_mem_nil)

/-- One operation raises its own fault. -/
theorem single {exchange : Exchange} {fault : Fault} (tried : exchange.Tried)
    (aborts : exchange.AbortsWith fault) : Raises [exchange] (some (.client fault)) :=
  .aborted (fun _ member => absurd member List.not_mem_nil)
    (fun _ member => absurd member List.not_mem_nil) tried aborts

theorem singleQuiet {exchange : Exchange} (tried : exchange.Tried)
    (harmless : ∀ fault, ¬ exchange.AbortsWith fault) : Raises [exchange] none :=
  .quiet (fun _ member => List.mem_singleton.mp member ▸ tried)
    (fun _ member => List.mem_singleton.mp member ▸ harmless)

theorem tried (raises : Raises made error) : ∀ exchange ∈ made, exchange.Tried := by
  cases raises with
  | quiet tried _ => exact tried
  | aborted tried _ lastTried _ =>
      intro exchange member
      rcases List.mem_append.mp member with before | own
      · exact tried exchange before
      · exact List.mem_singleton.mp own ▸ lastTried

/-- Operations go on after others that raised nothing. -/
theorem append (first : Raises earlier none) (second : Raises later error) :
    Raises (earlier ++ later) error := by
  cases first with
  | quiet tried harmless =>
      have both : ∀ {Holds : Exchange → Prop} {rest : List Exchange},
          (∀ exchange ∈ earlier, Holds exchange) → (∀ exchange ∈ rest, Holds exchange) →
            ∀ exchange ∈ earlier ++ rest, Holds exchange := by
        intro Holds rest before after exchange member
        rcases List.mem_append.mp member with old | new
        · exact before exchange old
        · exact after exchange new
      cases second with
      | quiet triedLater harmlessLater =>
          exact .quiet (both tried triedLater) (both harmless harmlessLater)
      | aborted triedLater harmlessLater lastTried aborts =>
          rw [← List.append_assoc]
          exact .aborted (both tried triedLater) (both harmless harmlessLater) lastTried aborts

/-- What is raised is the fault of an operation that ends the pass. -/
theorem error_iff (raises : Raises made error) (raised : ReaderError) :
    error = some raised ↔
      ∃ exchange ∈ made, ∃ fault, exchange.AbortsWith fault ∧ raised = .client fault := by
  cases raises with
  | quiet _ harmless =>
      constructor
      · intro same
        cases same
      · rintro ⟨exchange, member, fault, aborts, _⟩
        exact absurd aborts (harmless exchange member fault)
  | @aborted made last fault _ harmless _ aborts =>
      constructor
      · rintro same
        exact ⟨last, List.mem_append_right _ List.mem_cons_self, fault, aborts,
          (Option.some.inj same).symm⟩
      · rintro ⟨exchange, member, other, otherAborts, rfl⟩
        rcases List.mem_append.mp member with before | own
        · exact absurd otherAborts (harmless exchange before other)
        · rw [List.mem_singleton.mp own] at otherAborts
          have same := aborts.1.symm.trans otherAborts.1
          rw [Option.some.injEq, Except.error.injEq] at same
          rw [same]

/-- No operation follows one that ends the pass. -/
theorem ended (raises : Raises made error) {exchange : Exchange} {fault : Fault}
    (aborts : exchange.AbortsWith fault) (split : made = earlier ++ exchange :: later) :
    later = [] := by
  cases raises with
  | quiet _ harmless =>
      exact absurd aborts
        (harmless exchange (split ▸ List.mem_append_right _ List.mem_cons_self) fault)
  | @aborted made last _ _ harmless _ _ =>
      rcases List.append_eq_append_iff.mp split with
        ⟨between, rfl, rest⟩ | ⟨between, rfl, rest⟩
      · exact nothing_after_only rest
      · cases between with
        | nil =>
            have own : [last] = [] ++ exchange :: later := rest.symm
            exact nothing_after_only own
        | cons first between =>
            obtain ⟨rfl, _⟩ := List.cons.inj rest
            exact absurd aborts
              (harmless exchange (List.mem_append_right _ List.mem_cons_self) fault)

end Raises

/-- A dialogue stops at a failure that ends the pass, and at no other. -/
inductive Surfaces : Dialogue (Except ReaderError α) → Prop where
  | done (value : α) : Surfaces (.done (.ok value))
  | tell (report : Report) {next : Dialogue (Except ReaderError α)} (rest : Surfaces next) :
      Surfaces (.tell report next)
  | ask {request : Request} {next : Settled request → Dialogue (Except ReaderError α)}
      (answered : ∀ answer, Surfaces (next (.ok answer)))
      (refused : ∀ fault, fault.isThrottling = false → request.isFatal fault = false →
        Surfaces (next (request.settle (.error (.fatal fault)))))
      (aborted : ∀ fault, request.isFatal fault = true →
        next (.error fault) = .done (.error (.client fault))) :
      Surfaces (.ask request next)

/-- This is the error of an answer, if it came and is one. -/
def raised? : Option (Except ReaderError α) → Option ReaderError
  | some (.error error) => some error
  | some (.ok _) => none
  | none => none

/-- An operation with an outcome that does not end the pass is harmless. -/
theorem Exchange.Tried.harmless {exchange : Exchange} (tried : exchange.Tried)
    (spared : ∀ fault, exchange.outcome = some (.error (.fatal fault)) →
      exchange.request.isFatal fault = false) (fault : Fault) : ¬ exchange.AbortsWith fault := by
  intro aborts
  obtain ⟨outcome, fatal⟩ := tried.abortsWith_iff.mp aborts
  rw [spared fault outcome] at fatal
  cases fatal

/-- A dialogue that surfaces failures raises the one that has ended it. -/
theorem Surfaces.raises {dialogue : Dialogue (Except ReaderError α)} {made : List Exchange}
    {result : Option (Except ReaderError α)} (surfaces : Surfaces dialogue)
    (conversation : Conversation dialogue made result) : Raises made (raised? result) := by
  induction conversation with
  | done value =>
      cases surfaces
      exact .nothing
  | tell report _ inductionHypothesis =>
      cases surfaces with
      | tell _ rest => exact inductionHypothesis rest
  | left next tried => exact .singleQuiet tried (tried.harmless fun _ same => by cases same)
  | @asks request next attempts outcome made result tried rest inductionHypothesis =>
      cases surfaces with
      | ask answered refused aborted =>
          -- After a harmless operation the rest of the dialogue has the last word.
          have goesOn : (∀ fault, outcome = .error (.fatal fault) → request.isFatal fault = false) →
              Surfaces (next (request.settle outcome)) →
              Raises (⟨request, attempts, some outcome⟩ :: made) (raised? result) := by
            intro spared surfaces
            have harmless := tried.harmless fun fault same => spared fault (Option.some.inj same)
            exact (Raises.singleQuiet tried harmless).append (inductionHypothesis surfaces)
          rcases outcome with (budget | _ | fault) | value
          · exact goesOn (fun _ same => by cases same) (answered none)
          · exact goesOn (fun _ same => by cases same) (answered none)
          · cases fatal : request.isFatal fault with
            | true =>
                rw [Request.settle_of_isFatal fatal, aborted fault fatal] at rest
                cases rest
                exact .single tried (tried.abortsWith_iff.mpr ⟨rfl, fatal⟩)
            | false =>
                have final : fault.isThrottling = false := (tried.fatal_iff.mp rfl).2
                exact goesOn (fun _ same => by cases same; exact fatal)
                  (refused fault final fatal)
          · exact goesOn (fun _ same => by cases same) (answered (some value))

/-- The operations that it puts on record tell the error that a dialogue raises. -/
theorem World.converse_raises (service : Service σ) (plan : Nat → RetryPlan)
    {dialogue : Dialogue (Except ReaderError α)} (surfaces : Surfaces dialogue)
    (world : World σ) :
    ∃ made, Raises made (raised? (world.converse service plan dialogue).1) ∧
      (world.converse service plan dialogue).2.exchanges = world.exchanges ++ made := by
  obtain ⟨made, exchanges, conversation⟩ := converse_conversation service plan dialogue world
  exact ⟨made, surfaces.raises conversation, exchanges⟩

namespace Reader

variable {reader : Reader}

theorem surfaces_readFrom (shard : ShardId) (token : Token) (fresh : Bool) :
    Surfaces (reader.readFrom shard token fresh) := by
  refine .ask (fun answer => ?_) (fun fault final spared => ?_) (fun fault fatal => ?_)
  · cases answer with
    | none => exact .done _
    | some batch => exact .done _
  · cases fault with
    | expiredIterator => exact .done _
    | resourceNotFound detail => exact .done _
    | throughputExceeded detail => cases final
    | _ => cases spared
  · cases fault with
    | expiredIterator => cases fatal
    | _ => rfl

theorem surfaces_openAndRead (shard : ShardId) (position : Position) :
    Surfaces (reader.openAndRead shard position) := by
  refine .ask (fun answer => ?_) (fun fault final spared => ?_) (fun fault fatal => ?_)
  · cases answer with
    | none => exact .done _
    | some token => exact .tell _ (surfaces_readFrom shard token true)
  · cases fault with
    | resourceNotFound detail => exact .done _
    | throughputExceeded detail => cases final
    | _ => cases spared
  · cases fault with
    | resourceNotFound detail => cases fatal
    | _ => rfl

theorem surfaces_lookUpSuccessors (shard : ShardId) :
    Surfaces (reader.lookUpSuccessors shard) := by
  refine .ask (fun answer => ?_) (fun fault final spared => ?_) (fun fault fatal => ?_)
  · cases answer with
    | none => exact .done _
    | some shards => exact .done _
  · cases fault with
    | resourceNotFound detail => exact .done _
    | throughputExceeded detail => cases final
    | _ => cases spared
  · rfl

/-- In every phase a step of a tracked shard fails by the service alone. -/
theorem surfaces_step {shard : ShardId} {tracked : Tracked}
    (found : reader.tracked? shard = some tracked) : Surfaces (reader.step shard) := by
  rw [step, found]
  simp only
  cases tracked.phase with
  | waiting position => exact surfaces_openAndRead shard position
  | reading token => exact surfaces_readFrom shard token false
  | exhausted => exact surfaces_lookUpSuccessors shard
  | done => exact .done _

theorem surfaces_reportAll (reports : List Report) {next : Dialogue (Except ReaderError α)}
    (rest : Surfaces next) :
    Surfaces ((Dialogue.reportAll reports).andThen fun _ => next) := by
  induction reports with
  | nil => exact rest
  | cons report reports inductionHypothesis => exact .tell report inductionHypothesis

/-- A preparation fails by the service alone. -/
theorem surfaces_prepare (reader : Reader) : Surfaces reader.prepare := by
  unfold prepare
  cases reader.initialized with
  | true => exact .done _
  | false =>
      refine .ask (fun answer => ?_) (fun fault final spared => ?_) (fun fault fatal => ?_)
      · cases answer with
        | none => exact .tell _ (.done _)
        | some shards => exact surfaces_reportAll _ (.done _)
      · cases fault with
        | resourceNotFound detail => exact .tell _ (.done _)
        | throughputExceeded detail => cases final
        | _ => cases spared
      · rfl

end Reader
end ShardedStream
