import ShardedStream.Event
import ShardedStream.Notice
import ShardedStream.Service

/-!
Dialogues: what a reader asks of the service and reports on the way, told apart from how the
questions are answered. A question may fail, and it may stay open until the next pass.
-/

namespace ShardedStream

/-- Something a reader makes known. -/
inductive Report where
  | event (event : Event)
  | notice (notice : Notice)
  deriving DecidableEq, Repr

/-- What a question comes to; `none` means that it stays open for this pass. -/
abbrev Settled (request : Request) := Except Fault (Option request.Answer)

/-- A dialogue ends with a value, asks one question, or reports one thing. -/
inductive Dialogue (α : Type) where
  | done (value : α)
  | ask (request : Request) (next : Settled request → Dialogue α)
  | tell (report : Report) (next : Dialogue α)

namespace Dialogue

variable {α β γ : Type}

/-- Goes on with `next` where the dialogue ends. -/
def andThen (dialogue : Dialogue α) (next : α → Dialogue β) : Dialogue β :=
  match dialogue with
  | .done value => next value
  | .ask request rest => .ask request fun settled => (rest settled).andThen next
  | .tell report rest => .tell report (rest.andThen next)

instance : Monad Dialogue where
  pure := done
  bind := andThen

/-- Asks one question. -/
def request (request : Request) : Dialogue (Settled request) := .ask request .done

/-- Reports one thing. -/
def report (report : Report) : Dialogue Unit := .tell report (.done ())

/-- Reports several things in order. -/
def reportAll : List Report → Dialogue Unit
  | [] => .done ()
  | report :: rest => .tell report (reportAll rest)

@[simp] theorem pure_eq (value : α) : (pure value : Dialogue α) = .done value := rfl

@[simp] theorem bind_eq (dialogue : Dialogue α) (next : α → Dialogue β) :
    dialogue >>= next = dialogue.andThen next := rfl

@[simp] theorem andThen_done (dialogue : Dialogue α) : dialogue.andThen .done = dialogue := by
  induction dialogue with
  | done value => rfl
  | ask request next inductionHypothesis => simp [andThen, inductionHypothesis]
  | tell report next inductionHypothesis => simp [andThen, inductionHypothesis]

theorem andThen_assoc (dialogue : Dialogue α) (next : α → Dialogue β) (last : β → Dialogue γ) :
    (dialogue.andThen next).andThen last =
      dialogue.andThen fun value => (next value).andThen last := by
  induction dialogue with
  | done value => rfl
  | ask request next inductionHypothesis => simp [andThen, inductionHypothesis]
  | tell report next inductionHypothesis => simp [andThen, inductionHypothesis]

/-- The first question of a dialogue, if it asks any. -/
def firstRequest? : Dialogue α → Option Request
  | .done _ => none
  | .ask request _ => some request
  | .tell _ next => next.firstRequest?

end Dialogue

end ShardedStream
