import ShardedStream.Fault
import ShardedStream.Record

/-!
What the client library of the service hands over, and what a reader makes of it.
Members that the service may leave out are optional there. A shard without a first sequence number
counts as one with an empty number, and a batch that does not say how far it is behind is at the
tip.
-/

namespace ShardedStream

/-- Why a request has no answer. -/
inductive SendFailure where
  /-- Nothing came in time. -/
  | timedOut (detail : String)
  /-- The request did not get through. -/
  | undelivered (detail : String)
  /-- It was refused, perhaps with a code, or the answer could not be read. -/
  | rejected (code : Option String) (detail : String)
  deriving DecidableEq, Repr, Inhabited

/-- The failure as it is reported. -/
def SendFailure.fault : SendFailure → Fault
  | .timedOut detail => .timeout detail
  | .undelivered detail => .connection detail
  | .rejected code detail => .ofCode code detail

/-- What came of a request, so many milliseconds after it was sent. -/
structure Sent (α : Type) where
  result : Except SendFailure α
  duration : Nat

/-- The next one of the responses that are left; without one the request does not get through. -/
def Sent.next {α : Type} : List (Sent α) → Sent α × List (Sent α)
  | [] => (⟨.error (.undelivered "no response"), 0⟩, [])
  | response :: rest => (response, rest)

/-- The sequence numbers between which a shard lies. -/
structure RangeAnswer where
  first : Option SequenceNumber
  last : Option SequenceNumber
  deriving DecidableEq, Repr, Inhabited

/-- A shard as it is listed on a page. -/
structure ShardAnswer where
  id : ShardId
  parent : Option ShardId
  range : Option RangeAnswer
  deriving DecidableEq, Repr, Inhabited

def ShardAnswer.shard (answer : ShardAnswer) : Shard where
  id := answer.id
  parent := answer.parent
  startSequence := (answer.range.bind RangeAnswer.first).getD ""
  endSequence := answer.range.bind RangeAnswer.last

/-- One page of a description, and the token of the page after it. -/
structure PageAnswer where
  shards : Option (List ShardAnswer)
  next : Option String
  deriving DecidableEq, Repr, Inhabited

/-- The shards of a page; it may go without a list of them. -/
def PageAnswer.listed (page : PageAnswer) : List ShardAnswer := page.shards.getD []

/-- The token of the next page; an empty one marks the last page. -/
def PageAnswer.following? (page : PageAnswer) : Option String :=
  page.next.filter fun token => !token.isEmpty

structure RecordAnswer where
  sequence : SequenceNumber
  key : String
  data : List UInt8
  arrival : Option Arrival
  deriving DecidableEq, Repr, Inhabited

/-- The last second of the calendar. -/
def Arrival.lastSecond : Int := 8210266876799

/-- The first second of the calendar. -/
def Arrival.firstSecond : Int := -8334601228800

/-- A time of arrival that no calendar holds is left out. -/
def Arrival.dated? (arrival : Arrival) : Option Arrival :=
  if firstSecond ≤ arrival.seconds && arrival.seconds ≤ lastSecond then some arrival else none

def RecordAnswer.record (answer : RecordAnswer) : Record :=
  ⟨answer.sequence, answer.key, answer.data, answer.arrival.bind Arrival.dated?⟩

/-- The answer to one read. -/
structure BatchAnswer where
  records : List RecordAnswer
  next : Option Token
  lag : Option Int
  deriving DecidableEq, Repr, Inhabited

def BatchAnswer.batch (answer : BatchAnswer) : Batch :=
  ⟨answer.records.map RecordAnswer.record, answer.next, answer.lag.getD 0⟩

end ShardedStream
