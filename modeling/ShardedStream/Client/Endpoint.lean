import ShardedStream.Client.Answer
import ShardedStream.World

/-!
The stream service behind its client library.
A description comes in pages: the first request names the stream, every later one carries the token
of the page before and nothing else. It is sent when that page has come, unless the caller has
stopped waiting by then.
-/

namespace ShardedStream

/-- A request as the client library gets it. -/
inductive Sending where
  | listShards (stream token : Option String)
  | openIterator (stream : String) (shard : ShardId) (kind : String)
      (sequence : Option SequenceNumber)
  | readRecords (token : Token) (limit : Int)
  deriving DecidableEq, Repr, Inhabited

/-- The first page is asked for by stream, a later one by token. -/
def Sending.page (stream : String) : Option String → Sending
  | none => .listShards (some stream) none
  | some token => .listShards none (some token)

/-- What a description has come to, and when. -/
structure Listing where
  result : Except Fault (List Shard)
  stop : Nat
  /-- The responses that it has left. -/
  left : List (Sent PageAnswer)
  sent : List (Nat × Sending)

/--
Collects the pages of a description from now on; each page takes one response. What a listing has
come to that its caller does not wait for is never looked at.
-/
def Listing.ofPages (waits : Nat → Bool) (stream : String) :
    List (Sent PageAnswer) → Option String → Nat → List Shard → Listing
  | [], token, now, _ => ⟨.error (.connection "no response"), now, [], [(now, .page stream token)]⟩
  | response :: left, token, now, collected =>
    let request := (now, Sending.page stream token)
    let arrival := now + response.duration
    match response.result with
    | .error failure => ⟨.error failure.fault, arrival, left, [request]⟩
    | .ok page =>
      let collected := collected ++ page.listed.map ShardAnswer.shard
      match page.following? with
      | none => ⟨.ok collected, arrival, left, [request]⟩
      | some token =>
        if waits arrival then
          let rest := ofPages waits stream left (some token) arrival collected
          { rest with sent := request :: rest.sent }
        else ⟨.error (.timeout "nobody waits"), arrival, left, [request]⟩

/-- The responses that an endpoint has left, and the requests that it got, with their times. -/
structure Endpoint where
  pages : List (Sent PageAnswer)
  iterators : List (Sent (Option Token))
  batches : List (Sent BatchAnswer)
  sent : List (Nat × Sending)

namespace Endpoint

/-- All pages of a description. -/
def listShards (waits : Nat → Bool) (stream : String) (now : Nat) (endpoint : Endpoint) :
    Reply (List Shard) × Endpoint :=
  let listing := Listing.ofPages waits stream endpoint.pages none now []
  (⟨listing.result, listing.stop - now⟩,
    { endpoint with pages := listing.left, sent := endpoint.sent ++ listing.sent })

/-- A response without an iterator means that the shard is gone. -/
def openIterator (stream : String) (shard : ShardId) (position : Position) (now : Nat)
    (endpoint : Endpoint) : Reply Token × Endpoint :=
  let (response, left) := Sent.next endpoint.iterators
  let result :=
    match response.result with
    | .ok (some token) => .ok token
    | .ok none => .error (.resourceNotFound ("No iterator issued for shard " ++ shard))
    | .error failure => .error failure.fault
  let request := Sending.openIterator stream shard position.kind position.sequence?
  (⟨result, response.duration⟩,
    { endpoint with iterators := left, sent := endpoint.sent ++ [(now, request)] })

def readRecords (token : Token) (limit : Int) (now : Nat) (endpoint : Endpoint) :
    Reply Batch × Endpoint :=
  let (response, left) := Sent.next endpoint.batches
  let result :=
    match response.result with
    | .ok answer => .ok answer.batch
    | .error failure => .error failure.fault
  (⟨result, response.duration⟩,
    { endpoint with
      batches := left
      sent := endpoint.sent ++ [(now, Sending.readRecords token limit)] })

/-- The endpoint as a service, for a caller that waits up to some instants. -/
def service (waits : Nat → Bool) : Service Endpoint where
  call request now endpoint :=
    match request with
    | .listShards stream => endpoint.listShards waits stream now
    | .openIterator stream shard position => endpoint.openIterator stream shard position now
    | .readRecords token limit => endpoint.readRecords token limit now

end Endpoint

/-- Puts a question to an endpoint. Its caller waits as long as the plan and its patience allow. -/
def World.inquire (plan : Nat → RetryPlan) (request : Request) (world : World Endpoint) :
    Option (Settled request) × World Endpoint :=
  let cutoff := (plan world.calls.length).cutoff world.clock
  world.settle (Endpoint.service fun instant => instant ≤ cutoff) plan request

end ShardedStream
