import ShardedStream.Script
import ShardedStream.Stored
import ShardedStream.Client.Endpoint
import ShardedStream.Proofs.Lineage.Descent
import ShardedStream.Proofs.Assignments.Cover
import ShardedStream.Proofs.Lineage.Tips
import ShardedStream.Proofs.Assignments.Cut
import ShardedStream.Proofs.Reader.Index
import ShardedStream.Proofs.Reader.Apply
import ShardedStream.Proofs.World.Settle
import ShardedStream.Proofs.Reader.Step
import ShardedStream.Proofs.Session.Turn
import ShardedStream.Proofs.Session.Life
import ShardedStream.Proofs.Reader.Succession
import ShardedStream.Proofs.Reader.Unfold
import ShardedStream.Proofs.Session.Unfold
import ShardedStream.Proofs.Session.Resumption
import ShardedStream.Proofs.Assignments.Agree
import ShardedStream.Proofs.Session.Log
import ShardedStream.Proofs.Session.Contiguous
import ShardedStream.Proofs.Assignments.Order
import ShardedStream.Proofs.Lineage.Growth
import ShardedStream.Proofs.Reader.Ancestry
import ShardedStream.Proofs.Session.Ancestry
import ShardedStream.Proofs.Script.Passes
import ShardedStream.Proofs.Session.Failure
import ShardedStream.Proofs.Session.Tip
import ShardedStream.Proofs.Session.Watched
import ShardedStream.Proofs.Session.Frozen
import ShardedStream.Proofs.Script.Isolation
import ShardedStream.Proofs.Assignments.Meaning
import ShardedStream.Proofs.Assignments.Ending
import ShardedStream.Proofs.Retry.Budget
import ShardedStream.Proofs.Retry.Interruption
import ShardedStream.Proofs.Client.Description
import ShardedStream.Proofs.Session.Prune
import ShardedStream.Proofs.Session.Abort
import ShardedStream.Proofs.Script.Sweep
import ShardedStream.Proofs.Reader.Commute
import ShardedStream.Proofs.Session.Consume
import ShardedStream.Proofs.Json.Text
import ShardedStream.Proofs.Json.Document
import ShardedStream.Proofs.Stored
import ShardedStream.Proofs.Monitor.Log
import ShardedStream.Proofs.Reader.Tell
import ShardedStream.Proofs.Reader.Story
import ShardedStream.Proofs.Session.Chronicle
import ShardedStream.Proofs.Lineage.Search
import ShardedStream.Proofs.Assignments.WellFormed
import ShardedStream.Proofs.Session.Index
import ShardedStream.Proofs.Session.Buffer
import ShardedStream.Proofs.Lineage.Listing
import ShardedStream.Proofs.Script.Rehearsal
