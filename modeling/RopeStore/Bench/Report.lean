import RopeStore.Deferral.Chain
import RopeStore.Heap.Node
import RopeStore.Sampling.Record

/-!
# Reports

* `Complaint` : why a step had no answer;
* `Answer` : what a step answered;
* `NodeView`, `ValueView`, `QueueView` : what can be seen of an object, and `Look`, all that is seen
  after a step;
* `Event` : what happened while something was destroyed or logged;
* `Report` : outcome, events and look of one step.
-/

namespace RopeStore.Bench

/-- Why a step had no answer. -/
inductive Complaint
  | fault (cause : Fault)
  | missing (sort name : String)
  | unknownStep
  | notRecordHandle
  | danglingSample

/-- The wording of a complaint that is not a fault. -/
def Complaint.message : Complaint → String
  | .fault cause => cause.message
  | .missing sort name => "no " ++ sort ++ " " ++ name
  | .unknownStep => "unknown step"
  | .notRecordHandle => "not a record handle"
  | .danglingSample => "dangling sample"

inductive PayloadView
  | name (name : String)
  | number (value : Nat)
  | text (value : String)
  | record (record : Sampling.Record)

inductive Answer
  | nothing
  | flag (value : Bool)
  | number (value : Nat)
  | count (value : Int)
  | text (value : String)
  | bytes (value : List UInt8)
  | order (value : Ordering)
  | names (value : List String)
  | payload (value : PayloadView)
  | payloads (value : List PayloadView)

structure ViewView where
  start : Nat
  length : Nat
  child : List String

structure NodeView where
  kind : Except Fault NodeKind
  tag : UInt8
  length : Nat
  refs : RefCount
  capacity : Option Nat
  view : Option ViewView
  bytes : Except Fault (List UInt8)
  text : Except Fault String

structure TreeView where
  root : List String
  rootRefs : Nat
  sampled : Bool
  sample : Option String

structure ValueView where
  isTree : Bool
  length : Nat
  short : Option (List UInt8)
  tree : Option TreeView
  bytes : Except Fault (List UInt8)
  text : Except Fault String

structure QueueView where
  isEmpty : Bool
  stats : Deferral.Stats
  entries : List String

structure Look where
  node : Option NodeView
  value : Option ValueView
  record : Option Sampling.Record
  tracker : Option Sampling.Tracker
  queue : Option QueueView

/-- One step as it went, with `ε` for the events. -/
structure ReportOf (ε : Type) where
  outcome : Except Complaint Answer
  events : List ε
  look : Look

inductive Event
  | logged (line : String)
  | released (name : String) (bytes : Option (List UInt8))
  | ownerDropped (name : String)
  | payloadDropped (name : String)
  | nested (name : String) (reports : List (ReportOf Event))
  | stopped (complaint : Complaint)

abbrev Report := ReportOf Event

inductive QueueEnd
  | stays
  | dropped
  | stopped (fault : Fault)

structure Outcome where
  reports : List Report
  leftovers : List Event
  queues : List (String × QueueView × QueueEnd)

end RopeStore.Bench
