import RopeStore.Sampling.Method

/-!
# Steps

A bench keeps objects by name and performs a script of steps on them. A step is an action and the
names of the objects whose state is noted after it, its focus.

Objects that are destroyed can have steps of their own, which are performed in the middle of the
operation that destroys them. All these lists of steps are the blocks of a script, and an action
refers to a block by its number.
-/

namespace RopeStore.Bench

/-- Bytes that a step uses. -/
inductive Data
  | bytes (bytes : List UInt8)
  | ofNode (name : String)

/-- A node that is passed to an operation as a root. -/
structure RootArg where
  name : String
  /-- Whether the node leaves the nodes; otherwise a reference of its own is passed. -/
  move : Bool

inductive NodeAction
  | buffer (name : String) (length : Nat)
  | largeBuffer (name : String) (length : Nat)
  | copy (name : String) (data : Data)
  | copyWithExtra (name : String) (data : Data) (extra : Nat)
  | ofOwner (name : String) (data : Data) (block : Option Nat)
  | ofExternal (name : String) (data : Data) (withBytes : Bool) (block : Option Nat)
  | ofStatic (name : String) (data : Data)
  | empty (name : String)
  | part (name source : String) (pos count : Nat)
  | partOrCopy (name source : String) (pos count : Nat)
  | clone (name source : String)
  | child (name source : String)
  | append (name : String) (data : Data)
  | same (name other : String)
  | drop (name : String)
  | intoRaw (name raw : String)
  | ofRaw (name raw : String)
  | forge (name : String) (tag : UInt8) (length : Nat)
  | forgeView (name : String) (child : RootArg) (start length : Nat)

inductive ValueAction
  | new (name : String)
  | ofShort (name : String) (data : Data)
  | ofTree (name : String) (root : RootArg)
  | copy (name : String) (data : Data)
  | clone (name source : String)
  | drop (name : String)
  | setBytes (name : String) (data : Data)
  | writeAt (name : String) (start : Nat) (data : Data)
  | payload (name : String)
  | setSize (name : String) (size : Nat)
  | makeTree (name : String) (root : RootArg)
  | setRoot (name : String) (root : RootArg) (keep : Option String)
  | takeRoot (name : String) (keep : Option String)
  | clear (name : String)
  | size (name : String)
  | paddedBytes (name : String)
  | compare (name other : String)
  | same (name other : String)
  | isSampled (name : String)
  | isEitherSampled (name other : String)
  | sample (name : String)
  | setSample (name : String) (record : Option String)
  | clearSample (name : String)
  | update (name : String) (method : Sampling.Method) (size : Nat)
  | track (name : String) (method : Sampling.Method) (handle queue : String)
  | untrack (name handle : String)

inductive SampleAction
  | newRecord (name : String) (method : Sampling.Method)
  | update (name : String) (method : Sampling.Method) (size : Nat)
  | addToRecord (name : String) (method : Sampling.Method) (amount : Int)
  | dropRecord (name : String)
  | newTracker (name : String)
  | add (name : String) (method : Sampling.Method) (amount : Int)
  | addTracker (name source : String)
  | addRecord (name record : String)
  | value (name : String) (method : Sampling.Method)

/-- What a new handle owns. -/
inductive PayloadSpec
  /-- Something that is named when it is destroyed and may have steps of its own. -/
  | probe (block : Option Nat)
  | other
  | number (value : Nat)
  | text (value : String)
  | sample (method : Sampling.Method)

inductive PayloadType
  | probe | other | number | text | sample
  deriving DecidableEq, Repr

inductive DeferralAction
  | newSnapshot (name queue : String)
  | dropSnapshot (name : String)
  | forgetSnapshot (name : String)
  | newHandle (name queue : String) (payload : PayloadSpec)
  | delete (name : String)
  | isSafeToDelete (name : String)
  | value (name : String)
  | describeHandle (name : String)
  | isSafeToInspect (snapshot : String) (target : Option String)
  | safeHandles (snapshot : String)
  | inspect (snapshot : String) (type : PayloadType)
  | describeSnapshot (name : String)
  | describeQueue (queue : String)

inductive Action
  | look
  | node (action : NodeAction)
  | value (action : ValueAction)
  | sample (action : SampleAction)
  | deferral (action : DeferralAction)
  | unknown

/-- The names of the objects whose state is noted after a step. -/
structure Focus where
  node : Option String
  value : Option String
  record : Option String
  tracker : Option String
  snapshot : Option String
  handle : Option String
  queue : Option String

structure Step where
  focus : Focus
  action : Action

inductive QueueKind
  | checking
  | blocking
  /-- The queue of the whole process, which has a blocking lock and never goes away. -/
  | shared
  deriving DecidableEq, Repr

structure Script where
  queues : List (String × QueueKind)
  blocks : Array (List Step)
  steps : List Step

end RopeStore.Bench
