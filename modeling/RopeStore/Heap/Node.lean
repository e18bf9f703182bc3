import RopeStore.SizeClass
import RopeStore.RefCount

/-!
# Nodes

A node is a reference count and a body. There are three kinds of body, told apart by the tag:

* a buffer holds its bytes itself, in an allocation whose size class is its tag;
* an external node stands for bytes that a `Keeper` owns and gets back in the end;
* a view stands for a part of another node.

A malformed body has a tag that names no kind. No operation makes one; it exists so that the answer
to one is defined.
-/

namespace RopeStore

/-- The identity of a node. Identities are never used twice. -/
structure NodeId where
  /-- The position of the node among all nodes that were ever made. -/
  index : Nat
  deriving DecidableEq, Repr

/-- Who owns the bytes of an external node, with `ρ` for the names of outside owners. -/
inductive Keeper (ρ : Type)
  /-- Nobody: the bytes stay for ever. -/
  | permanent
  /-- The node itself: it holds a copy. -/
  | copied
  /-- An outside owner, which is told when the node is gone. -/
  | lent (owner : ρ)
  deriving DecidableEq, Repr

/-- What a node stands for. -/
inductive Body (ρ : Type)
  | buffer (tag : UInt8) (bytes : List UInt8)
  | external (bytes : List UInt8) (keeper : Keeper ρ)
  /-- The `length` bytes of `child` from `start` on. -/
  | view (start length : Nat) (child : NodeId)
  /-- A length under a tag that names no kind. -/
  | malformed (tag : UInt8) (length : Nat)
  deriving DecidableEq, Repr

inductive NodeKind
  | buffer | external | view
  deriving DecidableEq, Repr

def NodeKind.name : NodeKind → String
  | .buffer => "Buffer"
  | .external => "External"
  | .view => "Range"

namespace Body
variable {ρ : Type}

def tag : Body ρ → UInt8
  | .buffer tag _ => tag
  | .external .. => SizeClass.externalTag
  | .view .. => SizeClass.viewTag
  | .malformed tag _ => tag

def length : Body ρ → Nat
  | .buffer _ bytes => bytes.length
  | .external bytes _ => bytes.length
  | .view _ length _ => length
  | .malformed _ length => length

def kind : Body ρ → Except Fault NodeKind
  | .buffer .. => .ok .buffer
  | .external .. => .ok .external
  | .view .. => .ok .view
  | .malformed tag _ => .error (.malformedTag tag)

/-- The payload that a buffer can hold; other kinds have no capacity. -/
def capacity : Body ρ → Except Fault (Option Nat)
  | .buffer tag _ => some <$> SizeClass.capacityFor tag
  | _ => .ok none

/-- The start and the child of a view. -/
def view? : Body ρ → Option (Nat × NodeId)
  | .view start _ child => some (start, child)
  | _ => none

end Body

/-- A node: how many refer to it, and what it stands for. -/
structure Node (ρ : Type) where
  refs : RefCount
  body : Body ρ
  deriving DecidableEq, Repr

/-- What a heap tells its owner, in the order in which it happened. -/
inductive Notice (ρ : Type)
  | freed (size : Nat)
  | returned (bytes : List UInt8) (keeper : Keeper ρ)
  | malformedTag (tag : UInt8)
  | viewOverView
  deriving DecidableEq, Repr

/-- The notice of a fault. Only the two faults that show a broken heap are worth one. -/
def Notice.ofFault? {ρ : Type} : Fault → Option (Notice ρ)
  | .malformedTag tag => some (.malformedTag tag)
  | .viewOverView => some .viewOverView
  | _ => none

end RopeStore
