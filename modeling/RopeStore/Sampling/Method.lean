/-!
# Methods

The operations that make or change a value, as far as samples tell them apart.
-/

namespace RopeStore.Sampling

inductive Method
  | unknown
  | appendBytes
  | appendExternal
  | assignBytes
  | clear
  | constructorBytes
  | constructorTree
  | makeFromExternal
  | removeFront
  | removeBack
  | subRange
  deriving DecidableEq, Repr

namespace Method

/-- All methods, in the order of their counters. -/
def all : List Method :=
  [.unknown, .appendBytes, .appendExternal, .assignBytes, .clear, .constructorBytes,
    .constructorTree, .makeFromExternal, .removeFront, .removeBack, .subRange]

def index : Method → Fin 11
  | .unknown => 0
  | .appendBytes => 1
  | .appendExternal => 2
  | .assignBytes => 3
  | .clear => 4
  | .constructorBytes => 5
  | .constructorTree => 6
  | .makeFromExternal => 7
  | .removeFront => 8
  | .removeBack => 9
  | .subRange => 10

def name : Method → String
  | .unknown => "Unknown"
  | .appendBytes => "AppendBytes"
  | .appendExternal => "AppendExternal"
  | .assignBytes => "AssignBytes"
  | .clear => "Clear"
  | .constructorBytes => "ConstructorBytes"
  | .constructorTree => "ConstructorTree"
  | .makeFromExternal => "MakeFromExternal"
  | .removeFront => "RemovePrefix"
  | .removeBack => "RemoveSuffix"
  | .subRange => "SubRange"

def ofName? (text : String) : Option Method := all.find? (·.name == text)

end Method
end RopeStore.Sampling
