/-!
# Ranges of characters

A class of characters, kept as closed ranges of their numbers.
-/

namespace RopeStore.Text

/-- Closed ranges of character numbers, each as its first and its last. -/
abbrev CharRanges := List (Nat × Nat)

def CharRanges.contains (ranges : CharRanges) (n : Nat) : Bool :=
  ranges.any fun range => range.1 ≤ n && n ≤ range.2

end RopeStore.Text
