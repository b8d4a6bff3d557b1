import Mathlib.Data.Set.Basic
import Mathlib.Order.Disjoint
import Mathlib.Data.Set.Disjoint
import Mathlib.Data.Set.BooleanAlgebra
import Mathlib.Order.CompletePartialOrder

/-!
# Bit vectors as sets

A fixed-width bit vector used as a set of small numbers: bit `i` is set iff
`i` is a member.  The two tests programs make with masks,
`x & m == m` and `x & m == 0`, are inclusion and disjointness.
-/

namespace GDPRuler.Verified.BitSet

variable {w : Nat}

/-- The positions of the set bits. -/
def bitSet (x : BitVec w) : Set Nat := {i | x.getLsbD i = true}

@[simp] theorem mem_bitSet {x : BitVec w} {i : Nat} :
    i ∈ bitSet x ↔ x.getLsbD i = true := Iff.rfl

/-- `x & m == m` asks whether `m` is included in `x`. -/
theorem and_eq_right_iff {x m : BitVec w} :
    x &&& m = m ↔ bitSet m ⊆ bitSet x := by
  constructor
  · intro h i hi
    have hBit : (x &&& m).getLsbD i = true := by rw [h]; exact hi
    rw [BitVec.getLsbD_and, Bool.and_eq_true] at hBit
    exact hBit.1
  · intro h
    apply BitVec.eq_of_getLsbD_eq
    intro i _
    rw [BitVec.getLsbD_and]
    cases hm : m.getLsbD i with
    | false => simp
    | true =>
        have hx : x.getLsbD i = true := h hm
        simp [hx]

/-- `x & m == 0` asks whether `x` and `m` have no member in common. -/
theorem and_eq_zero_iff {x m : BitVec w} :
    x &&& m = 0#w ↔ Disjoint (bitSet m) (bitSet x) := by
  rw [Set.disjoint_left]
  constructor
  · intro h i hm hx
    have hBit : (x &&& m).getLsbD i = false := by rw [h]; simp
    rw [mem_bitSet] at hm hx
    rw [BitVec.getLsbD_and, hm, hx] at hBit
    cases hBit
  · intro h
    apply BitVec.eq_of_getLsbD_eq
    intro i _
    rw [BitVec.getLsbD_and, BitVec.getLsbD_zero]
    cases hm : m.getLsbD i with
    | false => simp
    | true =>
        have hx : ¬ x.getLsbD i = true := h hm
        simpa using hx

end GDPRuler.Verified.BitSet
