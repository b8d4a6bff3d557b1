import Mathlib.Algebra.Order.BigOperators.Group.Finset
import GDPRuler.Verified.Transition

/-!
# Steps that are paid for

A system that works at several places at once comes to an end if each place has
a budget and every step is paid for at the place where it is made: a run has no
more steps than there was to spend at its start.
-/

namespace GDPRuler.Verified.Transition

universe u v

variable {State : Type u} {Act : Type v}

/-- Less at one place is less in all. -/
theorem sum_update_lt {places i k : Nat} {left : Nat → Nat} (hi : i < places)
    (hk : k < left i) :
    ∑ j ∈ Finset.range places, Function.update left i k j <
      ∑ j ∈ Finset.range places, left j := by
  refine Finset.sum_lt_sum (fun j _ => ?_) ⟨i, Finset.mem_range.mpr hi, ?_⟩
  · by_cases hj : j = i
    · subst hj
      rw [Function.update_self]
      exact hk.le
    · rw [Function.update_of_ne hj]
  · rw [Function.update_self]
    exact hk

/-- **The budget rule.** `Left s i k` says that `k` is enough for what is left to
do at place `i` in state `s`. -/
theorem length_le_of_pays {step : State → Act → Option State}
    (place : Act → Nat) (Inv : State → Prop) (Left : State → Nat → Nat → Prop)
    (hStep : ∀ s a s', Inv s → step s a = some s' → Inv s' ∧
      (∀ i k, i ≠ place a → Left s i k → Left s' i k) ∧
      ∀ k, Left s (place a) k → ∃ k' < k, Left s' (place a) k')
    {s s' : State} (hInit : Inv s) {left : Nat → Nat}
    (hLeft : ∀ i, Left s i (left i)) {acts : List Act}
    (hRun : run step acts s = some s') {places : Nat}
    (hHere : ∀ a ∈ acts, place a < places) :
    acts.length ≤ ∑ i ∈ Finset.range places, left i := by
  induction acts generalizing s left with
  | nil => exact Nat.zero_le _
  | cons a acts ih =>
      rw [run_cons] at hRun
      obtain ⟨next, hNext, hRest⟩ := Option.bind_eq_some_iff.mp hRun
      obtain ⟨hInv, hOthers, hPaid⟩ := hStep s a next hInit hNext
      obtain ⟨hPlace, hLater⟩ := List.forall_mem_cons.mp hHere
      obtain ⟨k, hk, hEnough⟩ := hPaid _ (hLeft (place a))
      have hLeft' : ∀ i, Left next i (Function.update left (place a) k i) := by
        intro i
        by_cases hi : i = place a
        · subst hi
          rw [Function.update_self]
          exact hEnough
        · rw [Function.update_of_ne hi]
          exact hOthers i _ hi (hLeft i)
      have hLess := sum_update_lt hPlace hk
      have hAll := ih hInv hLeft' hRest hLater
      rw [List.length_cons]
      omega

end GDPRuler.Verified.Transition
