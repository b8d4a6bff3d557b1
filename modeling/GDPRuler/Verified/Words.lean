import Mathlib.Data.List.DropRight
import GDPRuler.Verified.Delim

/-!
# Cutting at a word

A separator of several elements is looked for from the left, and what follows
it is taken apart in the same way.  The pieces of a list are then `splitWord`,
and `before` is the first of them.

A word that does not hold a mark is found on one side of the mark or on the
other, never across it.

## Main results

* `splitWord_zero`, `splitWord_one` — the first two pieces.
* `before_append_cons` — cutting a list with a mark in it.
* `before_mark`, `behind_mark` — a word of one element is a separator.
-/

namespace GDPRuler.Verified.Words

open Delim

variable {α : Type*} [DecidableEq α]

/-! ## Prefixes without a mark -/

omit [DecidableEq α] in
/-- A prefix without the mark ends in front of it. -/
theorem prefix_of_not_mem {c : α} {p a b : List α} (h : p <+: a ++ c :: b)
    (hNot : c ∉ p) : p <+: a := by
  rcases Nat.lt_or_ge a.length p.length with hLt | hGe
  · have hMark : a ++ [c] <+: p := by
      refine List.prefix_of_prefix_length_le ⟨b, by simp⟩ h ?_
      rw [List.length_append, List.length_singleton]
      omega
    exact absurd (hMark.subset (by simp)) hNot
  · exact List.prefix_of_prefix_length_le h (List.prefix_append a _) hGe

omit [DecidableEq α] in
/-- Two lists that agree, and agree on where the mark stands first. -/
theorem prefix_of_append_cons {c : α} {a a' b b' : List α} (hA : c ∉ a)
    (hA' : c ∉ a') (h : a ++ c :: b <+: a' ++ c :: b') : a = a' ∧ b <+: b' := by
  have hLeft : a <+: a' :=
    prefix_of_not_mem ((List.prefix_append a (c :: b)).trans h) hA
  obtain ⟨more, rfl⟩ := hLeft
  cases more with
  | nil =>
      rw [List.append_nil, List.prefix_append_right_inj, List.cons_prefix_cons] at h
      exact ⟨(List.append_nil a).symm, h.2⟩
  | cons x more =>
      rw [List.append_assoc, List.prefix_append_right_inj, List.cons_append,
        List.cons_prefix_cons] at h
      exact absurd (h.1 ▸ by simp) hA'

omit [DecidableEq α] in
theorem dropLast_isPrefix_dropLast {a b : List α} (h : a <+: b) :
    a.dropLast <+: b.dropLast := by
  refine List.prefix_of_prefix_length_le ((List.dropLast_prefix a).trans h)
    (List.dropLast_prefix b) ?_
  have hLength := h.length_le
  simp only [List.length_dropLast]
  omega

/-! ## Cutting -/

/-- `s` up to the first `w`, and what follows that `w`. -/
def cutWord (w : List α) : List α → Option (List α × List α)
  | [] => none
  | x :: xs =>
      if w.isPrefixOf (x :: xs) then some ([], (x :: xs).drop w.length)
      else (cutWord w xs).map fun parts => (x :: parts.1, parts.2)

/-- What stands in front of the first `w`. -/
def before (w s : List α) : List α := (cutWord w s).elim s Prod.fst

/-- What stands behind the first `w`. -/
def behind (w s : List α) : Option (List α) := (cutWord w s).map Prod.snd

theorem cutWord_eq_some {w s p rest : List α}
    (h : cutWord w s = some (p, rest)) : s = p ++ (w ++ rest) := by
  induction s generalizing p with
  | nil => simp [cutWord] at h
  | cons x xs ih =>
      by_cases hWord : w <+: x :: xs
      · obtain ⟨tail, hTail⟩ := hWord
        rw [cutWord, if_pos (by simp [← hTail]), ← hTail, List.drop_left] at h
        simp only [Option.some.injEq, Prod.mk.injEq] at h
        obtain ⟨rfl, rfl⟩ := h
        exact hTail.symm
      · rw [cutWord, if_neg (by simpa using hWord), Option.map_eq_some_iff] at h
        obtain ⟨⟨q, tail⟩, hCut, hEq⟩ := h
        obtain ⟨rfl, rfl⟩ := Prod.mk.injEq .. ▸ hEq
        rw [ih hCut]
        rfl

theorem before_cons (w : List α) (x : α) (xs : List α) :
    before w (x :: xs) =
      if w <+: x :: xs then [] else x :: before w xs := by
  unfold before
  rw [cutWord]
  simp only [List.isPrefixOf_iff_prefix]
  by_cases hWord : w <+: x :: xs
  · simp only [if_pos hWord, Option.elim_some]
  · simp only [if_neg hWord]
    cases cutWord w xs <;> rfl

/-- The word is cut off the front at once. -/
theorem behind_append {w : List α} (hNe : w ≠ []) (s : List α) :
    behind w (w ++ s) = some s := by
  cases w with
  | nil => exact absurd rfl hNe
  | cons x w =>
      have hWord : (x :: w).isPrefixOf (x :: (w ++ s)) := by simp
      rw [List.cons_append, behind, cutWord, if_pos hWord]
      simp

theorem before_isPrefix (w s : List α) : before w s <+: s := by
  induction s with
  | nil => exact List.prefix_refl []
  | cons x xs ih =>
      rw [before_cons]
      split
      · exact List.nil_prefix
      · exact List.cons_prefix_cons.mpr ⟨rfl, ih⟩

theorem length_before_lt {w s : List α} (hNe : w ≠ []) (h : w <:+: s) :
    (before w s).length < s.length := by
  induction s with
  | nil => exact absurd (List.infix_nil.mp h) hNe
  | cons x xs ih =>
      rw [before_cons]
      split
      · exact Nat.succ_pos _
      case isFalse hWord =>
        have hTail := (List.infix_cons_iff.mp h).resolve_left hWord
        exact Nat.succ_lt_succ (ih hTail)

/-! ## Marks -/

section Mark

variable {w : List α} {c : α} (hNe : w ≠ []) (hMark : c ∉ w)
include hMark

omit [DecidableEq α] in
/-- A word that begins a list with a mark in it begins what stands in front of
the mark. -/
theorem prefix_append_cons_iff {a b : List α} :
    w <+: a ++ c :: b ↔ w <+: a :=
  ⟨fun h => prefix_of_not_mem h hMark,
    fun h => h.trans (List.prefix_append a _)⟩

include hNe

/-- A word in front of the mark is found there. -/
theorem before_append_cons_of_found {a : List α} (b : List α) (h : w <:+: a) :
    before w (a ++ c :: b) = before w a := by
  induction a with
  | nil => exact absurd (List.infix_nil.mp h) hNe
  | cons x xs ih =>
      have hFront := prefix_append_cons_iff hMark (a := x :: xs) (b := b)
      rw [List.cons_append] at hFront ⊢
      rw [before_cons, before_cons]
      by_cases hWord : w <+: x :: xs
      · rw [if_pos hWord, if_pos (hFront.mpr hWord)]
      · have hTail := (List.infix_cons_iff.mp h).resolve_left hWord
        rw [if_neg hWord, if_neg fun hLong => hWord (hFront.mp hLong), ih hTail]

/-- A word that is not in front of the mark is looked for behind it. -/
theorem before_append_cons {a : List α} (b : List α) (h : ¬ w <:+: a) :
    before w (a ++ c :: b) = a ++ c :: before w b := by
  induction a with
  | nil =>
      have hFront := prefix_append_cons_iff hMark (a := []) (b := b)
      have hNot : ¬ w <+: c :: b := fun hWord =>
        hNe (List.prefix_nil.mp (hFront.mp hWord))
      rw [List.nil_append, before_cons, if_neg hNot, List.nil_append]
  | cons x xs ih =>
      have hFront := prefix_append_cons_iff hMark (a := x :: xs) (b := b)
      rw [List.infix_cons_iff, not_or] at h
      have hNot : ¬ w <+: x :: (xs ++ c :: b) := fun hWord =>
        h.1 (hFront.mp hWord)
      rw [List.cons_append, before_cons, if_neg hNot, ih h.2, List.cons_append]

end Mark

/-! ## Pieces -/

/-- What stands between the words, in at most `n` cuts. -/
def splitWord (w : List α) : Nat → List α → List (List α)
  | 0, s => [s]
  | n + 1, s =>
      match cutWord w s with
      | none => [s]
      | some (piece, rest) => piece :: splitWord w n rest

theorem splitWord_zero {w s : List α} {n : Nat} (h : s.length ≤ n) :
    (splitWord w n s)[0]? = some (before w s) := by
  cases n with
  | zero =>
      obtain rfl : s = [] := List.eq_nil_of_length_eq_zero (by omega)
      rfl
  | succ n =>
      rw [splitWord, before]
      cases cutWord w s <;> rfl

theorem splitWord_one {w s : List α} (hNe : w ≠ []) {n : Nat}
    (h : s.length ≤ n) :
    (splitWord w n s)[1]? = (behind w s).map (before w) := by
  cases n with
  | zero =>
      obtain rfl : s = [] := List.eq_nil_of_length_eq_zero (by omega)
      rfl
  | succ n =>
      rw [splitWord, behind]
      cases hCut : cutWord w s with
      | none => rfl
      | some parts =>
          have hLength := congrArg List.length (cutWord_eq_some hCut)
          have hWord := List.length_pos_iff.mpr hNe
          rw [List.length_append, List.length_append] at hLength
          show (splitWord w n parts.2)[0]? = _
          rw [splitWord_zero (by omega)]
          rfl

/-! ## Words of one element -/

theorem cutWord_singleton (c : α) (s : List α) : cutWord [c] s = cut c s := by
  induction s with
  | nil => rfl
  | cons x xs ih =>
      have hWord : ([c].isPrefixOf (x :: xs) = true) = (x = c) :=
        propext (by simpa using eq_comm)
      simp only [cutWord, cut, hWord, ih, List.length_singleton, List.drop_one,
        List.tail_cons]

theorem before_mark {c : α} {a : List α} (h : c ∉ a) (b : List α) :
    before [c] (a ++ c :: b) = a := by
  rw [before, cutWord_singleton, cut_append h]
  rfl

theorem behind_mark {c : α} {a : List α} (h : c ∉ a) (b : List α) :
    behind [c] (a ++ c :: b) = some b := by
  rw [behind, cutWord_singleton, cut_append h]
  rfl

theorem before_of_not_mem {c : α} {s : List α} (h : c ∉ s) :
    before [c] s = s := by
  rw [before, cutWord_singleton, cut_eq_none_iff.mpr h]
  rfl

theorem splitWord_of_not_mem {c : α} {s : List α} (h : c ∉ s) (n : Nat) :
    splitWord [c] n s = [s] := by
  cases n with
  | zero => rfl
  | succ n => rw [splitWord, cutWord_singleton, cut_eq_none_iff.mpr h]

theorem not_mem_before (c : α) (s : List α) : c ∉ before [c] s := by
  rw [before, cutWord_singleton]
  cases hCut : cut c s with
  | none => exact cut_eq_none_iff.mp hCut
  | some parts => exact (cut_eq_some_iff.mp hCut).2

/-- What is behind a mark, with what is in front of it. -/
theorem behind_singleton_eq_some {c : α} {s rest : List α}
    (h : behind [c] s = some rest) : s = before [c] s ++ c :: rest := by
  rw [behind, cutWord_singleton, Option.map_eq_some_iff] at h
  obtain ⟨⟨field, tail⟩, hCut, rfl⟩ := h
  rw [before, cutWord_singleton, hCut]
  exact (cut_eq_some_iff.mp hCut).1

/-- A prefix without the mark is in front of it. -/
theorem prefix_before {c : α} {p s : List α} (h : p <+: s) (hNot : c ∉ p) :
    p <+: before [c] s := by
  by_cases hMark : c ∈ s
  · obtain ⟨a, b, rfl, hA⟩ := List.eq_append_cons_of_mem hMark
    rw [before_mark hA]
    exact prefix_of_not_mem h hNot
  · rwa [before_of_not_mem hMark]

end GDPRuler.Verified.Words
