import Mathlib.Algebra.Group.Nat.Defs
import Mathlib.Data.List.Basic
import Mathlib.Data.Nat.Basic

/-!
# Decimal text over bytes

Numbers are stored as decimal text and read back with the C conversions:
leading white space is skipped, one sign is accepted, and the longest run of
digits is taken.  This module fixes the two directions over byte lists,
`digits` / `intText` for writing and `readInt` for reading, and proves that
reading undoes writing.

Core's `Nat.toDigits` does the digit generation and its
`Nat.ofDigitChars_ten_toDigits` carries the arithmetic; what is added here is
the byte alphabet, the sign and the white space.
-/

namespace GDPRuler.Verified.Decimal

/-- An ASCII decimal digit. -/
def isDigit (b : UInt8) : Bool := 48 ≤ b.toNat && b.toNat ≤ 57

/-- The characters `isspace` accepts in the C locale. -/
def isSpace (b : UInt8) : Bool := b.toNat == 32 || (9 ≤ b.toNat && b.toNat ≤ 13)

/-! ## Writing -/

/-- Decimal text of a natural number. -/
def digits (n : Nat) : List UInt8 := (Nat.toDigits 10 n).map Char.toUInt8

/-- Decimal text of an integer, with a leading minus sign when negative. -/
def intText (z : Int) : List UInt8 :=
  if z < 0 then 45 :: digits z.natAbs else digits z.natAbs

/-- A number below a power of ten has at most that many digits. -/
theorem length_digits_le {n k : Nat} (hk : 0 < k) (h : n < 10 ^ k) :
    (digits n).length ≤ k := by
  rw [digits, List.length_map]
  exact (Nat.length_toDigits_le_iff (by decide) hk).mpr h

/-! ## Reading -/

/-- The number a run of digits denotes. -/
def value (s : List UInt8) : Nat :=
  s.foldl (fun acc b => 10 * acc + (b.toNat - 48)) 0

/-- The longest digit run at the front of `s`; no digit is no conversion. -/
def readDigits (s : List UInt8) : Option Nat :=
  if s.takeWhile isDigit = [] then none else some (value (s.takeWhile isDigit))

/-- The sign (`true` for minus) and magnitude `strtoll` and its siblings
read at the front of `s`. -/
def readInt (s : List UInt8) : Option (Bool × Nat) :=
  match s.dropWhile isSpace with
  | 45 :: rest => (readDigits rest).map fun n => (true, n)
  | 43 :: rest => (readDigits rest).map fun n => (false, n)
  | rest => (readDigits rest).map fun n => (false, n)

/-! ## Digit bytes -/

private theorem digitChar_toNat {c : Char} {n : Nat}
    (h : c ∈ Nat.toDigits 10 n) : 48 ≤ c.toNat ∧ c.toNat ≤ 57 := by
  have hDigit := Nat.isDigit_of_mem_toDigits (by decide) (by decide) h
  simp only [Char.isDigit, Bool.and_eq_true, decide_eq_true_eq] at hDigit
  exact ⟨hDigit.1, hDigit.2⟩

private theorem toUInt8_toNat {c : Char} {n : Nat}
    (h : c ∈ Nat.toDigits 10 n) : c.toUInt8.toNat = c.toNat := by
  have hBound := digitChar_toNat h
  have hMod : c.toUInt8.toNat = c.toNat % 256 := UInt8.toNat_ofNat'
  rw [hMod, Nat.mod_eq_of_lt (by omega)]

theorem isDigit_of_mem_digits {b : UInt8} {n : Nat} (h : b ∈ digits n) :
    isDigit b = true := by
  obtain ⟨c, hc, rfl⟩ := List.mem_map.mp h
  have hBound := digitChar_toNat hc
  simp [isDigit, toUInt8_toNat hc, hBound]

/-- A byte that is no digit does not occur in decimal text. -/
theorem not_mem_digits {b : UInt8} (h : isDigit b = false) (n : Nat) :
    b ∉ digits n := by
  intro hMem
  rw [isDigit_of_mem_digits hMem] at h
  cases h

theorem digits_ne_nil (n : Nat) : digits n ≠ [] := by
  simp [digits, Nat.toDigits_ne_nil]

theorem value_digits (n : Nat) : value (digits n) = n := by
  have hFold : ∀ (cs : List Char) (acc : Nat),
      (∀ c ∈ cs, c.toUInt8.toNat = c.toNat) →
      (cs.map Char.toUInt8).foldl
          (fun acc b => 10 * acc + (b.toNat - 48)) acc =
        Nat.ofDigitChars 10 cs acc := by
    intro cs
    induction cs with
    | nil =>
        intro acc _
        simp
    | cons c cs ih =>
        intro acc hBytes
        have hc : c.toUInt8.toNat = c.toNat := hBytes c (by simp)
        rw [List.map_cons, List.foldl_cons, hc, Nat.ofDigitChars_cons]
        exact ih _ fun d hd => hBytes d (by simp [hd])
  rw [value, digits, hFold _ _ fun c hc => toUInt8_toNat hc]
  exact Nat.ofDigitChars_ten_toDigits

theorem digits_injective {m n : Nat} (h : digits m = digits n) : m = n := by
  rw [← value_digits m, ← value_digits n, h]

/-! ## Reading undoes writing -/

private theorem takeWhile_of_forall {s : List UInt8}
    (hDigits : ∀ b ∈ s, isDigit b = true) : s.takeWhile isDigit = s := by
  have hAll : (s ++ []).takeWhile isDigit = s ++ [].takeWhile isDigit :=
    List.takeWhile_append_of_pos hDigits
  simpa using hAll

theorem readDigits_of_forall {s : List UInt8} (hNe : s ≠ [])
    (hDigits : ∀ b ∈ s, isDigit b = true) : readDigits s = some (value s) := by
  rw [readDigits, takeWhile_of_forall hDigits, if_neg hNe]

@[simp] theorem readDigits_digits (n : Nat) : readDigits (digits n) = some n := by
  rw [readDigits_of_forall (digits_ne_nil n) fun b hb => isDigit_of_mem_digits hb,
    value_digits]

theorem isDigit_head_ne {b : UInt8} (h : isDigit b = true) :
    isSpace b = false ∧ b ≠ 45 ∧ b ≠ 43 := by
  simp only [isDigit, Bool.and_eq_true, decide_eq_true_eq] at h
  refine ⟨?_, ?_, ?_⟩
  · simp only [isSpace, Bool.or_eq_false_iff, beq_eq_false_iff_ne,
      Bool.and_eq_false_iff, decide_eq_false_iff_not]
    omega
  · rintro rfl
    exact absurd h (by decide)
  · rintro rfl
    exact absurd h (by decide)

/-- Digits without a sign. -/
theorem readInt_of_forall {s : List UInt8} (hNe : s ≠ [])
    (hDigits : ∀ b ∈ s, isDigit b = true) :
    readInt s = some (false, value s) := by
  have hRead := readDigits_of_forall hNe hDigits
  cases s with
  | nil => exact absurd rfl hNe
  | cons b rest =>
      obtain ⟨hSpace, hMinus, hPlus⟩ := isDigit_head_ne (hDigits b (by simp))
      simp only [readInt, List.dropWhile_cons, hSpace]
      split
      · rename_i h
        exact absurd (List.cons.inj h).1 hMinus
      · rename_i h
        exact absurd (List.cons.inj h).1 hPlus
      · simp [hRead]

/-- Digits behind a minus sign. -/
theorem readInt_minus {s : List UInt8} (hNe : s ≠ [])
    (hDigits : ∀ b ∈ s, isDigit b = true) :
    readInt (45 :: s) = some (true, value s) := by
  have hSpace : isSpace 45 = false := by decide
  simp [readInt, hSpace, readDigits_of_forall hNe hDigits]

@[simp] theorem readInt_digits (n : Nat) :
    readInt (digits n) = some (false, n) := by
  rw [readInt_of_forall (digits_ne_nil n) fun b hb => isDigit_of_mem_digits hb,
    value_digits]

@[simp] theorem readInt_intText (z : Int) :
    readInt (intText z) = some (decide (z < 0), z.natAbs) := by
  by_cases hz : z < 0
  · have hSpace : isSpace 45 = false := by decide
    simp [intText, hz, readInt, hSpace]
  · simp [intText, hz]

theorem not_mem_intText {b : UInt8} (hDigit : isDigit b = false)
    (hMinus : b ≠ 45) (z : Int) : b ∉ intText z := by
  unfold intText
  split
  · simp [hMinus, not_mem_digits hDigit]
  · exact not_mem_digits hDigit _

end GDPRuler.Verified.Decimal
