import Mathlib.Algebra.Group.Nat.Defs
import Mathlib.Algebra.Group.Int.Defs
import GDPRuler.Verified.Decimal

/-!
# Strings and conversions of the C++ library

The controller works on `std::string` and `std::string_view`: sequences of
8-bit characters, modelled by lists of `UInt8`.  Positions are `size_t`, so a
search that fails answers `npos = 2^64 - 1`, and the parser's arithmetic on
positions wraps around; both are kept here, because the parser relies on
them.

The conversions `stoi`, `stoll`, `stoull` follow the C functions they wrap:
leading white space, an optional sign, the longest digit run, trailing text
ignored, and an exception for no digits or a value out of range.

Integers that are written to files and sockets as they lie in memory are
little-endian byte strings (`memoryBytes`).
-/

namespace GDPRuler.Controller

open GDPRuler.Verified.Decimal

/-- A `std::string` or `std::string_view`: its characters as bytes. -/
abbrev Str := List UInt8

/-- The bytes of a string literal. -/
def lit (s : String) : Str := s.toList.map Char.toUInt8

/-- The exceptions the controller's code can raise, with their text. -/
inductive Exn
  | invalidArgument (what : Str)
  | outOfRange (what : Str)
  | runtimeError (what : Str)
  deriving DecidableEq

/-! ## Characters -/

/-- `'|'`, the separator of the fields of a stored record. -/
def bar : UInt8 := 124

/-- `','`, the separator of lists and of log entries. -/
def comma : UInt8 := 44

/-- `std::tolower` in the C locale. -/
def toLower (b : UInt8) : UInt8 :=
  if 65 ≤ b.toNat ∧ b.toNat ≤ 90 then b + 32 else b

/-! ## Positions -/

/-- `std::string::npos`. -/
def npos : Nat := 2 ^ 64 - 1

/-- `size_t` addition. -/
def sizeAdd (a b : Nat) : Nat := (a + b) % 2 ^ 64

/-- `size_t` subtraction. -/
def sizeSub (a b : Nat) : Nat := (a + 2 ^ 64 - b) % 2 ^ 64

/-- `s.find(c, pos)`. -/
def find (c : UInt8) (s : Str) (pos : Nat) : Nat :=
  match (s.drop pos).idxOf? c with
  | some i => pos + i
  | none => npos

/-- `s.rfind(c)`. -/
def rfind (c : UInt8) (s : Str) : Nat :=
  match s.reverse.idxOf? c with
  | some i => s.length - 1 - i
  | none => npos

/-- `s.substr(pos, n)`: raises when `pos` is past the end, and is cut short
at the end otherwise. -/
def substr (s : Str) (pos n : Nat) : Except Exn Str :=
  if s.length < pos then .error (.outOfRange (lit "basic_string_view::substr"))
  else .ok ((s.drop pos).take n)

theorem sizeAdd_of_lt {a b : Nat} (h : a + b < 2 ^ 64) : sizeAdd a b = a + b :=
  Nat.mod_eq_of_lt h

theorem sizeSub_of_le {a b : Nat} (hLe : b ≤ a) (hLt : a < 2 ^ 64) :
    sizeSub a b = a - b := by
  unfold sizeSub
  omega

private theorem idxOf?_append_cons {c : UInt8} {front : Str} (h : c ∉ front)
    (rest : Str) : (front ++ c :: rest).idxOf? c = some front.length := by
  induction front with
  | nil => simp [List.idxOf?_cons]
  | cons b front ih =>
      have hb : (b == c) = false := by
        simpa using fun hEq => h (by simp [hEq])
      have hFront : c ∉ front := fun hMem => h (by simp [hMem])
      simp [List.idxOf?_cons, hb, ih hFront]

/-- A search finds the first occurrence behind its start. -/
theorem find_append {c : UInt8} {skipped : Str} (h : c ∉ skipped)
    (front rest : Str) :
    find c (front ++ (skipped ++ c :: rest)) front.length =
      front.length + skipped.length := by
  rw [find, List.drop_left, idxOf?_append_cons h]

theorem find_of_not_mem {c : UInt8} {s : Str} (h : c ∉ s) (front : Str) :
    find c (front ++ s) front.length = npos := by
  rw [find, List.drop_left, List.idxOf?_eq_none_iff.mpr h]

/-- A search finds a position of the text, or nothing. -/
theorem find_lt_or (c : UInt8) (s : Str) (pos : Nat) :
    find c s pos = npos ∨ find c s pos < s.length := by
  unfold find
  cases hFound : (s.drop pos).idxOf? c with
  | none => exact .inl rfl
  | some i =>
      obtain ⟨hLt, -⟩ := List.idxOf?_eq_some_iff.mp hFound
      rw [List.length_drop] at hLt
      refine .inr ?_
      simp only
      omega

/-- A backward search finds the last occurrence. -/
theorem rfind_append {c : UInt8} (front : Str) {back : Str} (h : c ∉ back) :
    rfind c (front ++ c :: back) = front.length := by
  have hReverse : (front ++ c :: back).reverse =
      back.reverse ++ c :: front.reverse := by simp
  have hBack : c ∉ back.reverse := by simpa using h
  rw [rfind, hReverse, idxOf?_append_cons hBack]
  simp only [List.length_append, List.length_cons, List.length_reverse]
  omega

theorem rfind_of_not_mem {c : UInt8} {s : Str} (h : c ∉ s) :
    rfind c s = npos := by
  have hReverse : c ∉ s.reverse := by simpa using h
  rw [rfind, List.idxOf?_eq_none_iff.mpr hReverse]

theorem substr_append (front part rest : Str) :
    substr (front ++ (part ++ rest)) front.length part.length = .ok part := by
  have hInside : ¬ (front ++ (part ++ rest)).length < front.length := by
    simp only [List.length_append]
    omega
  rw [substr, if_neg hInside, List.drop_left, List.take_left]

/-- A count that reaches the end takes the rest. -/
theorem substr_rest (front rest : Str) {n : Nat} (h : rest.length ≤ n) :
    substr (front ++ rest) front.length n = .ok rest := by
  have hInside : ¬ (front ++ rest).length < front.length := by
    simp only [List.length_append]
    omega
  rw [substr, if_neg hInside, List.drop_left, List.take_of_length_le h]

/-! ## Numbers -/

/-- `std::stoull`: an `unsigned long long`; a minus sign negates modulo
`2^64`. -/
def stoull (s : Str) : Except Exn (BitVec 64) :=
  match readInt s with
  | none => .error (.invalidArgument (lit "stoull"))
  | some (negative, n) =>
      if 2 ^ 64 ≤ n then .error (.outOfRange (lit "stoull"))
      else .ok (if negative then -BitVec.ofNat 64 n else BitVec.ofNat 64 n)

/-- The integer a sign and a magnitude stand for. -/
def signed (negative : Bool) (n : Nat) : Int :=
  if negative then -(n : Int) else n

/-- `std::stoll`. -/
def stoll (s : Str) : Except Exn Int64 :=
  match readInt s with
  | none => .error (.invalidArgument (lit "stoll"))
  | some (negative, n) =>
      if -2 ^ 63 ≤ signed negative n ∧ signed negative n < 2 ^ 63 then
        .ok (Int64.ofInt (signed negative n))
      else .error (.outOfRange (lit "stoll"))

/-- `std::stoi`, widened to the `int64_t` it is always stored in. -/
def stoi (s : Str) : Except Exn Int64 :=
  match readInt s with
  | none => .error (.invalidArgument (lit "stoi"))
  | some (negative, n) =>
      if -2 ^ 31 ≤ signed negative n ∧ signed negative n < 2 ^ 31 then
        .ok (Int64.ofInt (signed negative n))
      else .error (.outOfRange (lit "stoi"))

/-- `std::to_string` of an `unsigned long long`. -/
def ullText (n : BitVec 64) : Str := digits n.toNat

/-- `std::to_string` of an `int64_t`. -/
def int64Text (z : Int64) : Str := intText z.toInt

@[simp] theorem stoull_ullText (n : BitVec 64) :
    stoull (ullText n) = .ok n := by
  have hLt : ¬ 2 ^ 64 ≤ n.toNat := Nat.not_le.mpr n.isLt
  rw [stoull, ullText, readInt_digits]
  simp only [if_neg hLt, Bool.false_eq_true, if_false, BitVec.ofNat_toNat,
    BitVec.setWidth_eq]

theorem signed_natAbs (z : Int) : signed (decide (z < 0)) z.natAbs = z := by
  unfold signed
  split <;> rename_i h <;> simp only [decide_eq_true_eq] at h <;> omega

@[simp] theorem stoll_int64Text (z : Int64) :
    stoll (int64Text z) = .ok z := by
  have hLow : -2 ^ 63 ≤ z.toInt := z.le_toInt
  have hHigh : z.toInt < 2 ^ 63 := z.toInt_lt
  rw [stoll, int64Text, readInt_intText]
  simp only [signed_natAbs]
  rw [if_pos ⟨hLow, hHigh⟩, Int64.ofInt_toInt]

theorem bar_not_mem_ullText (n : BitVec 64) : bar ∉ ullText n :=
  not_mem_digits (by decide) _

theorem bar_not_mem_int64Text (z : Int64) : bar ∉ int64Text z :=
  not_mem_intText (by decide) (by decide) _

/-! ## Integers in memory -/

/-- The `w` bytes of `n` in memory order, the low one first. -/
def memoryBytes : Nat → Nat → Str
  | 0, _ => []
  | w + 1, n => UInt8.ofNat n :: memoryBytes w (n / 256)

/-- The number that bytes in memory stand for. -/
def memoryValue (bytes : Str) : Nat :=
  bytes.foldr (fun b n => b.toNat + 256 * n) 0

@[simp] theorem length_memoryBytes (w n : Nat) :
    (memoryBytes w n).length = w := by
  induction w generalizing n with
  | zero => rfl
  | succ w ih => simp [memoryBytes, ih]

theorem memoryValue_memoryBytes {w n : Nat} (h : n < 256 ^ w) :
    memoryValue (memoryBytes w n) = n := by
  induction w generalizing n with
  | zero =>
      rw [Nat.pow_zero] at h
      obtain rfl : n = 0 := by omega
      rfl
  | succ w ih =>
      have hHigh : n / 256 < 256 ^ w := by
        rw [Nat.pow_succ] at h
        exact Nat.div_lt_of_lt_mul (by omega)
      have hLow : (UInt8.ofNat n).toNat = n % 256 := UInt8.toNat_ofNat'
      have hRest : memoryValue (memoryBytes w (n / 256)) = n / 256 := ih hHigh
      rw [memoryValue] at hRest
      rw [memoryBytes, memoryValue, List.foldr_cons, hLow, hRest]
      omega

theorem memoryValue_cons (b : UInt8) (bytes : Str) :
    memoryValue (b :: bytes) = b.toNat + 256 * memoryValue bytes := rfl

theorem memoryValue_lt (bytes : Str) :
    memoryValue bytes < 256 ^ bytes.length := by
  induction bytes with
  | nil => decide
  | cons b bytes ih =>
      have hByte : b.toNat < 256 := b.toNat_lt
      rw [memoryValue_cons, List.length_cons, Nat.pow_succ]
      omega

theorem memoryBytes_memoryValue (bytes : Str) :
    memoryBytes bytes.length (memoryValue bytes) = bytes := by
  induction bytes with
  | nil => rfl
  | cons b bytes ih =>
      have hByte : b.toNat < 256 := b.toNat_lt
      have hLow : UInt8.ofNat (b.toNat + 256 * memoryValue bytes) = b := by
        apply UInt8.toNat_inj.mp
        rw [UInt8.toNat_ofNat']
        omega
      have hHigh : (b.toNat + 256 * memoryValue bytes) / 256 =
          memoryValue bytes := by omega
      rw [memoryValue_cons, List.length_cons, memoryBytes, hLow, hHigh, ih]

/-- `static_cast<int>` of a size, and the `int` four bytes in memory stand
for: the low 32 bits, with a sign. -/
@[irreducible] def intOfSize (n : Nat) : Int := (n : Int).bmod (2 ^ 32)

theorem intOfSize_of_lt {n : Nat} (h : n < 2 ^ 31) : intOfSize n = n := by
  unfold intOfSize
  rw [Int.bmod_def]
  omega

theorem intOfSize_of_nonneg {n : Nat} (hHigh : n < 2 ^ 32)
    (h : 0 ≤ intOfSize n) : intOfSize n = n := by
  unfold intOfSize at h ⊢
  rw [Int.bmod_def] at h ⊢
  omega

theorem intOfSize_neg {n : Nat} (hLow : 2 ^ 31 ≤ n) (hHigh : n < 2 ^ 32) :
    intOfSize n < 0 := by
  unfold intOfSize
  rw [Int.bmod_def]
  omega

theorem intOfSize_lt (n : Nat) : intOfSize n < 2 ^ 31 := by
  unfold intOfSize
  rw [Int.bmod_def]
  omega

theorem le_intOfSize (n : Nat) : -2 ^ 31 ≤ intOfSize n := by
  unfold intOfSize
  rw [Int.bmod_def]
  omega

end GDPRuler.Controller
