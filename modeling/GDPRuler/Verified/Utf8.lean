import Mathlib.Data.List.Basic

/-!
# Texts as bytes

A text is stored in UTF-8.  An ASCII character is the byte of its number, and
every byte of another character is 128 or more, so what a program does with
ASCII characters it does in the same way with their bytes.

## Main results

* `utf8_injective` — the bytes determine the text;
* `mem_utf8_iff` — an ASCII character is found among the bytes where it is in
  the text.
-/

namespace GDPRuler.Verified.Utf8

/-- The bytes of a text. -/
def utf8 (s : List Char) : List UInt8 := s.flatMap String.utf8EncodeChar

@[simp] theorem utf8_nil : utf8 [] = [] := rfl

@[simp] theorem utf8_cons (c : Char) (s : List Char) :
    utf8 (c :: s) = String.utf8EncodeChar c ++ utf8 s := rfl

@[simp] theorem utf8_append (s t : List Char) :
    utf8 (s ++ t) = utf8 s ++ utf8 t := List.flatMap_append

/-- The bytes determine the text. -/
theorem utf8_injective {s t : List Char} (h : utf8 s = utf8 t) : s = t := by
  have hBytes : s.utf8Encode = t.utf8Encode := by
    rw [List.utf8Encode, List.utf8Encode]
    exact congrArg List.toByteArray h
  have hDecoded := congrArg ByteArray.utf8Decode? hBytes
  rw [List.utf8Decode?_utf8Encode, List.utf8Decode?_utf8Encode,
    Option.some.injEq] at hDecoded
  exact congrArg Array.toList hDecoded

/-! ## ASCII characters -/

theorem utf8EncodeChar_ascii {c : Char} (h : c.toNat < 128) :
    String.utf8EncodeChar c = [UInt8.ofNat c.toNat] := by
  have hLow : c.val.toNat ≤ 0x7f := Nat.le_of_lt_succ h
  rw [String.utf8EncodeChar]
  simp only [if_pos hLow]
  rfl

/-- The bytes of other characters are not ASCII. -/
theorem le_of_mem_utf8EncodeChar {c : Char} (h : 128 ≤ c.toNat) {b : UInt8}
    (hMem : b ∈ String.utf8EncodeChar c) : 128 ≤ b.toNat := by
  have hLow : ¬ c.val.toNat ≤ 0x7f := Nat.not_le_of_gt h
  rw [String.utf8EncodeChar] at hMem
  simp only [if_neg hLow] at hMem
  split at hMem
  · simp only [List.mem_cons, List.not_mem_nil, or_false] at hMem
    rcases hMem with rfl | rfl <;> rw [UInt8.toNat_ofNat'] <;> omega
  · split at hMem
    · simp only [List.mem_cons, List.not_mem_nil, or_false] at hMem
      rcases hMem with rfl | rfl | rfl <;> rw [UInt8.toNat_ofNat'] <;> omega
    · simp only [List.mem_cons, List.not_mem_nil, or_false] at hMem
      rcases hMem with rfl | rfl | rfl | rfl <;>
        rw [UInt8.toNat_ofNat'] <;> omega

/-- An ASCII character is among the bytes where it is in the text. -/
theorem mem_utf8_iff {c : Char} (hAscii : c.toNat < 128) {s : List Char} :
    UInt8.ofNat c.toNat ∈ utf8 s ↔ c ∈ s := by
  have hByte : (UInt8.ofNat c.toNat).toNat = c.toNat := by
    rw [UInt8.toNat_ofNat']
    omega
  constructor
  · intro hMem
    obtain ⟨d, hD, hByteD⟩ := List.mem_flatMap.mp hMem
    rcases Nat.lt_or_ge d.toNat 128 with hLow | hHigh
    · rw [utf8EncodeChar_ascii hLow, List.mem_singleton] at hByteD
      have hNat := congrArg UInt8.toNat hByteD
      rw [hByte, UInt8.toNat_ofNat', Nat.mod_eq_of_lt (by omega)] at hNat
      exact Char.toNat_inj.mp hNat ▸ hD
    · have hLarge := le_of_mem_utf8EncodeChar hHigh hByteD
      omega
  · intro hMem
    refine List.mem_flatMap.mpr ⟨c, hMem, ?_⟩
    rw [utf8EncodeChar_ascii hAscii]
    exact List.mem_singleton_self _

/-- A map that agrees on ASCII characters and their bytes, and leaves all other
characters and bytes alone, may be applied before encoding or after. -/
theorem map_utf8 {f : Char → Char} {g : UInt8 → UInt8}
    (hAscii : ∀ n < 128, (f (Char.ofNat n)).toNat < 128 ∧
      g (UInt8.ofNat n) = UInt8.ofNat (f (Char.ofNat n)).toNat)
    (hChar : ∀ c : Char, 128 ≤ c.toNat → f c = c)
    (hByte : ∀ b : UInt8, 128 ≤ b.toNat → g b = b) (s : List Char) :
    (utf8 s).map g = utf8 (s.map f) := by
  induction s with
  | nil => rfl
  | cons c s ih =>
      rw [List.map_cons, utf8_cons, utf8_cons, List.map_append, ih]
      congr 1
      rcases Nat.lt_or_ge c.toNat 128 with hLow | hHigh
      · obtain ⟨hImage, hMap⟩ := hAscii c.toNat hLow
        rw [Char.ofNat_toNat] at hImage hMap
        rw [utf8EncodeChar_ascii hLow, utf8EncodeChar_ascii hImage,
          List.map_singleton, hMap]
      · rw [hChar c hHigh]
        exact (List.map_congr_left fun b hMem =>
          hByte b (le_of_mem_utf8EncodeChar hHigh hMem)).trans (List.map_id _)

end GDPRuler.Verified.Utf8
