import GDPRuler.Verified.Delim
import GDPRuler.Controller.CxxString

/-!
# Purposes, expiration times and the textual record

The helpers of `gdpr_metadata.hpp`.  Purposes are the 64 names
`purpose0 … purpose63`, each with a bit of its own; a stored record is
`user|encryption|purposes|objections|origin|expiration|share|monitor|value`.

Two facts about the purpose table decide what later bitset tests can tell
apart: a known name has its own bit (`getPur_purposeName`), and every other
string is looked up as bit 0 (`getPur_of_not_known`), because `operator[]` on
the table inserts a zero for a missing key.
-/

namespace GDPRuler.Controller

open GDPRuler.Verified.Delim GDPRuler.Verified.Decimal

def numPurposes : Nat := 64

/-- The fields before the value. -/
def metadataPrefixFields : Nat := 8

/-- `max_gdpr_field_guard`: the metadata fields and the value. -/
def maxGdprFieldGuard : Nat := 9

/-- Nanoseconds in a second. -/
def s2ns : Int64 := 1000000000

/-! ## Purposes -/

def purposeName (i : Nat) : Str := lit "purpose" ++ digits i

/-- The table of purpose names. -/
def purIndex : List (Str × Nat) :=
  (List.range numPurposes).map fun i => (purposeName i, i)

/-- `get_pur()[key]`: a missing key is inserted with index 0. -/
def getPur (key : Str) : Nat := (purIndex.lookup key).getD 0

/-- The bits of the named purposes, added to `bits`. -/
def setBitmap (bits : BitVec 64) (bitKeys : List Str) : BitVec 64 :=
  bitKeys.foldl (fun bits bitKey => bits ||| (1#64 <<< getPur bitKey)) bits

/-- The names of the set bits, each followed by a comma. -/
def getPurposesString (bits : BitVec 64) : Str :=
  (List.range numPurposes).flatMap fun i =>
    if bits.getLsbD i then purposeName i ++ [comma] else []

/-- One of `purpose0 … purpose63`. -/
def KnownPurpose (name : Str) : Prop := ∃ i < numPurposes, name = purposeName i

theorem purposeName_injective {i j : Nat} (h : purposeName i = purposeName j) :
    i = j :=
  digits_injective (List.append_cancel_left h)

private theorem lookup_map_purposeName (is : List Nat) (j : Nat) :
    (is.map fun i => (purposeName i, i)).lookup (purposeName j) =
      if j ∈ is then some j else none := by
  induction is with
  | nil => simp
  | cons i is ih =>
      by_cases hij : j = i
      · subst hij
        simp
      · have hName : (purposeName j == purposeName i) = false := by
          simpa using fun h => hij (purposeName_injective h)
        simp [List.lookup_cons, hName, ih, hij]

theorem getPur_purposeName {i : Nat} (hi : i < numPurposes) :
    getPur (purposeName i) = i := by
  simp [getPur, purIndex, lookup_map_purposeName, hi]

theorem getPur_of_not_known {name : Str} (h : ¬ KnownPurpose name) :
    getPur name = 0 := by
  have hLookup : purIndex.lookup name = none := by
    rw [List.lookup_eq_none_iff]
    rintro ⟨key, i⟩ hMem
    obtain ⟨j, hj, hPair⟩ := List.mem_map.mp hMem
    obtain ⟨rfl, rfl⟩ := Prod.mk.inj hPair
    simpa using fun hEq => h ⟨j, by simpa using hj, hEq⟩
  simp [getPur, hLookup]

theorem getPur_lt (name : Str) : getPur name < numPurposes := by
  by_cases h : KnownPurpose name
  · obtain ⟨i, hi, rfl⟩ := h
    rwa [getPur_purposeName hi]
  · rw [getPur_of_not_known h]
    decide

/-- Known names share a bit only with themselves. -/
theorem getPur_eq_iff {a b : Str} (ha : KnownPurpose a) (hb : KnownPurpose b) :
    getPur a = getPur b ↔ a = b := by
  obtain ⟨i, hi, rfl⟩ := ha
  obtain ⟨j, hj, rfl⟩ := hb
  rw [getPur_purposeName hi, getPur_purposeName hj]
  exact ⟨fun h => h ▸ rfl, purposeName_injective⟩

theorem getLsbD_setBitmap (bits : BitVec 64) (bitKeys : List Str) {i : Nat}
    (hi : i < 64) :
    (setBitmap bits bitKeys).getLsbD i = true ↔
      bits.getLsbD i = true ∨ ∃ key ∈ bitKeys, getPur key = i := by
  induction bitKeys generalizing bits with
  | nil => simp [setBitmap]
  | cons key keys ih =>
      have hBit : (1#64 <<< getPur key).getLsbD i = true ↔ getPur key = i := by
        have hKey : getPur key < 64 := getPur_lt key
        rw [BitVec.getLsbD_shiftLeft, BitVec.getLsbD_one]
        simp only [Bool.and_eq_true, decide_eq_true_eq, Bool.not_eq_true',
          decide_eq_false_iff_not]
        omega
      have hStep : setBitmap bits (key :: keys) =
          setBitmap (bits ||| (1#64 <<< getPur key)) keys := rfl
      rw [hStep, ih, BitVec.getLsbD_or, Bool.or_eq_true, hBit]
      simp only [List.mem_cons, exists_eq_or_imp]
      exact or_assoc

/-! ## Lists and flags -/

/-- The comma-separated tokens of `str`, by the `find`/`substr` loop. -/
def splitCommaString (str : Str) : List Str := tokens comma str.length str

theorem splitCommaString_eq (str : Str) :
    splitCommaString str = str.splitOn comma :=
  tokens_eq_splitOn (Nat.le_refl _)

/-- A non-empty list of comma-free names is read back as written. -/
theorem splitCommaString_intercalate {names : List Str} (hNames : names ≠ [])
    (hFree : ∀ name ∈ names, comma ∉ name) :
    splitCommaString ([comma].intercalate names) = names := by
  rw [splitCommaString_eq, List.splitOn_intercalate comma hFree hNames]

def equalsIgnoreCase (lhs rhs : Str) : Bool :=
  lhs.length == rhs.length && lhs.map toLower == rhs.map toLower

def strToBool (str : Str) : Except Exn Bool :=
  if equalsIgnoreCase str (lit "true") then .ok true
  else if equalsIgnoreCase str (lit "false") then .ok false
  else .error (.runtimeError (lit "Invalid string value: " ++ str))

/-! ## Expiration times -/

/-- The clock in whole seconds. -/
def seconds (now : Int64) : Int64 := now / s2ns

/--
The date, in seconds, `secs` seconds after `now` (nanoseconds); 0, for "no
expiration", is kept.  The sum is formed in 64-bit nanoseconds, which the
machine wraps.
-/
def getExpirationTime (now secsFromNow : Int64) : Int64 :=
  if secsFromNow = 0 then 0 else seconds (now + secsFromNow * s2ns)

/-! ## Value and metadata of a stored record -/

/-- What follows the last `'|'`; the whole text if nothing follows it. -/
def removeGdprMetadata (value : Str) : Str :=
  match cutLast bar value with
  | some (_, back) => if back = [] then value else back
  | none => value

/-- A text put behind a separator is read back exactly if it is not empty and
holds no separator itself. -/
theorem removeGdprMetadata_append_iff (front value : Str) :
    removeGdprMetadata (front ++ bar :: value) = value ↔
      value ≠ [] ∧ bar ∉ value := by
  by_cases hBar : bar ∈ value
  · obtain ⟨valueFront, back, hCut⟩ := exists_cutLast hBar
    obtain ⟨rfl, hBack⟩ := cutLast_eq_some_iff.mp hCut
    have hWhole : cutLast bar (front ++ bar :: (valueFront ++ bar :: back)) =
        some (front ++ bar :: valueFront, back) := by
      rw [← List.cons_append, ← List.append_assoc, cutLast_append _ hBack]
    -- what comes back is too short, or the whole record and too long
    have hLength : removeGdprMetadata
        (front ++ bar :: (valueFront ++ bar :: back)) ≠
          valueFront ++ bar :: back := by
      intro hEq
      have hLen := congrArg List.length hEq
      rw [removeGdprMetadata, hWhole] at hLen
      by_cases hNil : back = [] <;> simp [hNil] at hLen <;> omega
    exact iff_of_false hLength fun h => h.2 hBar
  · rw [removeGdprMetadata, cutLast_append front hBar]
    by_cases hValue : value = []
    · simp [hValue]
    · simp [hValue, hBar]

/-- Everything up to the last `'|'`, that one included; the whole text if
nothing follows it. -/
def preserveOnlyGdprMetadata (value : Str) : Str :=
  match cutLast bar value with
  | some (front, back) => if back = [] then value else front ++ [bar]
  | none => value

end GDPRuler.Controller
