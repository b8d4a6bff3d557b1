import GDPRuler.Controller.GdprMetadata

/-!
# Stored records

A stored record is text: eight metadata fields, each followed by `'|'`, and
then the value.  `Metadata` is what those eight fields mean, and
`Metadata.encode` writes them in front of a value.

Nothing escapes a separator, so the text determines the metadata only when
the three free strings contain no `'|'` (`Metadata.Clean`).  The value is not
restricted: the functions that split at the first eight separators leave it
alone, and for those that split at the *last* one this module says what they
do to a record whose value part, `tail`, is arbitrary.
-/

namespace GDPRuler.Controller

open GDPRuler.Verified.Delim

/-- The metadata of a record. -/
structure Metadata where
  userKey : Str := []
  encryption : Bool := false
  purpose : BitVec 64 := 0
  objection : BitVec 64 := 0
  origin : Str := []
  expiration : Int64 := 0
  share : Str := []
  monitor : Bool := false
  deriving DecidableEq

/-- A flag as text. -/
def flagText (b : Bool) : Str := if b then lit "1" else lit "0"

theorem flagText_eq_one (b : Bool) : (flagText b == lit "1") = b := by
  cases b <;> decide

theorem bar_not_mem_flagText (b : Bool) : bar ∉ flagText b := by
  cases b <;> decide

namespace Metadata

/-- The texts of the eight fields. -/
def fields (m : Metadata) : List Str :=
  [m.userKey, flagText m.encryption, ullText m.purpose, ullText m.objection,
    m.origin, int64Text m.expiration, m.share, flagText m.monitor]

/-- The stored text of a record. -/
def encode (m : Metadata) (value : Str) : Str := joinFields bar m.fields value

/-- The free strings hold no separator. -/
structure Clean (m : Metadata) : Prop where
  userKey : bar ∉ m.userKey
  origin : bar ∉ m.origin
  share : bar ∉ m.share

theorem Clean.fields {m : Metadata} (h : m.Clean) :
    ∀ field ∈ m.fields, bar ∉ field := by
  simp only [Metadata.fields, List.mem_cons, List.not_mem_nil, or_false,
    forall_eq_or_imp, forall_eq]
  exact ⟨h.userKey, bar_not_mem_flagText _, bar_not_mem_ullText _,
    bar_not_mem_ullText _, h.origin, bar_not_mem_int64Text _, h.share,
    bar_not_mem_flagText _⟩

/-- The metadata part ends in a separator. -/
theorem encode_eq_front (m : Metadata) :
    ∃ front, ∀ value, m.encode value = front ++ bar :: value := by
  refine ⟨joinFields bar m.fields.dropLast [] ++ flagText m.monitor, ?_⟩
  intro value
  have hFields : m.fields = m.fields.dropLast ++ [flagText m.monitor] := rfl
  rw [encode, hFields, joinFields_concat]
  rfl

theorem encode_append (m : Metadata) (value : Str) :
    m.encode value = m.encode [] ++ value :=
  joinFields_rest bar m.fields value

/-! ## The last separator of a record -/

/-- A record without separators in its value is cut between metadata and
value. -/
theorem cutLast_encode (m : Metadata) {value : Str} (h : bar ∉ value) :
    ∃ front, cutLast bar (m.encode value) = some (front, value) ∧
      ∀ v, m.encode v = front ++ bar :: v := by
  obtain ⟨front, hFront⟩ := m.encode_eq_front
  exact ⟨front, by rw [hFront, cutLast_append front h], hFront⟩

/-- A separator in the value hides those of the metadata. -/
theorem cutLast_encode_of_mem (m : Metadata) {value : Str} (h : bar ∈ value) :
    cutLast bar (m.encode value) =
      (cutLast bar value).map fun parts => (m.encode parts.1, parts.2) := by
  rw [encode_append, cutLast_append_of_mem _ h]
  simp only [← encode_append]

theorem removeGdprMetadata_encode (m : Metadata) {value : Str}
    (hBar : bar ∉ value) (hValue : value ≠ []) :
    removeGdprMetadata (m.encode value) = value := by
  obtain ⟨front, hCut, _⟩ := m.cutLast_encode hBar
  simp [removeGdprMetadata, hCut, hValue]

theorem preserveOnlyGdprMetadata_encode (m : Metadata) {value : Str}
    (hBar : bar ∉ value) :
    preserveOnlyGdprMetadata (m.encode value) = m.encode [] := by
  obtain ⟨front, hCut, hFront⟩ := m.cutLast_encode hBar
  rw [preserveOnlyGdprMetadata, hCut]
  by_cases hValue : value = []
  · simp [hValue]
  · simp [hValue, hFront]

end Metadata

/-- A typed record: what a key is mapped to. -/
structure Record where
  metadata : Metadata
  value : Str
  deriving DecidableEq

def Record.encode (r : Record) : Str := r.metadata.encode r.value

end GDPRuler.Controller
