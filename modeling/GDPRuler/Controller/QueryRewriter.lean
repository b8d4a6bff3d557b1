import GDPRuler.Controller.GdprFilter

/-!
# The rewriters

A record is written by one of three constructors of `query_rewriter`:

* `insert` builds it from the query's fields, the default policy standing in
  for what the query leaves open;
* `update` keeps everything up to the last `'|'` and appends the new value;
* `putm` copies the record field by field, replacing what the query supplies.

On encoded records each acts on the metadata and the value part separately:
`insert_eq`, `update_encode` and `putm_encode`.
-/

namespace GDPRuler.Controller

open GDPRuler.Verified.Delim

namespace QueryRewriter

/-! ## The constructors -/

/-- The record of a first put; `now` is the clock, for the expiration date. -/
def insert (q : Query) (p : DefaultPolicy) (newQueryValue : Str) (now : Int64) :
    Str :=
  let userKey := q.userKey.getD p.userKey
  let encryption := p.encryption
  let purpose := q.purpose.getD p.purpose
  let objection := q.objection.getD p.objection
  let origin := q.origin.getD p.origin
  let expiration := q.expiration.getD p.expiration
  let share := q.share.getD p.share
  let monitor := q.monitor.getD p.monitor
  userKey ++ [bar] ++
    (if encryption then lit "1|" else lit "0|") ++
    ullText purpose ++ [bar] ++
    ullText objection ++ [bar] ++
    origin ++ [bar] ++
    int64Text (getExpirationTime now expiration) ++ [bar] ++
    share ++ [bar] ++
    (if monitor then lit "1|" else lit "0|") ++
    newQueryValue

/-- The record of an update; `substr(0, npos)` is the whole text. -/
def update (res newQueryValue : Str) : Str :=
  let metadata := match cutLast bar res with
    | some (front, _) => front
    | none => res
  metadata ++ [bar] ++ newQueryValue

/-- What `putm` writes for field number `count`. -/
def putmField (q : Query) (now : Int64) (count : Nat) (token : Str) : Str :=
  match MetadataField.ofCount count with
  | some .usr => q.userKey.getD token
  | some .pur => (q.purpose.map ullText).getD token
  | some .obj => (q.objection.map ullText).getD token
  | some .org => q.origin.getD token
  | some .exp =>
      (q.expiration.map fun secs => int64Text (getExpirationTime now secs)).getD
        token
  | some .shr => q.share.getD token
  | some .log => (q.monitor.map flagText).getD token
  | _ => token

/-- One round of the loop: the field and, except behind the value, a
separator. -/
def putmStep (q : Query) (now : Int64) (count : Nat)
    (token newValue : Str) : Except Exn Str :=
  if MetadataField.ofCount count ≠ some .val then
    .ok (newValue ++ putmField q now count token ++ [bar])
  else
    .ok (newValue ++ putmField q now count token)

/-- The record of a metadata update. -/
def putm (res : Str) (q : Query) (now : Int64) : Except Exn Str := do
  let (_, rest, newValue) ←
    scan bar (putmStep q now) maxGdprFieldGuard 0 res []
  return newValue ++ rest

/-! ## What they do to metadata and value -/

/-- The metadata a first put gives its record. -/
def insertMetadata (q : Query) (p : DefaultPolicy) (now : Int64) : Metadata where
  userKey := q.userKey.getD p.userKey
  encryption := p.encryption
  purpose := q.purpose.getD p.purpose
  objection := q.objection.getD p.objection
  origin := q.origin.getD p.origin
  expiration := getExpirationTime now (q.expiration.getD p.expiration)
  share := q.share.getD p.share
  monitor := q.monitor.getD p.monitor

/-- The metadata with the fields the query supplies. -/
def putmMetadata (m : Metadata) (q : Query) (now : Int64) : Metadata where
  userKey := q.userKey.getD m.userKey
  encryption := m.encryption
  purpose := q.purpose.getD m.purpose
  objection := q.objection.getD m.objection
  origin := q.origin.getD m.origin
  expiration := (q.expiration.map (getExpirationTime now)).getD m.expiration
  share := q.share.getD m.share
  monitor := q.monitor.getD m.monitor

/-- The value part after an update: a separator in the old one counts. -/
def updateValue (value newQueryValue : Str) : Str :=
  match cutLast bar value with
  | some (front, _) => front ++ bar :: newQueryValue
  | none => newQueryValue

/-- The value part after a metadata update: its first separator is lost. -/
def putmValue (value : Str) : Str :=
  match cut bar value with
  | some (token, rest) => token ++ rest
  | none => value

theorem insert_eq (q : Query) (p : DefaultPolicy) (v : Str) (now : Int64) :
    insert q p v now = (insertMetadata q p now).encode v := by
  have hFlag : ∀ b : Bool,
      (if b = true then lit "1|" else lit "0|") = flagText b ++ [bar] := by
    intro b
    cases b <;> decide
  simp [insert, insertMetadata, Metadata.encode, Metadata.fields, hFlag]

/-- Any number of fields in front of the value, their texts arbitrary. -/
theorem update_joinFields (fields : List Str) (last value v : Str) :
    update (joinFields bar (fields ++ [last]) value) v =
      joinFields bar (fields ++ [last]) (updateValue value v) := by
  rw [joinFields_concat, joinFields_concat]
  by_cases h : bar ∈ value
  · obtain ⟨front, back, hCut⟩ := exists_cutLast h
    obtain ⟨rfl, hBack⟩ := cutLast_eq_some_iff.mp hCut
    have hWhole : (joinFields bar fields [] ++ last) ++
        bar :: (front ++ bar :: back) =
        ((joinFields bar fields [] ++ last) ++ bar :: front) ++ bar :: back := by
      simp
    rw [update, updateValue, hWhole, cutLast_append _ hBack,
      cutLast_append _ hBack]
    simp
  · rw [update, updateValue, cutLast_append _ h, cutLast_eq_none_iff.mpr h]
    simp

theorem update_encode (m : Metadata) (value v : Str) :
    update (m.encode value) v = m.encode (updateValue value v) :=
  update_joinFields m.fields.dropLast (flagText m.monitor) value v

/-- An update always leaves its value behind a separator. -/
theorem update_eq_append (res v : Str) :
    ∃ front, update res v = front ++ bar :: v :=
  ⟨_, List.append_assoc _ _ _⟩

theorem insert_eq_append (q : Query) (p : DefaultPolicy) (v : Str)
    (now : Int64) : ∃ front, insert q p v now = front ++ bar :: v := by
  obtain ⟨front, h⟩ := (insertMetadata q p now).encode_eq_front
  exact ⟨front, by rw [insert_eq, h]⟩

/-- The fields a metadata update writes for fields from number `count` on. -/
def putmFields (q : Query) (now : Int64) : Nat → List Str → List Str
  | _, [] => []
  | count, token :: tokens =>
      putmField q now count token :: putmFields q now (count + 1) tokens

theorem length_putmFields (q : Query) (now : Int64) (count : Nat)
    (fields : List Str) :
    (putmFields q now count fields).length = fields.length := by
  induction fields generalizing count with
  | nil => rfl
  | cons token tokens ih => simp [putmFields, ih]

/-- In front of the value every field keeps its separator. -/
private theorem steps_putmStep (q : Query) (now : Int64) (fields : List Str)
    {count : Nat} (hCount : count + fields.length ≤ 8) (newValue : Str) :
    steps (putmStep q now) count fields newValue =
      .ok (newValue ++ joinFields bar (putmFields q now count fields) []) := by
  induction fields generalizing count newValue with
  | nil => simp [steps, putmFields]
  | cons token tokens ih =>
      have hField : ∀ n < 8, MetadataField.ofCount n ≠ some .val := by decide
      rw [List.length_cons] at hCount
      rw [steps, putmStep, if_pos (hField count (by omega))]
      simp only
      rw [ih (by omega), putmFields, joinFields_cons]
      simp

/-- A metadata update field by field: only the value is in its way. -/
theorem putm_joinFields {fields : List Str} (hLen : fields.length = 8)
    (hFree : ∀ field ∈ fields, bar ∉ field) (value : Str) (q : Query)
    (now : Int64) :
    putm (joinFields bar fields value) q now =
      .ok (joinFields bar (putmFields q now 0 fields) (putmValue value)) := by
  have hScan : scan bar (putmStep q now) maxGdprFieldGuard 0
      (joinFields bar fields value) [] =
      scan bar (putmStep q now) 1 8 value
        (joinFields bar (putmFields q now 0 fields) []) := by
    have hJoin := scan_joinFields (putmStep q now) fields hFree 1 0 value []
    rw [steps_putmStep q now fields (by omega), hLen] at hJoin
    exact hJoin
  rw [putm, hScan, joinFields_rest bar _ (putmValue value)]
  cases hCut : cut bar value with
  | none => simp [scan, hCut, putmValue, bind, Except.bind, pure, Except.pure]
  | some parts =>
      obtain ⟨token, rest⟩ := parts
      simp [scan, hCut, putmValue, putmStep, putmField, MetadataField.ofCount,
        bind, Except.bind, pure, Except.pure]

theorem putmFields_fields (m : Metadata) (q : Query) (now : Int64) :
    putmFields q now 0 m.fields = (putmMetadata m q now).fields := by
  have hExp : (q.expiration.map fun secs =>
        int64Text (getExpirationTime now secs)).getD (int64Text m.expiration) =
      int64Text ((q.expiration.map (getExpirationTime now)).getD
        m.expiration) := by
    cases q.expiration <;> rfl
  simp [Metadata.fields, putmMetadata, putmFields, putmField,
    MetadataField.ofCount, hExp]

theorem putm_encode {m : Metadata} (h : m.Clean) (value : Str) (q : Query)
    (now : Int64) :
    putm (m.encode value) q now =
      .ok ((putmMetadata m q now).encode (putmValue value)) := by
  rw [Metadata.encode, putm_joinFields rfl h.fields, putmFields_fields]
  rfl

theorem putmStep_ok (q : Query) (now : Int64) (count : Nat)
    (token newValue : Str) :
    ∃ text, putmStep q now count token newValue = .ok text := by
  unfold putmStep
  split <;> exact ⟨_, rfl⟩

/-- Rewriting metadata never raises. -/
theorem putm_ok (res : Str) (q : Query) (now : Int64) :
    ∃ text, putm res q now = .ok text := by
  have hScan : ∀ (n i : Nat) (s acc : Str), ∃ result,
      scan bar (putmStep q now) n i s acc = .ok result := by
    intro n
    induction n with
    | zero => exact fun i s acc => ⟨_, rfl⟩
    | succ n ih =>
        intro i s acc
        cases hCut : cut bar s with
        | none => exact ⟨(i, s, acc), by simp [scan, hCut]⟩
        | some parts =>
            obtain ⟨token, rest⟩ := parts
            obtain ⟨text, hText⟩ := putmStep_ok q now i token acc
            obtain ⟨result, hResult⟩ := ih (i + 1) rest text
            exact ⟨result, by simp [scan, hCut, hText, hResult]⟩
  obtain ⟨⟨_, rest, newValue⟩, hResult⟩ := hScan maxGdprFieldGuard 0 res []
  exact ⟨newValue ++ rest, by
    simp [putm, hResult, bind, Except.bind, pure, Except.pure]⟩

/-- The separator of the value part is what stands between `putm` and
leaving the value alone. -/
theorem putmValue_eq_self {value : Str} (h : bar ∉ value) :
    putmValue value = value := by
  rw [putmValue, cut_eq_none_iff.mpr h]

theorem updateValue_eq_self {value : Str} (h : bar ∉ value) (v : Str) :
    updateValue value v = v := by
  rw [updateValue, cutLast_eq_none_iff.mpr h]

/-! ## Clean writers -/

/-- The free strings of a first put, as it writes them, hold no `'|'`. -/
structure InsertClean (q : Query) (p : DefaultPolicy) : Prop where
  userKey : bar ∉ q.userKey.getD p.userKey
  origin : bar ∉ q.origin.getD p.origin
  share : bar ∉ q.share.getD p.share

/-- The free strings a `putm` query supplies hold no `'|'`. -/
structure SuppliedClean (q : Query) : Prop where
  userKey : ∀ text ∈ q.userKey, bar ∉ text
  origin : ∀ text ∈ q.origin, bar ∉ text
  share : ∀ text ∈ q.share, bar ∉ text

theorem InsertClean.metadata {q : Query} {p : DefaultPolicy}
    (h : InsertClean q p) (now : Int64) : (insertMetadata q p now).Clean :=
  ⟨h.userKey, h.origin, h.share⟩

theorem not_mem_getD {o : Option Str} {text : Str}
    (ho : ∀ t ∈ o, bar ∉ t) (hText : bar ∉ text) : bar ∉ o.getD text := by
  cases o with
  | none => exact hText
  | some t => exact ho t rfl

theorem SuppliedClean.metadata {q : Query} (h : SuppliedClean q)
    {m : Metadata} (hm : m.Clean) (now : Int64) :
    (putmMetadata m q now).Clean :=
  ⟨not_mem_getD h.userKey hm.userKey, not_mem_getD h.origin hm.origin,
    not_mem_getD h.share hm.share⟩

end QueryRewriter

end GDPRuler.Controller
