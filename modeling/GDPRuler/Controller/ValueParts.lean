import GDPRuler.Controller.Plans

/-!
# Where the value of a record begins

For the filter the value is what stands behind the eighth `'|'`, whatever it
holds.  Three other places look for it by themselves: `putm` counts one field
more than the filter, and the `update` rewriter and the reply of a getm go by
the last `'|'` of the record.  As long as the value holds no `'|'` all of them
agree.  This module says what each makes of any record the filter accepts, and
for which values that is what it is meant to do.

## Main results

* `putm_exact_iff` — a putm changes the supplied metadata and nothing else;
* `update_replaces_iff` — an update leaves nothing of the old value;
* `getm_oblivious_iff` — a getm does not tell values apart.
-/

namespace GDPRuler.Controller

open GDPRuler.Verified GDPRuler.Verified.Delim

/-! ## The two parts of a record -/

/-- Everything up to the eighth separator, that one included. -/
def metadataPart (text : Str) : Str :=
  (splitFields bar metadataPrefixFields text).1

/-- Everything behind the eighth separator. -/
def valuePart (text : Str) : Str :=
  (splitFields bar metadataPrefixFields text).2

/-- A record with its eight fields, and what they are decoded to. -/
structure RecordText (text : Str) (fields : List Str) (f : GdprFilter) :
    Prop where
  text_eq : text = joinFields bar fields (valuePart text)
  metadata_eq : metadataPart text = joinFields bar fields []
  length_eq : fields.length = 8
  free : ∀ field ∈ fields, bar ∉ field
  decodes : steps GdprFilter.setField 0 fields { valid := true } = .ok f

theorem RecordText.of_joinFields {fields : List Str} {f : GdprFilter}
    (hLength : fields.length = 8) (hFree : ∀ field ∈ fields, bar ∉ field)
    (hDecodes : steps GdprFilter.setField 0 fields { valid := true } = .ok f)
    (value : Str) :
    RecordText (joinFields bar fields value) fields f ∧
      valuePart (joinFields bar fields value) = value := by
  have hSplit := splitFields_joinFields hFree value
  rw [hLength] at hSplit
  have hValue : valuePart (joinFields bar fields value) = value :=
    congrArg Prod.snd hSplit
  refine ⟨⟨?_, congrArg Prod.fst hSplit, hLength, hFree, hDecodes⟩, hValue⟩
  rw [hValue]

/-- What the filter accepts. -/
theorem exists_recordText {text : Str} {f : GdprFilter}
    (h : GdprFilter.ofValue (some text) = .ok f) :
    ∃ fields, RecordText text fields f := by
  obtain ⟨-, fields, value, rfl, hLength, hFree, hDecodes⟩ :=
    GdprFilter.ofValue_eq_ok h
  exact ⟨fields, (RecordText.of_joinFields hLength hFree hDecodes value).1⟩

namespace RecordText

variable {text : Str} {fields : List Str} {f : GdprFilter}

/-- It is accepted with any value. -/
theorem ofValue_joinFields (h : RecordText text fields f) (value : Str) :
    GdprFilter.ofValue (some (joinFields bar fields value)) = .ok f := by
  have hScan := scan_joinFields GdprFilter.setField fields h.free 0 0 value
    { valid := true }
  rw [h.decodes, h.length_eq] at hScan
  have hCount : metadataPrefixFields = 8 + 0 := rfl
  rw [GdprFilter.ofValue, hCount, hScan]
  rfl

theorem metadata_append (h : RecordText text fields f) (value : Str) :
    metadataPart text ++ value = joinFields bar fields value := by
  rw [h.metadata_eq, ← joinFields_rest]

/-- The last field ends where the value begins. -/
theorem exists_front (h : RecordText text fields f) :
    ∃ front last, fields = front ++ [last] := by
  refine ⟨fields.dropLast, fields.getLast ?_, ?_⟩
  · intro hNil
    have hLength := h.length_eq
    rw [hNil] at hLength
    cases hLength
  · exact (List.dropLast_append_getLast _).symm

end RecordText

/-! ## Metadata updates -/

namespace QueryRewriter

variable {q : Query}

private theorem getD_getD {α : Type} (o : Option α) (a : α) :
    o.getD (o.getD a) = o.getD a := by
  cases o <;> rfl

/-- Fields stay free of separators. -/
theorem bar_not_mem_putmField (h : SuppliedClean q) (now : Int64) (count : Nat)
    {token : Str} (hToken : bar ∉ token) : bar ∉ putmField q now count token := by
  unfold putmField
  split
  · exact not_mem_getD h.userKey hToken
  · refine not_mem_getD (fun t hMem => ?_) hToken
    obtain ⟨bits, -, rfl⟩ := Option.map_eq_some_iff.mp hMem
    exact bar_not_mem_ullText bits
  · refine not_mem_getD (fun t hMem => ?_) hToken
    obtain ⟨bits, -, rfl⟩ := Option.map_eq_some_iff.mp hMem
    exact bar_not_mem_ullText bits
  · exact not_mem_getD h.origin hToken
  · refine not_mem_getD (fun t hMem => ?_) hToken
    obtain ⟨secs, -, rfl⟩ := Option.map_eq_some_iff.mp hMem
    exact bar_not_mem_int64Text _
  · exact not_mem_getD h.share hToken
  · refine not_mem_getD (fun t hMem => ?_) hToken
    obtain ⟨flag, -, rfl⟩ := Option.map_eq_some_iff.mp hMem
    exact bar_not_mem_flagText flag
  · exact hToken

/-- A field that was supplied is supplied again. -/
theorem putmField_putmField (q : Query) (now : Int64) (count : Nat)
    (token : Str) :
    putmField q now count (putmField q now count token) =
      putmField q now count token := by
  unfold putmField
  cases MetadataField.ofCount count with
  | none => rfl
  | some field => cases field <;> first | rfl | exact getD_getD _ _

theorem bar_not_mem_putmFields (h : SuppliedClean q) (now : Int64)
    {fields : List Str} (hFree : ∀ field ∈ fields, bar ∉ field) (count : Nat) :
    ∀ field ∈ putmFields q now count fields, bar ∉ field := by
  induction fields generalizing count with
  | nil => simp [putmFields]
  | cons token tokens ih =>
      rw [List.forall_mem_cons] at hFree
      rw [putmFields, List.forall_mem_cons]
      exact ⟨bar_not_mem_putmField h now count hFree.1, ih hFree.2 _⟩

theorem putmFields_putmFields (q : Query) (now : Int64) (fields : List Str)
    (count : Nat) :
    putmFields q now count (putmFields q now count fields) =
      putmFields q now count fields := by
  induction fields generalizing count with
  | nil => rfl
  | cons token tokens ih =>
      rw [putmFields, putmFields, putmField_putmField, ih]

/-- The fields a putm writes are decoded to the metadata it is to give. -/
theorem steps_putmFields {text : Str} {fields : List Str} {f : GdprFilter}
    (h : RecordText text fields f) (q : Query) (now : Int64) :
    steps GdprFilter.setField 0 (putmFields q now 0 fields) { valid := true } =
      .ok { putmMetadata f.toMetadata q now with valid := true } := by
  obtain ⟨-, -, hLength, -, hDecodes⟩ := h
  match fields, hLength with
  | [user, encr, pur, obj, org, exp, shr, mon], _ =>
      obtain ⟨purpose, objection, expiration, hPur, hObj, hExp, rfl⟩ :=
        GdprFilter.steps_setField_eq_ok hDecodes
      have hPurpose : stoull ((q.purpose.map ullText).getD pur) =
          .ok (q.purpose.getD purpose) := by
        cases q.purpose with
        | none => exact hPur
        | some bits => exact stoull_ullText bits
      have hObjection : stoull ((q.objection.map ullText).getD obj) =
          .ok (q.objection.getD objection) := by
        cases q.objection with
        | none => exact hObj
        | some bits => exact stoull_ullText bits
      have hExpiration : stoll ((q.expiration.map fun secs =>
            int64Text (getExpirationTime now secs)).getD exp) =
          .ok ((q.expiration.map (getExpirationTime now)).getD expiration) := by
        cases q.expiration with
        | none => exact hExp
        | some secs => exact stoll_int64Text _
      have hMonitor : ((q.monitor.map flagText).getD mon == lit "1") =
          q.monitor.getD (mon == lit "1") := by
        cases q.monitor with
        | none => rfl
        | some flag => exact flagText_eq_one flag
      simp [putmFields, putmField, steps, GdprFilter.setField,
        MetadataField.ofCount, hPurpose, hObjection, hExpiration, hMonitor,
        putmMetadata, bind, Except.bind, pure, Except.pure]

/-- What a putm makes of a record. -/
theorem putm_text {text : Str} {fields : List Str} {f : GdprFilter}
    (h : RecordText text fields f) (q : Query) (now : Int64) :
    putm text q now = .ok (joinFields bar (putmFields q now 0 fields)
      (putmValue (valuePart text))) := by
  have hPutm := putm_joinFields h.length_eq h.free (valuePart text) q now
  rwa [← h.text_eq] at hPutm

/-- A separator in the value is lost. -/
theorem putmValue_eq_iff (value : Str) : putmValue value = value ↔ bar ∉ value := by
  refine ⟨fun hSame => ?_, putmValue_eq_self⟩
  cases hCut : cut bar value with
  | none => exact cut_eq_none_iff.mp hCut
  | some parts =>
      have hLength := congrArg List.length hSame
      rw [putmValue, hCut, (cut_eq_some_iff.mp hCut).1] at hLength
      simp only [List.length_append, List.length_cons] at hLength
      omega

/-- A putm does what it is asked for: the supplied fields are replaced, the
others and the value are kept, and once more makes no difference. -/
def PutmExact (text : Str) (f : GdprFilter) (q : Query) (now : Int64) : Prop :=
  ∃ newText, putm text q now = .ok newText ∧
    GdprFilter.ofValue (some newText) =
      .ok { putmMetadata f.toMetadata q now with valid := true } ∧
    valuePart newText = valuePart text ∧ putm newText q now = .ok newText

/-- **A putm changes the supplied metadata and nothing else** exactly on the
records whose value holds no separator: the loop reads nine fields where the
filter reads eight, and puts no separator back behind the ninth. -/
theorem putm_exact_iff {text : Str} {f : GdprFilter}
    (hText : GdprFilter.ofValue (some text) = .ok f) (hSupplied : SuppliedClean q)
    (now : Int64) : PutmExact text f q now ↔ bar ∉ valuePart text := by
  obtain ⟨fields, hFields⟩ := exists_recordText hText
  have hLength : (putmFields q now 0 fields).length = 8 := by
    rw [length_putmFields, hFields.length_eq]
  have hNew := RecordText.of_joinFields hLength
    (bar_not_mem_putmFields hSupplied now hFields.free 0)
    (steps_putmFields hFields q now)
  rw [← putmValue_eq_iff]
  constructor
  · rintro ⟨newText, hPutm, -, hValue, -⟩
    rw [putm_text hFields, Except.ok.injEq] at hPutm
    rwa [← hPutm, (hNew _).2] at hValue
  · intro hSame
    have hPutm := putm_text hFields q now
    rw [hSame] at hPutm
    obtain ⟨hRecord, hValue⟩ := hNew (valuePart text)
    refine ⟨_, hPutm, hRecord.ofValue_joinFields _, hValue, ?_⟩
    rw [putm_text hRecord, putmFields_putmFields, hValue, hSame]

/-- Sharing a record whose value is `A|B` turns the value into `AB`. -/
theorem putm_drops_separator :
    ∃ f, GdprFilter.ofValue (some (lit "alice|0|2|0|home|0||1|A|B")) = .ok f ∧
      SuppliedClean { cmd := lit "putm", share := some (lit "bob") } ∧
      putm (lit "alice|0|2|0|home|0||1|A|B")
          { cmd := lit "putm", share := some (lit "bob") } 0 =
        .ok (lit "alice|0|2|0|home|0|bob|1|AB") ∧
      ¬ PutmExact (lit "alice|0|2|0|home|0||1|A|B") f
        { cmd := lit "putm", share := some (lit "bob") } 0 := by
  have hPutm : putm (lit "alice|0|2|0|home|0||1|A|B")
      { cmd := lit "putm", share := some (lit "bob") } 0 =
        .ok (lit "alice|0|2|0|home|0|bob|1|AB") := by
    decide +kernel
  refine ⟨{ userKey := lit "alice", purpose := 2, origin := lit "home",
            monitor := true, valid := true },
    by decide +kernel, ⟨by decide, by decide, by decide⟩, hPutm, ?_⟩
  rintro ⟨newText, hNew, -, hValue, -⟩
  rw [hPutm, Except.ok.injEq] at hNew
  rw [← hNew] at hValue
  exact absurd hValue (by decide +kernel)

/-- The same with the value `A`. -/
theorem putm_exact_plain :
    PutmExact (lit "alice|0|2|0|home|0||1|A")
        { userKey := lit "alice", purpose := 2, origin := lit "home",
          monitor := true, valid := true }
        { cmd := lit "putm", share := some (lit "bob") } 0 ↔
      bar ∉ valuePart (lit "alice|0|2|0|home|0||1|A") := by
  refine putm_exact_iff (by decide +kernel) ⟨?_, ?_, ?_⟩ 0 <;> decide

end QueryRewriter

/-! ## Updates -/

namespace QueryRewriter

/-- The old value goes completely if it holds no separator, and only then. -/
theorem updateValue_eq_iff (value : Str) :
    (∀ v, updateValue value v = v) ↔ bar ∉ value := by
  refine ⟨fun hNew => ?_, fun h v => updateValue_eq_self h v⟩
  have hNil := hNew []
  cases hCut : cutLast bar value with
  | none => exact cutLast_eq_none_iff.mp hCut
  | some parts => simp [updateValue, hCut] at hNil

theorem update_text {text : Str} {fields : List Str} {f : GdprFilter}
    (h : RecordText text fields f) (v : Str) :
    update text v = metadataPart text ++ updateValue (valuePart text) v := by
  obtain ⟨front, last, rfl⟩ := h.exists_front
  rw [h.metadata_append, ← update_joinFields, ← h.text_eq]

/-- **An update leaves nothing of the old value behind** exactly if the old
value holds no separator; otherwise all up to its last one stays.  Two records
with the same metadata are the same after it where neither value holds one. -/
theorem update_replaces_iff {text text' : Str} {f f' : GdprFilter}
    (hText : GdprFilter.ofValue (some text) = .ok f)
    (hText' : GdprFilter.ofValue (some text') = .ok f')
    (hSame : metadataPart text = metadataPart text') :
    (∀ v, update text v = metadataPart text ++ v ∧
      update text' v = metadataPart text ++ v) ↔
      bar ∉ valuePart text ∧ bar ∉ valuePart text' := by
  obtain ⟨fields, hFields⟩ := exists_recordText hText
  obtain ⟨fields', hFields'⟩ := exists_recordText hText'
  simp only [update_text hFields, update_text hFields', ← hSame,
    List.append_cancel_left_eq, forall_and, updateValue_eq_iff]

/-- An update with `new` of a record with the value `secret|x`. -/
theorem update_keeps_secret :
    ∃ f, GdprFilter.ofValue
        (some (lit "alice|0|2|0|home|0||1|secret|x")) = .ok f ∧
      GdprFilter.ofValue (some (lit "alice|0|2|0|home|0||1|x")) = .ok f ∧
      metadataPart (lit "alice|0|2|0|home|0||1|secret|x") =
        metadataPart (lit "alice|0|2|0|home|0||1|x") ∧
      update (lit "alice|0|2|0|home|0||1|secret|x") (lit "new") =
        lit "alice|0|2|0|home|0||1|secret|new" ∧
      update (lit "alice|0|2|0|home|0||1|secret|x") (lit "new") ≠
        update (lit "alice|0|2|0|home|0||1|x") (lit "new") := by
  refine ⟨{ userKey := lit "alice", purpose := 2, origin := lit "home",
            monitor := true, valid := true }, ?_⟩
  decide +kernel

theorem update_replaces_plain :
    (∀ v, update (lit "alice|0|2|0|home|0||1|x") v =
        metadataPart (lit "alice|0|2|0|home|0||1|x") ++ v ∧
      update (lit "alice|0|2|0|home|0||1|") v =
        metadataPart (lit "alice|0|2|0|home|0||1|x") ++ v) ↔
      bar ∉ valuePart (lit "alice|0|2|0|home|0||1|x") ∧
        bar ∉ valuePart (lit "alice|0|2|0|home|0||1|") := by
  have hText : ∀ text ∈ [lit "alice|0|2|0|home|0||1|x",
      lit "alice|0|2|0|home|0||1|"],
      GdprFilter.ofValue (some text) =
        .ok { userKey := lit "alice", purpose := 2, origin := lit "home",
              monitor := true, valid := true } := by
    decide +kernel
  exact update_replaces_iff (hText _ (by simp)) (hText _ (by simp))
    (by decide +kernel)

end QueryRewriter

/-! ## Metadata replies -/

/-- What a metadata reply shows of a value: everything up to its last
separator. -/
def shownPart (value : Str) : Str :=
  match cutLast bar value with
  | some (front, _) => front ++ [bar]
  | none => []

theorem shownPart_of_not_mem {value : Str} (h : bar ∉ value) :
    shownPart value = [] := by
  rw [shownPart, cutLast_eq_none_iff.mpr h]

theorem preserveOnlyGdprMetadata_text {text : Str} {fields : List Str}
    {f : GdprFilter} (h : RecordText text fields f) :
    preserveOnlyGdprMetadata text =
      metadataPart text ++ shownPart (valuePart text) := by
  obtain ⟨front, last, rfl⟩ := h.exists_front
  have hText := h.text_eq
  rw [joinFields_concat] at hText
  rw [h.metadata_append, joinFields_concat, shownPart]
  cases hCut : cutLast bar (valuePart text) with
  | none =>
      have hWhole := cutLast_append (joinFields bar front [] ++ last)
        (cutLast_eq_none_iff.mp hCut)
      rw [← hText] at hWhole
      rw [preserveOnlyGdprMetadata, hWhole]
      by_cases hNil : valuePart text = []
      · rw [hNil] at hText
        simp only [hNil, if_true, ← hText]
      · simp only [if_neg hNil]
  | some parts =>
      obtain ⟨head, back⟩ := parts
      obtain ⟨hValue, hBack⟩ := cutLast_eq_some_iff.mp hCut
      rw [hValue] at hText
      have hShape : text = ((joinFields bar front [] ++ last) ++ bar :: head) ++
          bar :: back := by
        rw [hText]
        simp
      have hWhole := cutLast_append
        ((joinFields bar front [] ++ last) ++ bar :: head) hBack
      rw [← hShape] at hWhole
      rw [preserveOnlyGdprMetadata, hWhole]
      by_cases hNil : back = []
      · rw [hNil] at hShape
        simp [hNil, hShape]
      · simp [hNil]

/-- The filter looks at the metadata part alone. -/
theorem ofValue_congr {text text' : Str}
    (h : metadataPart text = metadataPart text') :
    GdprFilter.ofValue (some text) = GdprFilter.ofValue (some text') := by
  have hScanned : ∀ text, GdprFilter.ofValue (some text) =
      ((scan bar GdprFilter.setField metadataPrefixFields 0 text
        { valid := true }).map fun result => (result.1, result.2.2)) >>=
        fun result => if result.1 ≠ metadataPrefixFields then
          .error (.invalidArgument (lit "Invalid GDPR metadata format"))
        else .ok result.2 := by
    intro text
    rw [GdprFilter.ofValue]
    cases scan bar GdprFilter.setField metadataPrefixFields 0 text
      { valid := true } <;> rfl
  rw [hScanned, hScanned, scan_congr GdprFilter.setField h 0]

/-- The filter grants the request on this record. -/
def GrantedOn (text : Str) (q : Query) (p : DefaultPolicy) (now : Int64) : Prop :=
  ∃ f, GdprFilter.ofValue (some text) = .ok f ∧ f.validate q p now = true

section Getm

variable {σ : Type} {env : Environment σ} {view : σ → Store}

/-- The reply of `handleGetMetadata`, or the exception it ends with. -/
def getmReply (env : Environment σ) (q : Query) (p : DefaultPolicy) (r : Readings)
    (w : World σ) : Except Exn Str :=
  ((handleGetMetadata q p r).run (World.exec env r) w).1

/-- The reply follows the plan for the record that was read. -/
private theorem getmReply_eq (hReads : env.client.Reads view) (q : Query)
    (p : DefaultPolicy) (r : Readings) (w : World σ) :
    getmReply env q p r w =
      (plan .getm q p r (view w.kv q.key)).map fun pl =>
        pl.outcome env.client r.iv q.key w.kv := by
  have hRead : ∀ next : Option Str → Handler Str,
      (KeyCommand.getm.read q.key next).run (World.exec env r) w =
        (next (view w.kv q.key)).run (World.exec env r) w := by
    intro next
    simp [KeyCommand.read, World.exec, hReads.getm]
  rw [getmReply, handleGetMetadata_eq, hRead]
  exact World.run_follow env r _ q p w

/-- A granted getm answers the metadata and what it shows of the value. -/
theorem getmReply_granted (hReads : env.client.Reads view) {q : Query}
    {p : DefaultPolicy} {r : Readings} {w : World σ} {text : Str}
    (hText : view w.kv q.key = some text)
    (hGranted : GrantedOn text q p r.validateTime) :
    getmReply env q p r w =
      .ok (metadataPart text ++ shownPart (valuePart text)) := by
  obtain ⟨f, hFilter, hValid⟩ := hGranted
  obtain ⟨fields, hFields⟩ := exists_recordText hFilter
  rw [getmReply_eq hReads, hText, plan_granted hFilter hValid,
    ← preserveOnlyGdprMetadata_text hFields]
  rfl

/-- Any other getm answers the same for records with the same metadata. -/
theorem getmReply_congr (hReads : env.client.Reads view) {q : Query}
    {p : DefaultPolicy} {r : Readings} {w w' : World σ} {text text' : Str}
    (hText : view w.kv q.key = some text)
    (hText' : view w'.kv q.key = some text')
    (hSame : metadataPart text = metadataPart text')
    (hDenied : ¬ GrantedOn text q p r.validateTime) :
    getmReply env q p r w = getmReply env q p r w' := by
  rw [getmReply_eq hReads, getmReply_eq hReads, hText, hText']
  have hFilter' := ofValue_congr hSame
  cases hFilter : GdprFilter.ofValue (some text) with
  | error e =>
      rw [hFilter] at hFilter'
      rw [plan_error hFilter, plan_error hFilter'.symm]
      rfl
  | ok f =>
      rw [hFilter] at hFilter'
      cases hValid : f.validate q p r.validateTime with
      | true => exact absurd ⟨f, hFilter, hValid⟩ hDenied
      | false =>
          rw [plan_denied hFilter hValid, plan_denied hFilter'.symm hValid]
          rfl

/-- **A getm does not tell values apart**: on two stores whose records for the
key have the same metadata, whatever else they hold, it answers the same
exactly if it is not granted or the values agree up to their last separator. -/
theorem getm_oblivious_iff (hReads : env.client.Reads view) (q : Query)
    (p : DefaultPolicy) (r : Readings) {w w' : World σ} {text text' : Str}
    (hText : view w.kv q.key = some text)
    (hText' : view w'.kv q.key = some text')
    (hSame : metadataPart text = metadataPart text') :
    getmReply env q p r w = getmReply env q p r w' ↔
      ¬ GrantedOn text q p r.validateTime ∨
        shownPart (valuePart text) = shownPart (valuePart text') := by
  by_cases hGranted : GrantedOn text q p r.validateTime
  · have hGranted' : GrantedOn text' q p r.validateTime := by
      rwa [GrantedOn, ← ofValue_congr hSame]
    rw [getmReply_granted hReads hText hGranted,
      getmReply_granted hReads hText' hGranted', hSame]
    simp only [Except.ok.injEq, List.append_cancel_left_eq, hGranted,
      not_true_eq_false, false_or]
  · exact iff_of_true (getmReply_congr hReads hText hText' hSame hGranted)
      (.inl hGranted)

/-- Alice's getm of her record with the value `secret|x`, against one with the
value `x`. -/
theorem getm_shows_secret :
    metadataPart (lit "alice|0|2|0|home|0||1|secret|x") =
        metadataPart (lit "alice|0|2|0|home|0||1|x") ∧
      getmReply (mapEnv true none ⟨lit "logs", none⟩)
          { cmd := lit "getm", key := lit "k" } alicePolicy (.constant 0)
          ⟨fun _ => some (lit "alice|0|2|0|home|0||1|secret|x"), []⟩ =
        .ok (lit "alice|0|2|0|home|0||1|secret|") ∧
      getmReply (mapEnv true none ⟨lit "logs", none⟩)
          { cmd := lit "getm", key := lit "k" } alicePolicy (.constant 0)
          ⟨fun _ => some (lit "alice|0|2|0|home|0||1|x"), []⟩ ≠
        .ok (lit "alice|0|2|0|home|0||1|secret|") := by
  decide +kernel

theorem getm_oblivious_plain :
    getmReply (mapEnv true none ⟨lit "logs", none⟩)
        { cmd := lit "getm", key := lit "k" } alicePolicy (.constant 0)
        ⟨fun _ => some (lit "alice|0|2|0|home|0||1|x"), []⟩ =
      getmReply (mapEnv true none ⟨lit "logs", none⟩)
        { cmd := lit "getm", key := lit "k" } alicePolicy (.constant 0)
        ⟨fun _ => some (lit "alice|0|2|0|home|0||1|"), []⟩ ↔
      ¬ GrantedOn (lit "alice|0|2|0|home|0||1|x")
          { cmd := lit "getm", key := lit "k" } alicePolicy 0 ∨
        shownPart (valuePart (lit "alice|0|2|0|home|0||1|x")) =
          shownPart (valuePart (lit "alice|0|2|0|home|0||1|")) :=
  getm_oblivious_iff (KvClient.reads_mapClient true none) _ alicePolicy
    (.constant 0) rfl rfl (by decide +kernel)

end Getm

end GDPRuler.Controller
