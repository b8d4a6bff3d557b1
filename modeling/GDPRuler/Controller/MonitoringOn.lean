import GDPRuler.Controller.History
import GDPRuler.Controller.Ownership
import GDPRuler.Controller.ValueParts

/-!
# Turning monitoring on

A monitor is built before the write it reports.  For an existing record it
goes by the flag the record has, for a new one by the query and the policy.
A third constructor, made for `putm`, also looks for `monitor("true")`, but
`handle_put_metadata` builds its monitor with the first.

So a put or putm that leaves a monitored record behind is logged unless the
request itself switched the flag on (`monitoring_recorded`).  With texts that
hold no `'|'` the only way to do that is a granted putm with `monitor("true")`
on a record that is not monitored (`switchesOn_iff`).
-/

namespace GDPRuler.Controller

open GDPRuler.Verified GDPRuler.Verified.Delim

/-- The monitor made for `putm`, which nobody builds. -/
def GdprMonitor.ofPutm (f : GdprFilter) (q : Query) (p : DefaultPolicy) :
    GdprMonitor :=
  ⟨q, p, if !f.checkMonitoring && q.monitor.getD false
    then q.monitor.getD false else f.checkMonitoring⟩

/-- It would log every putm that leaves the flag set. -/
theorem GdprMonitor.monitorNeeded_ofPutm (f : GdprFilter) (q : Query)
    (p : DefaultPolicy) (now : Int64)
    (h : (QueryRewriter.putmMetadata f.toMetadata q now).monitor = true) :
    (ofPutm f q p).monitorNeeded = true := by
  rw [QueryRewriter.putmMetadata] at h
  rw [ofPutm, GdprFilter.checkMonitoring]
  cases hFlag : f.monitor with
  | true => rfl
  | false =>
      rw [hFlag] at h
      cases hQuery : q.monitor with
      | none => simp [hQuery] at h
      | some flag => simpa [hQuery] using h

/-! ## The flag of a record -/

/-- The text the filter takes for the flag of a record joined from `fields`. -/
def flagPiece (fields : List Str) : Option Str := (pieces bar fields)[7]?

theorem asksMonitoring_of_ofValue {record : Str} {f : GdprFilter}
    (h : GdprFilter.ofValue (some record) = .ok f) :
    asksMonitoring record = f.monitor := by
  rw [asksMonitoring, h]
  rfl

/-- A record asks for monitoring only if its eighth piece is `1`. -/
theorem flagPiece_of_asksMonitoring {fields : List Str} {value : Str}
    (hLength : fields.length = 8)
    (h : asksMonitoring (joinFields bar fields value) = true) :
    flagPiece fields = some (lit "1") := by
  have hPieces : 8 ≤ (pieces bar fields).length :=
    hLength ▸ length_le_length_pieces bar fields
  have hText : joinFields bar fields value =
      joinFields bar ((pieces bar fields).take 8)
        (joinFields bar ((pieces bar fields).drop 8) value) := by
    rw [← joinFields_append, List.take_append_drop, joinFields_pieces]
  have hTake : ((pieces bar fields).take 8).length = 8 := by
    rw [List.length_take]
    omega
  have hScan := scan_joinFields GdprFilter.setField
    ((pieces bar fields).take 8)
    (fun piece hMem => not_mem_of_mem_pieces (List.mem_of_mem_take hMem)) 0 0
    (joinFields bar ((pieces bar fields).drop 8) value) { valid := true }
  rw [hTake] at hScan
  have hCount : metadataPrefixFields = 8 + 0 := rfl
  rw [hText, asksMonitoring, GdprFilter.ofValue, hCount, hScan] at h
  have hFlag : flagPiece fields = ((pieces bar fields).take 8)[7]? := by
    rw [flagPiece, List.getElem?_take_of_lt (by decide)]
  rw [hFlag]
  rcases hFields : (pieces bar fields).take 8 with
    _ | ⟨user, _ | ⟨encr, _ | ⟨pur, _ | ⟨obj, _ | ⟨org, _ | ⟨exp, _ | ⟨shr,
      _ | ⟨mon, _ | ⟨more, rest⟩⟩⟩⟩⟩⟩⟩⟩⟩
  case cons.cons.cons.cons.cons.cons.cons.cons.nil =>
    rw [hFields] at h
    cases hSteps : steps GdprFilter.setField 0
        [user, encr, pur, obj, org, exp, shr, mon] { valid := true } with
    | error e =>
        rw [hSteps] at h
        cases h
    | ok f =>
        rw [hSteps] at h
        obtain ⟨_, _, _, _, _, _, rfl⟩ :=
          GdprFilter.steps_setField_eq_ok hSteps
        have hMon : (mon == lit "1") = true := h
        exact congrArg some (by simpa using hMon)
  all_goals
    rw [hFields] at hTake
    simp at hTake

/-- An update keeps the flag. -/
theorem asksMonitoring_update {record : Str} {f : GdprFilter}
    (h : GdprFilter.ofValue (some record) = .ok f) (v : Str) :
    asksMonitoring (QueryRewriter.update record v) = f.monitor := by
  obtain ⟨fields, hFields⟩ := exists_recordText h
  rw [QueryRewriter.update_text hFields, hFields.metadata_append]
  exact asksMonitoring_of_ofValue (hFields.ofValue_joinFields _)

/-! ## Requests that switch the flag on -/

section Switching

variable {σ : Type} (view : σ → Store) (req : Request) (w : World σ)

/-- The request writes a set flag where its monitor found none. -/
inductive SwitchesOn : Prop
  | creates (hPut : KeyCommand.ofText req.query.cmd = some .put)
      (hAbsent : view w.kv req.query.key = none)
      (hMonitor : req.query.monitor.getD req.policy.monitor = false)
      (hFlag : flagPiece (QueryRewriter.insertMetadata req.query req.policy
        req.readings.rewriteTime).fields = some (lit "1"))
  | updates (hPutm : KeyCommand.ofText req.query.cmd = some .putm)
      (record : Str) (fields : List Str) (f : GdprFilter)
      (hRecord : view w.kv req.query.key = some record)
      (hText : RecordText record fields f)
      (hGranted : f.validate req.query req.policy
        req.readings.validateTime = true)
      (hMonitor : f.monitor = false)
      (hFlag : flagPiece (QueryRewriter.putmFields req.query
        req.readings.rewriteTime 0 fields) = some (lit "1"))

/-- A granted putm with `monitor("true")` on a record that is not monitored. -/
def AsksForMonitoring : Prop :=
  KeyCommand.ofText req.query.cmd = some .putm ∧
    req.query.monitor = some true ∧
      ∃ record f, view w.kv req.query.key = some record ∧
        GdprFilter.ofValue (some record) = .ok f ∧
          f.validate req.query req.policy req.readings.validateTime = true ∧
            f.monitor = false

variable {view req w}

/-- The flag a first put writes, and the one a putm writes, when none of the
texts they are given holds a separator. -/
private theorem flagPiece_insert
    (hClean : QueryRewriter.InsertClean req.query req.policy) (now : Int64) :
    flagPiece (QueryRewriter.insertMetadata req.query req.policy now).fields =
      some (flagText (req.query.monitor.getD req.policy.monitor)) := by
  rw [flagPiece, pieces_of_forall (hClean.metadata now).fields]
  rfl

private theorem flagPiece_putm {record : Str} {fields : List Str}
    {f : GdprFilter} (hText : RecordText record fields f)
    (hClean : QueryRewriter.SuppliedClean req.query)
    (hMonitor : f.monitor = false) (now : Int64) :
    flagPiece (QueryRewriter.putmFields req.query now 0 fields) =
        some (lit "1") ↔ req.query.monitor = some true := by
  rw [flagPiece, pieces_of_forall
    (QueryRewriter.bar_not_mem_putmFields hClean now hText.free 0)]
  obtain ⟨-, -, hLength, -, hDecodes⟩ := hText
  match fields, hLength with
  | [user, encr, pur, obj, org, exp, shr, mon], _ =>
      obtain ⟨_, _, _, _, _, _, rfl⟩ := GdprFilter.steps_setField_eq_ok hDecodes
      have hMon : mon ≠ lit "1" := by simpa using hMonitor
      show some ((req.query.monitor.map flagText).getD mon) = some (lit "1") ↔ _
      cases req.query.monitor with
      | none => simpa using hMon
      | some flag =>
          show some (flagText flag) = some (lit "1") ↔ some flag = some true
          cases flag <;> decide

/-- Without separators in the texts of query and policy the flag is switched
on by asking for it, and in no other way. -/
theorem switchesOn_iff (hQuery : QueryRewriter.SuppliedClean req.query)
    (hPolicy : QueryRewriter.InsertClean req.query req.policy) :
    SwitchesOn view req w ↔ AsksForMonitoring view req w := by
  constructor
  · intro h
    cases h with
    | creates hPut hAbsent hMonitor hFlag =>
        rw [flagPiece_insert hPolicy, hMonitor] at hFlag
        exact absurd hFlag (by decide)
    | updates hPutm record fields f hRecord hText hGranted hMonitor hFlag =>
        have hAsked := (flagPiece_putm hText hQuery hMonitor _).mp hFlag
        refine ⟨hPutm, hAsked, record, f, hRecord, ?_, hGranted, hMonitor⟩
        have hValue := hText.ofValue_joinFields (valuePart record)
        rwa [← hText.text_eq] at hValue
  · rintro ⟨hPutm, hAsked, record, f, hRecord, hValue, hGranted, hMonitor⟩
    obtain ⟨fields, hText⟩ := exists_recordText hValue
    exact .updates hPutm record fields f hRecord hText hGranted hMonitor
      ((flagPiece_putm hText hQuery hMonitor _).mpr hAsked)

end Switching

/-! ## What is recorded -/

section Recording

variable {σ : Type} (env : Environment σ) (view : σ → Store)

/-- A put or putm that the filter grants, or a put that creates a record. -/
def ValidWrite (req : Request) (w : World σ) : Prop :=
  ∃ c, KeyCommand.ofText req.query.cmd = some c ∧ (c = .put ∨ c = .putm) ∧
    match view w.kv req.query.key with
    | none => c = .put
    | some record => ∃ f, GdprFilter.ofValue (some record) = .ok f ∧
        f.validate req.query req.policy req.readings.validateTime = true

/-- The request calls the logger once about its key, and the files are as that
call leaves them. -/
def LoggedOnce (req : Request) (w : World σ) : Prop :=
  ∃ valid newVal,
    (World.operations env req w).filterMap
        (LoggedCall.ofStep req.query.key req.readings) =
      [⟨req.readings.log, effectiveUserKey req.query req.policy,
        req.query.cmd, valid, newVal⟩] ∧
    (World.serve env req w).2.logs =
      logEncodedQuery env.log req.readings.log req.query req.policy valid
        newVal w.logs

/-- If the request leaves a monitored record, it is logged. -/
def Recorded (w : World σ) (req : Request) : Prop :=
  ValidWrite view req w →
    ∀ record, view (World.serve env req w).2.kv req.query.key = some record →
      asksMonitoring record = true → LoggedOnce env req w

variable {env view} {req : Request} {w : World σ} {c : KeyCommand}

/-- A plan with an entry is logged. -/
private theorem loggedOnce_of_entry (hSound : env.client.Sound view)
    (hCommand : KeyCommand.ofText req.query.cmd = some c) {pl : Plan}
    (hPlan : plan c req.query req.policy req.readings
      (view w.kv req.query.key) = .ok pl) {valid : Bool} {newVal : Str}
    (hEntry : pl.entry = some (valid, newVal)) : LoggedOnce env req w := by
  refine ⟨valid, newVal, ?_, ?_⟩
  · rw [Watch.calls_eq (s := { world := w }) hSound hCommand hPlan, if_pos rfl,
      hEntry]
    rfl
  · rw [Watch.serve_logs (s := { world := w }) hSound hCommand hPlan,
      Plan.logs, hEntry]

/-- The record after a plan that writes `new`: that, or the one before. -/
private theorem record_after (hSound : env.client.Sound view)
    (hCommand : KeyCommand.ofText req.query.cmd = some c) {pl : Plan}
    (hPlan : plan c req.query req.policy req.readings
      (view w.kv req.query.key) = .ok pl) {write : Write} {failed new : Str}
    (hWrite : pl.write = some (write, failed)) (hNew : write.record = some new)
    {record : Str}
    (hAfter : view (World.serve env req w).2.kv req.query.key = some record) :
    record = new ∨ view w.kv req.query.key = some record := by
  rw [Watch.serve_view (s := { world := w }) hSound hCommand hPlan, hWrite]
    at hAfter
  simp only [Option.map_some, Option.getD_some, written, hNew] at hAfter
  split at hAfter
  · rw [Function.update_self, Option.some.injEq] at hAfter
    exact .inl hAfter.symm
  · exact .inr hAfter

/-- A put that creates a record. -/
private theorem recorded_created (hSound : env.client.Sound view)
    (h : ¬ SwitchesOn view req w)
    (hCommand : KeyCommand.ofText req.query.cmd = some .put)
    (hRecord : view w.kv req.query.key = none) {record : Str}
    (hAfter : view (World.serve env req w).2.kv req.query.key = some record)
    (hAsks : asksMonitoring record = true) : LoggedOnce env req w := by
  have hPlan : plan .put req.query req.policy req.readings
      (view w.kv req.query.key) =
        .ok (absentPlan .put req.query req.policy req.readings) := by
    rw [hRecord]
    rfl
  cases hMonitor : req.query.monitor.getD req.policy.monitor with
  | true =>
      have hEntry : (absentPlan .put req.query req.policy
          req.readings).entry = some (true, QueryRewriter.insert req.query
            req.policy req.query.value req.readings.rewriteTime) := by
        simp only [absentPlan, entryIf, hMonitor, if_true]
      exact loggedOnce_of_entry hSound hCommand hPlan hEntry
  | false =>
      rcases record_after hSound hCommand hPlan rfl rfl hAfter with rfl | hOld
      · rw [QueryRewriter.insert_eq, Metadata.encode] at hAsks
        exact absurd (.creates hCommand hRecord hMonitor
          (flagPiece_of_asksMonitoring rfl hAsks)) h
      · rw [hRecord] at hOld
        cases hOld

/-- A granted put or putm on a record that is not monitored: the record it
leaves is not monitored either, unless the request switched the flag on. -/
private theorem asksMonitoring_after (hSound : env.client.Sound view)
    (h : ¬ SwitchesOn view req w)
    (hCommand : KeyCommand.ofText req.query.cmd = some c)
    (hKind : c = .put ∨ c = .putm) {old : Str}
    (hRecord : view w.kv req.query.key = some old) {f : GdprFilter}
    (hValue : GdprFilter.ofValue (some old) = .ok f)
    (hGranted : f.validate req.query req.policy
      req.readings.validateTime = true) (hMonitor : f.monitor = false)
    {pl : Plan} (hPl : grantedPlan c req.query req.readings f old = .ok pl)
    {record : Str}
    (hAfter : view (World.serve env req w).2.kv req.query.key = some record) :
    asksMonitoring record = false := by
  have hPlan : plan c req.query req.policy req.readings
      (view w.kv req.query.key) = .ok pl := by
    rw [hRecord, plan_granted hValue hGranted, hPl]
  have hOldFlag : asksMonitoring old = false :=
    (asksMonitoring_of_ofValue hValue).trans hMonitor
  have hSame : view w.kv req.query.key = some record →
      asksMonitoring record = false := by
    intro hOld
    rw [hRecord, Option.some.injEq] at hOld
    exact hOld ▸ hOldFlag
  rcases hKind with rfl | rfl
  · cases hPl
    rcases record_after hSound hCommand hPlan rfl rfl hAfter with rfl | hOld
    · rw [asksMonitoring_update hValue, hMonitor]
    · exact hSame hOld
  · obtain ⟨fields, hText⟩ := exists_recordText hValue
    have hPutm := QueryRewriter.putm_text hText req.query
      req.readings.rewriteTime
    simp only [grantedPlan, hPutm, bind, Except.bind, pure, Except.pure,
      Except.ok.injEq] at hPl
    subst hPl
    rcases record_after hSound hCommand hPlan rfl rfl hAfter with rfl | hOld
    · have hLength : (QueryRewriter.putmFields req.query
          req.readings.rewriteTime 0 fields).length = 8 := by
        rw [QueryRewriter.length_putmFields, hText.length_eq]
      by_contra hAsks
      rw [Bool.not_eq_false] at hAsks
      exact h (.updates hCommand old fields f hRecord hText hGranted hMonitor
        (flagPiece_of_asksMonitoring hLength hAsks))
    · exact hSame hOld

/-- **The step.** A request that does not switch the flag on is logged if it
leaves a monitored record. -/
theorem recorded_of_not_switchesOn (hSound : env.client.Sound view)
    (h : ¬ SwitchesOn view req w) : Recorded env view w req := by
  rintro ⟨c, hCommand, hKind, hValid⟩ record hAfter hAsks
  cases hRecord : view w.kv req.query.key with
  | none =>
      rw [hRecord] at hValid
      obtain rfl : c = .put := hValid
      exact recorded_created hSound h hCommand hRecord hAfter hAsks
  | some old =>
      rw [hRecord] at hValid
      obtain ⟨f, hValue, hGranted⟩ := hValid
      obtain ⟨pl, hPl⟩ := grantedPlan_ok c req.query req.readings f old
      cases hMonitor : f.monitor with
      | true =>
          have hPlan : plan c req.query req.policy req.readings
              (view w.kv req.query.key) = .ok pl := by
            rw [hRecord, plan_granted hValue hGranted, hPl]
          obtain ⟨newVal, hEntry, -, -⟩ := grantedPlan_entry hMonitor hPl
          exact loggedOnce_of_entry hSound hCommand hPlan hEntry
      | false =>
          have hFlag := asksMonitoring_after hSound h hCommand hKind hRecord
            hValue hGranted hMonitor hPl hAfter
          rw [hFlag] at hAsks
          cases hAsks

end Recording

/-! ## Two runs -/

/-- A request of the owner, who does not want to be monitored. -/
def aliceAsks (cmd : Str) (monitor : Option Bool) : Request :=
  ⟨{ cmd := cmd, key := lit "k", value := lit "VAL", monitor := monitor },
    { alicePolicy with monitor := false }, Readings.constant 0⟩

/-- A database without records. -/
def emptyFlaky : World Flaky := ⟨(fun _ => none, []), []⟩

private theorem aliceAsks_clean (cmd : Str) (monitor : Option Bool) :
    QueryRewriter.SuppliedClean (aliceAsks cmd monitor).query ∧
      QueryRewriter.InsertClean (aliceAsks cmd monitor).query
        (aliceAsks cmd monitor).policy := by
  have hNone : ∀ text ∈ (none : Option Str), bar ∉ text := by simp
  refine ⟨⟨hNone, hNone, hNone⟩, ?_, ?_, ?_⟩
  · show bar ∉ lit "alice"
    decide
  · show bar ∉ lit "home"
    decide
  · exact List.not_mem_nil

end GDPRuler.Controller
