import GDPRuler.Controller.Audit

/-!
# The log as a history

The entries of a monitored key can be replayed: a valid put or putm sets the
record to its new value, a valid deletion removes it, and every other entry
changes nothing.

The handlers log a request before they carry it out, and they log the filter's
verdict, not the store's answer.  So the log is ahead of the store after a
write that failed, and in step with it again after the next one that did not:
replaying gives the record in the store or, if the last logged write failed,
the record that write was to leave (`log_replays`).
-/

namespace GDPRuler.Controller

open GDPRuler.Verified

variable {σ : Type}

/-! ## Stores whose writes may fail -/

/-- The record a write is to leave. -/
def Write.record : Write → Option Str
  | put value => some value
  | del => none
  | putm value => some value

/-- The records after a write that reported `ok`: a failed one changes
nothing. -/
def written (ok : Bool) (records : Store) (key : Str) (record : Option Str) :
    Store :=
  if ok then Function.update records key record else records

/-- A client that reads the records `view`, and each of whose writes takes
effect or fails, and says which. -/
structure KvClient.Sound (client : KvClient σ) (view : σ → Store) : Prop
    extends KvClient.Reads client view where
  put : ∀ iv key value s, view (client.gdprPut iv key value s).2 =
    written (client.gdprPut iv key value s).1 (view s) key (some value)
  del : ∀ key s, view (client.gdprDel key s).2 =
    written (client.gdprDel key s).1 (view s) key none
  putm : ∀ iv key value s, view (client.gdprPutm iv key value s).2 =
    written (client.gdprPutm iv key value s).1 (view s) key (some value)

theorem KvClient.Sound.apply {client : KvClient σ} {view : σ → Store}
    (h : client.Sound view) (iv key : Str) (write : Write) (s : σ) :
    view (write.apply client iv key s).2 =
      written (write.apply client iv key s).1 (view s) key write.record := by
  cases write with
  | put value => exact h.put iv key value s
  | del => exact h.del key s
  | putm value => exact h.putm iv key value s

/-- A map and the outcomes of its next writes; what lies further ahead
succeeds. -/
abbrev Flaky := Store × List Bool

/-- A write on such a map. -/
def Flaky.write (key : Str) (record : Option Str) (s : Flaky) : Bool × Flaky :=
  match s.2 with
  | [] => (true, (Function.update s.1 key record, []))
  | ok :: rest => (ok, (written ok s.1 key record, rest))

def flakyBackend : KvBackend Flaky where
  get key s := (s.1 key, s)
  put key value := Flaky.write key (some value)
  del key := Flaky.write key none
  getm key s := (s.1 key, s)
  putm key value := Flaky.write key (some value)

/-- The controller on it, in a build without encryption. -/
def flakyEnv (logsDir : Str) : Environment Flaky :=
  ⟨⟨flakyBackend, none⟩, ⟨logsDir, none⟩⟩

theorem flakyEnv_sound (logsDir : Str) :
    (flakyEnv logsDir).client.Sound Prod.fst := by
  have hWrite : ∀ key record (s : Flaky), (Flaky.write key record s).2.1 =
      written (Flaky.write key record s).1 s.1 key record := by
    intro key record s
    obtain ⟨records, outcomes⟩ := s
    cases outcomes <;> rfl
  exact {
    get := fun _ _ => rfl
    getm := fun _ _ => rfl
    put := fun _ key value => hWrite key (some value)
    del := fun key => hWrite key none
    putm := fun _ key value => hWrite key (some value) }

/-! ## Entries -/

/-- One call of `log_encoded_query`. -/
structure LoggedCall where
  readings : LogReadings
  userKey : Str
  cmd : Str
  valid : Bool
  newVal : Str

namespace LoggedCall

/-- What it writes into the file. -/
def bytes (cfg : LogConfig) (call : LoggedCall) : Str :=
  frame ((cfg.seal call.readings.iv
    (encodeLogEntry call.readings.timestamp call.userKey call.cmd call.valid
      call.newVal)).getD [])

/-- The operation, if it is a call of the logger about `key`. -/
def ofStep (key : Str) (r : Readings) : Sigma Op.Res → Option LoggedCall
  | ⟨.logEncodedQuery q p valid newVal, _⟩ =>
      if q.key = key then
        some ⟨r.log, effectiveUserKey q p, q.cmd, valid, newVal⟩
      else none
  | _ => none

/-- The record after an entry. -/
def replay (record : Option Str) (call : LoggedCall) : Option Str :=
  if !call.valid then record
  else
    match convertOperationToEnum call.cmd with
    | .put => some call.newVal
    | .putm => some call.newVal
    | .del => none
    | _ => record

end LoggedCall

/-- The record a log describes. -/
def replay (log : List LoggedCall) : Option Str := log.foldl LoggedCall.replay none

/-- An entry replays to the write it announces. -/
theorem replay_sent (c : KeyCommand) (record : Option Str) (r : LogReadings)
    (userKey : Str) (valid : Bool) (newVal : Str) :
    LoggedCall.replay record ⟨r, userKey, c.text, valid, newVal⟩ =
      ((c.sent valid newVal).map Write.record).getD record := by
  cases valid with
  | false => cases c <;> rfl
  | true => cases c <;> rfl

/-! ## Writes -/

/-- What became of a write. -/
inductive LastWrite
  | done
  | failed (record : Option Str)
  deriving DecidableEq

namespace LastWrite

def ofAnswer (ok : Bool) (record : Option Str) : LastWrite :=
  if ok then done else failed record

/-- The operation, if it is a write at `key`. -/
def ofStep (key : Str) : Sigma Op.Res → Option LastWrite
  | ⟨.gdprPut k value, ok⟩ =>
      if k = key then some (ofAnswer ok (some value)) else none
  | ⟨.gdprDel k, ok⟩ => if k = key then some (ofAnswer ok none) else none
  | ⟨.gdprPutm k value, ok⟩ =>
      if k = key then some (ofAnswer ok (some value)) else none
  | _ => none

/-- The stored record, or the one a failed write was to leave. -/
def intended (stored : Option Str) : LastWrite → Option Str
  | done => stored
  | failed record => record

/-- After a write it is what the write was to leave. -/
theorem intended_ofAnswer (ok : Bool) (records : Store) (key : Str)
    (record : Option Str) :
    (ofAnswer ok record).intended (written ok records key record key) =
      record := by
  cases ok with
  | false => rfl
  | true => exact Function.update_self _ _ _

end LastWrite

/-! ## Watching a key -/

/-- Whether a record asks to be monitored. -/
def asksMonitoring (record : Str) : Bool :=
  match GdprFilter.ofValue (some record) with
  | .ok f => f.checkMonitoring
  | .error _ => false

/-- A run as it concerns one key: the calls of the logger about it, whether it
has been monitored since its creation, and what became of the last write that
was logged. -/
structure Watch (σ : Type) where
  world : World σ
  log : List LoggedCall := []
  monitored : Bool := true
  lastWrite : LastWrite := .done

namespace Watch

variable (env : Environment σ) (view : σ → Store) (key : Str)

/-- Still monitored: the record asks for it, or its creation did. -/
def stillMonitored (req : Request) (before after : Option Str)
    (monitored : Bool) : Bool :=
  match before, after with
  | some record, _ => monitored && asksMonitoring record
  | none, some _ => req.query.monitor.getD req.policy.monitor
  | none, none => monitored

/-- Serve one request. -/
def step (req : Request) (s : Watch σ) : Watch σ :=
  let performed := World.operations env req s.world
  let calls := performed.filterMap (LoggedCall.ofStep key req.readings)
  { world := (World.serve env req s.world).2
    log := s.log ++ calls
    monitored := stillMonitored req (view s.world.kv key)
      (view (World.serve env req s.world).2.kv key) s.monitored
    lastWrite :=
      if calls = [] then s.lastWrite
      else (performed.filterMap (LastWrite.ofStep key)).getLastD s.lastWrite }

/-- Serve requests one after another, until an exception stops the
controller. -/
def run : List Request → Watch σ → Watch σ
  | [], s => s
  | req :: reqs, s =>
      match (World.serve env req s.world).1 with
      | .error _ => step env view key req s
      | .ok _ => run reqs (step env view key req s)

theorem run_world (reqs : List Request) (s : Watch σ) :
    (run env view key reqs s).world = (World.serveAll env reqs s.world).2 := by
  induction reqs generalizing s with
  | nil => rfl
  | cons req reqs ih =>
      rw [run, World.serveAll]
      cases hServe : World.serve env req s.world with
      | mk outcome w' =>
          have hWorld : (step env view key req s).world = w' := by
            rw [step, hServe]
          cases outcome with
          | error e => exact hWorld
          | ok reply =>
              simp only
              rw [ih, hWorld]

/-- **The watching rule.** What every request keeps, a run keeps. -/
theorem run_rule {Inv : Watch σ → Prop}
    (hStep : ∀ req s, Inv s → Inv (step env view key req s))
    (reqs : List Request) {s : Watch σ} (hInv : Inv s) :
    Inv (run env view key reqs s) := by
  induction reqs generalizing s with
  | nil => exact hInv
  | cons req reqs ih =>
      rw [run]
      split
      · exact hStep req s hInv
      · exact ih (hStep req s hInv)

/-- The file holds the entries, and they replay to the record intended. -/
structure Replays (s : Watch σ) : Prop where
  file : (s.world.logs.content (env.log.logFilePath key)).getD [] =
    s.log.flatMap (LoggedCall.bytes env.log)
  record : s.monitored = true →
    replay s.log = s.lastWrite.intended (view s.world.kv key)

variable {env view key} {req : Request} {s : Watch σ}

/-- As long as the record stays, monitoring does not start. -/
theorem monitored_of_unchanged
    (hRecord : view (World.serve env req s.world).2.kv key =
      view s.world.kv key)
    (hMonitored : (step env view key req s).monitored = true) :
    s.monitored = true := by
  simp only [step, hRecord, stillMonitored] at hMonitored
  cases hView : view s.world.kv key with
  | none => simpa only [hView] using hMonitored
  | some record =>
      simp only [hView, Bool.and_eq_true] at hMonitored
      exact hMonitored.1

/-- A request that logs nothing about the key and leaves its file and record
alone. -/
theorem Replays.step_quiet (h : Replays env view key s)
    (hCalls : (World.operations env req s.world).filterMap
      (LoggedCall.ofStep key req.readings) = [])
    (hFile : ((World.serve env req s.world).2.logs.content
        (env.log.logFilePath key)).getD [] =
      (s.world.logs.content (env.log.logFilePath key)).getD [])
    (hRecord : view (World.serve env req s.world).2.kv key =
      view s.world.kv key) :
    Replays env view key (step env view key req s) := by
  have hLog : (step env view key req s).log = s.log := by
    simp only [step, hCalls, List.append_nil]
  have hWrite : (step env view key req s).lastWrite = s.lastWrite := by
    simp only [step, hCalls, if_true]
  refine ⟨?_, fun hMonitored => ?_⟩
  · rw [hLog]
    exact hFile.trans h.file
  · rw [hLog, hWrite, h.record (monitored_of_unchanged hRecord hMonitored)]
    exact congrArg (LastWrite.intended · s.lastWrite) hRecord.symm

/-- A request after which the key is not monitored. -/
theorem Replays.step_unmonitored (h : Replays env view key s)
    (hCalls : (World.operations env req s.world).filterMap
      (LoggedCall.ofStep key req.readings) = [])
    (hFile : ((World.serve env req s.world).2.logs.content
        (env.log.logFilePath key)).getD [] =
      (s.world.logs.content (env.log.logFilePath key)).getD [])
    (hMonitored : (step env view key req s).monitored = false) :
    Replays env view key (step env view key req s) := by
  have hLog : (step env view key req s).log = s.log := by
    simp only [step, hCalls, List.append_nil]
  refine ⟨?_, fun hYes => ?_⟩
  · rw [hLog]
    exact hFile.trans h.file
  · rw [hMonitored] at hYes
    cases hYes

/-- A request that logs one entry, the announcement of its write. -/
theorem Replays.step_logged (h : Replays env view key s) (c : KeyCommand)
    (valid : Bool) (newVal : Str)
    (hCalls : (World.operations env req s.world).filterMap
        (LoggedCall.ofStep key req.readings) =
      [⟨req.readings.log, effectiveUserKey req.query req.policy, c.text, valid,
        newVal⟩])
    (hFile : ((World.serve env req s.world).2.logs.content
        (env.log.logFilePath key)).getD [] =
      (s.world.logs.content (env.log.logFilePath key)).getD [] ++
        LoggedCall.bytes env.log ⟨req.readings.log,
          effectiveUserKey req.query req.policy, c.text, valid, newVal⟩)
    (hBefore : c.sent valid newVal = none →
      (step env view key req s).monitored = true → s.monitored = true)
    (hWrite : ∃ ok : Bool, (World.operations env req s.world).filterMap
          (LastWrite.ofStep key) =
        ((c.sent valid newVal).map fun write =>
          LastWrite.ofAnswer ok write.record).toList ∧
      view (World.serve env req s.world).2.kv key =
        (((c.sent valid newVal).map fun write =>
          written ok (view s.world.kv) key write.record).getD
            (view s.world.kv)) key) :
    Replays env view key (step env view key req s) := by
  have hLog : (step env view key req s).log = s.log ++
      [⟨req.readings.log, effectiveUserKey req.query req.policy, c.text, valid,
        newVal⟩] := by
    simp only [step, hCalls]
  obtain ⟨ok, hWrites, hRecord⟩ := hWrite
  have hLast : (step env view key req s).lastWrite =
      (((c.sent valid newVal).map fun write =>
        LastWrite.ofAnswer ok write.record).toList).getLastD s.lastWrite := by
    simp only [step, hCalls, hWrites, List.cons_ne_nil, if_false]
  refine ⟨?_, fun hMonitored => ?_⟩
  · rw [hLog, List.flatMap_append, ← h.file]
    exact hFile.trans (by simp)
  · rw [hLog, hLast, replay, List.foldl_append, List.foldl_cons, List.foldl_nil,
      replay_sent]
    change _ = LastWrite.intended
      (view (World.serve env req s.world).2.kv key) _
    rw [hRecord]
    cases hSent : c.sent valid newVal with
    | none => exact h.record (hBefore hSent hMonitored)
    | some write =>
        exact (LastWrite.intended_ofAnswer ok _ key write.record).symm

end Watch

/-! ## What a plan logs -/

/-- Without monitoring a granted plan logs nothing. -/
theorem grantedPlan_entry_none {c : KeyCommand} {q : Query} {r : Readings}
    {f : GdprFilter} (hMonitor : f.monitor = false) {value : Str} {pl : Plan}
    (hPlan : grantedPlan c q r f value = .ok pl) : pl.entry = none := by
  cases c with
  | putm =>
      obtain ⟨newValue, hPutm⟩ := QueryRewriter.putm_ok value q r.rewriteTime
      simp only [grantedPlan, hPutm, bind, Except.bind, pure, Except.pure,
        Except.ok.injEq] at hPlan
      subst hPlan
      simp [entryIf, hMonitor]
  | _ =>
      cases hPlan
      simp [entryIf, hMonitor]

/-- Neither the record nor its creation asks for monitoring. -/
def NotAsked (q : Query) (p : DefaultPolicy) (pl : Plan) : Option Str → Prop
  | some record => asksMonitoring record = false
  | none => pl.write = none ∨ q.monitor.getD p.monitor = false

/-- A record that is created is logged, unless nothing asks for it. -/
private theorem absentPlan_entry (c : KeyCommand) (q : Query)
    (p : DefaultPolicy) (r : Readings) :
    (∃ valid newVal, (absentPlan c q p r).entry = some (valid, newVal) ∧
      (absentPlan c q p r).write.map Prod.fst = c.sent valid newVal) ∨
    (absentPlan c q p r).entry = none ∧ NotAsked q p (absentPlan c q p r) none := by
  cases c with
  | put =>
      cases hMonitor : q.monitor.getD p.monitor with
      | true =>
          refine .inl ⟨true, _, ?_, rfl⟩
          simp only [absentPlan, entryIf, hMonitor, if_true]
      | false =>
          refine .inr ⟨?_, .inr hMonitor⟩
          simp only [absentPlan, entryIf, hMonitor, Bool.false_eq_true,
            if_false]
  | _ => exact .inr ⟨rfl, .inl rfl⟩

/-- A refusal is logged, if the record asks for it. -/
private theorem deniedPlan_entry (c : KeyCommand) (f : GdprFilter) :
    (∃ valid newVal, (deniedPlan c f).entry = some (valid, newVal) ∧
      (deniedPlan c f).write.map Prod.fst = c.sent valid newVal) ∨
    (deniedPlan c f).entry = none ∧ f.monitor = false := by
  cases hMonitor : f.monitor with
  | true =>
      refine .inl ⟨false, [], ?_, ?_⟩
      · simp only [deniedPlan, entryIf, hMonitor, if_true]
      · cases c <;> rfl
  | false =>
      refine .inr ⟨?_, rfl⟩
      simp [deniedPlan, entryIf, hMonitor]

/-- **What a plan logs.** It announces its write, or the record does not ask
for monitoring, or the record to be created does not. -/
theorem plan_entry {c : KeyCommand} {q : Query} {p : DefaultPolicy}
    {r : Readings} {res : Option Str} {pl : Plan}
    (hPlan : plan c q p r res = .ok pl) :
    (∃ valid newVal, pl.entry = some (valid, newVal) ∧
      pl.write.map Prod.fst = c.sent valid newVal) ∨
    pl.entry = none ∧ NotAsked q p pl res := by
  cases res with
  | none =>
      cases Except.ok.inj hPlan
      exact absentPlan_entry c q p r
  | some record =>
      cases hValue : GdprFilter.ofValue (some record) with
      | error e =>
          rw [plan_error hValue] at hPlan
          cases hPlan
      | ok f =>
          have hAsks : asksMonitoring record = f.monitor := by
            simp only [asksMonitoring, hValue, GdprFilter.checkMonitoring]
          rw [NotAsked, hAsks]
          cases hValid : f.validate q p r.validateTime with
          | false =>
              rw [plan_denied hValue hValid] at hPlan
              cases Except.ok.inj hPlan
              exact deniedPlan_entry c f
          | true =>
              rw [plan_granted hValue hValid] at hPlan
              cases hMonitor : f.monitor with
              | true =>
                  obtain ⟨newVal, hEntry, hWrite, -⟩ :=
                    grantedPlan_entry hMonitor hPlan
                  exact .inl ⟨true, newVal, hEntry, hWrite⟩
              | false =>
                  exact .inr ⟨grantedPlan_entry_none hMonitor hPlan, rfl⟩

/-! ## The operations of a plan -/

section Steps

variable (key : Str) (r : Readings)

theorem LoggedCall.ofStep_readStep (c : KeyCommand) (k : Str)
    (res : Option Str) : LoggedCall.ofStep key r (c.readStep k res) = none := by
  cases c <;> rfl

theorem LastWrite.ofStep_readStep (c : KeyCommand) (k : Str)
    (res : Option Str) : LastWrite.ofStep key (c.readStep k res) = none := by
  cases c <;> rfl

theorem LoggedCall.ofStep_sentStep (k : Str) (ok : Bool) (write : Write) :
    LoggedCall.ofStep key r (write.sentStep k ok) = none := by
  cases write <;> rfl

theorem LastWrite.ofStep_sentStep (k : Str) (ok : Bool) (write : Write) :
    LastWrite.ofStep key (write.sentStep k ok) =
      if k = key then some (LastWrite.ofAnswer ok write.record) else none := by
  cases write <;> rfl

theorem LoggedCall.ofStep_logEncodedQuery (q : Query) (p : DefaultPolicy)
    (valid : Bool) (newVal : Str) :
    LoggedCall.ofStep key r ⟨.logEncodedQuery q p valid newVal, ()⟩ =
      if q.key = key then
        some ⟨r.log, effectiveUserKey q p, q.cmd, valid, newVal⟩
      else none := rfl

theorem LastWrite.ofStep_logEncodedQuery (q : Query) (p : DefaultPolicy)
    (valid : Bool) (newVal : Str) :
    LastWrite.ofStep key ⟨.logEncodedQuery q p valid newVal, ()⟩ = none := rfl

variable (pl : Plan) (client : KvClient σ) (iv : Str) (q : Query)
  (p : DefaultPolicy) (kv : σ)

/-- The calls of the logger in a plan. -/
theorem filterMap_calls :
    (pl.operations client iv q p kv).filterMap (LoggedCall.ofStep key r) =
      if q.key = key then
        (pl.entry.map fun entry => ⟨r.log, effectiveUserKey q p, q.cmd, entry.1,
          entry.2⟩).toList
      else [] := by
  obtain ⟨entry, write, reply⟩ := pl
  by_cases hKey : q.key = key <;> cases entry <;> cases write <;>
    simp [Plan.operations, LoggedCall.ofStep_logEncodedQuery,
      LoggedCall.ofStep_sentStep, hKey]

/-- The writes in a plan. -/
theorem filterMap_writes (hKey : q.key = key) :
    (pl.operations client iv q p kv).filterMap (LastWrite.ofStep key) =
      (pl.write.map fun write => LastWrite.ofAnswer
        (write.1.apply client iv q.key kv).1 write.1.record).toList := by
  obtain ⟨entry, write, reply⟩ := pl
  cases entry <;> cases write <;>
    simp [Plan.operations, List.filterMap_cons,
      LastWrite.ofStep_logEncodedQuery, LastWrite.ofStep_sentStep, hKey]

end Steps

/-! ## Every request -/

namespace Watch

variable {env : Environment σ} {view : σ → Store} {key : Str} {req : Request}
  {s : Watch σ}

/-- Reading logs leaves every file as it is. -/
private theorem content_logDecode (cfg : LogConfig) (logName path : Str)
    (thres : Int64) (files : LogFiles) :
    ((logDecode cfg logName thres files).2.content path).getD [] =
      (files.content path).getD [] := by
  unfold logDecode
  cases files.content logName with
  | none => rfl
  | some text =>
      by_cases hPath : path = cfg.logFilePath (extractKeyFromFilename logName)
      · subst hPath
        simp [LogFiles.content_append]
      · simp [LogFiles.content_append_of_ne _ _ hPath]

/-- A request without a key concerns no key. -/
theorem Replays.step_other (h : Replays env view key s)
    (hCommand : KeyCommand.ofText req.query.cmd = none) :
    Replays env view key (step env view key req s) := by
  have hOnly := World.only_respond_other req.policy req.readings hCommand
  refine h.step_quiet ?_ ?_ ?_
  · refine List.filterMap_eq_nil_iff.mpr fun performed hMem => ?_
    have hReads := hOnly.trace (World.exec env req.readings) s.world
      performed hMem
    obtain ⟨op, res⟩ := performed
    cases op <;> first | exact hReads.elim | rfl
  · refine hOnly.run_keeps (World.exec env req.readings) (fun w : World σ =>
      (w.logs.content (env.log.logFilePath key)).getD []) ?_ s.world
    intro op w hReads
    cases op with
    | retrieveLogs => rfl
    | readLog logName thres => exact content_logDecode _ _ _ _ _
    | readKeyLog k thres => exact content_logDecode _ _ _ _ _
    | _ => exact hReads.elim
  · rw [World.serve_other env hCommand]

section Keyed

variable (hSound : env.client.Sound view) {c : KeyCommand}
  (hCommand : KeyCommand.ofText req.query.cmd = some c)

include hSound hCommand

/-- A request that raises concerns no key. -/
theorem Replays.step_error (h : Replays env view key s) {e : Exn}
    (hPlan : plan c req.query req.policy req.readings
      (view s.world.kv req.query.key) = .error e) :
    Replays env view key (step env view key req s) := by
  have hServe : (World.serve env req s.world).2 = s.world := by
    rw [World.serve_reads hSound.toReads hCommand, hPlan]
    rfl
  refine h.step_quiet ?_ ?_ ?_
  · rw [operations_reads env hSound.toReads hCommand, hPlan]
    simp [LoggedCall.ofStep_readStep]
  · rw [hServe]
  · rw [hServe]

variable {pl : Plan} (hPlan : plan c req.query req.policy req.readings
  (view s.world.kv req.query.key) = .ok pl)

include hPlan

theorem serve_logs : (World.serve env req s.world).2.logs =
    pl.logs env.log req.readings.log req.query req.policy s.world.logs := by
  rw [World.serve_reads hSound.toReads hCommand, hPlan]
  rfl

theorem serve_view : view (World.serve env req s.world).2.kv =
    (pl.write.map fun write => written
      (write.1.apply env.client req.readings.iv req.query.key s.world.kv).1
      (view s.world.kv) req.query.key write.1.record).getD
        (view s.world.kv) := by
  rw [World.serve_reads hSound.toReads hCommand, hPlan]
  simp only [World.enact, Plan.kv]
  cases hWrite : pl.write with
  | none => rfl
  | some write => exact hSound.apply _ _ write.1 _

theorem calls_eq : (World.operations env req s.world).filterMap
      (LoggedCall.ofStep key req.readings) =
    if req.query.key = key then
      (pl.entry.map fun entry => ⟨req.readings.log,
        effectiveUserKey req.query req.policy, req.query.cmd, entry.1,
        entry.2⟩).toList
    else [] := by
  rw [operations_reads env hSound.toReads hCommand, hPlan, List.filterMap_cons,
    LoggedCall.ofStep_readStep]
  exact filterMap_calls _ _ _ _ _ _ _ _

private theorem writes_eq (hKey : req.query.key = key) :
    (World.operations env req s.world).filterMap (LastWrite.ofStep key) =
      (pl.write.map fun write => LastWrite.ofAnswer
        (write.1.apply env.client req.readings.iv req.query.key s.world.kv).1
        write.1.record).toList := by
  rw [operations_reads env hSound.toReads hCommand, hPlan, List.filterMap_cons,
    LastWrite.ofStep_readStep]
  exact filterMap_writes _ _ _ _ _ _ _ hKey

/-- A request on another key does not concern this one. -/
theorem Replays.step_of_ne (h : Replays env view key s)
    (hKey : req.query.key ≠ key) :
    Replays env view key (step env view key req s) := by
  refine h.step_quiet ?_ ?_ ?_
  · rw [calls_eq hSound hCommand hPlan, if_neg hKey]
  · rw [serve_logs hSound hCommand hPlan]
    have hPath : env.log.logFilePath key ≠
        env.log.logFilePath req.query.key := fun hEq =>
      hKey (env.log.logFilePath_injective hEq).symm
    unfold Plan.logs
    cases pl.entry with
    | none => rfl
    | some entry =>
        simp only [logEncodedQuery]
        split <;> rw [LogFiles.content_append_of_ne _ _ hPath]
  · rw [serve_view hSound hCommand hPlan]
    cases pl.write with
    | none => rfl
    | some write =>
        simp only [Option.map_some, Option.getD_some, written]
        split
        · exact Function.update_of_ne (Ne.symm hKey) _ _
        · rfl

/-- A request on the key that logs nothing: its record does not ask for
monitoring, or it writes nothing. -/
theorem Replays.step_silent (h : Replays env view key s)
    (hKey : req.query.key = key) (hEntry : pl.entry = none)
    (hAsks : NotAsked req.query req.policy pl
      (view s.world.kv req.query.key)) :
    Replays env view key (step env view key req s) := by
  have hCalls : (World.operations env req s.world).filterMap
      (LoggedCall.ofStep key req.readings) = [] := by
    rw [calls_eq hSound hCommand hPlan, hEntry]
    simp
  have hFile : (World.serve env req s.world).2.logs = s.world.logs := by
    rw [serve_logs hSound hCommand hPlan, Plan.logs, hEntry]
  have hView := serve_view hSound hCommand hPlan
  rw [hKey] at hAsks
  cases hRecord : view s.world.kv key with
  | some record =>
      rw [hRecord, NotAsked] at hAsks
      refine h.step_unmonitored hCalls (by rw [hFile]) ?_
      simp only [step, stillMonitored, hRecord, hAsks, Bool.and_false]
  | none =>
      rw [hRecord] at hAsks
      cases hAfter : view (World.serve env req s.world).2.kv key with
      | none =>
          exact h.step_quiet hCalls (by rw [hFile]) (hAfter.trans hRecord.symm)
      | some record =>
          cases hAsks with
          | inl hWrite =>
              -- nothing was written, so nothing can have appeared
              rw [hWrite] at hView
              have hSame := congrFun hView key
              rw [hAfter] at hSame
              cases hSame.trans hRecord
          | inr hMonitor =>
              refine h.step_unmonitored hCalls (by rw [hFile]) ?_
              simp only [step, stillMonitored, hRecord, hAfter, hMonitor]

/-- A request on the key that logs its verdict and what it writes. -/
theorem Replays.step_entry
    (hSeal : ∀ iv entry, (env.log.seal iv entry).isSome = true)
    (h : Replays env view key s) (hKey : req.query.key = key) {valid : Bool}
    {newVal : Str} (hEntry : pl.entry = some (valid, newVal))
    (hWrite : pl.write.map Prod.fst = c.sent valid newVal) :
    Replays env view key (step env view key req s) := by
  have hText := KeyCommand.text_of_ofText hCommand
  have hView := serve_view hSound hCommand hPlan
  -- the entry goes to the file before the write is tried
  refine h.step_logged c valid newVal ?_ ?_ ?_ ?_
  · rw [calls_eq hSound hCommand hPlan, if_pos hKey, hEntry, hText]
    rfl
  · rw [serve_logs hSound hCommand hPlan, Plan.logs, hEntry, ← hKey]
    simp only [logEncodedQuery, LoggedCall.bytes, ← hText]
    obtain ⟨sealed, hSealed⟩ := Option.isSome_iff_exists.mp
      (hSeal req.readings.log.iv (encodeLogEntry req.readings.log.timestamp
        (effectiveUserKey req.query req.policy) req.query.cmd valid newVal))
    rw [hSealed]
    rw [effectiveUserKey] at hSealed
    rw [hSealed]
    simp only [LogFiles.content_append, Option.getD_some]
  · intro hSent hMonitored
    refine monitored_of_unchanged ?_ hMonitored
    rw [hSent, Option.map_eq_none_iff] at hWrite
    rw [hView, hWrite]
    rfl
  · cases hSome : pl.write with
    | none =>
        rw [hSome] at hWrite hView
        refine ⟨true, ?_, ?_⟩
        · rw [← hWrite, writes_eq hSound hCommand hPlan hKey, hSome]
          rfl
        · rw [← hWrite, hView]
          rfl
    | some write =>
        rw [hSome] at hWrite hView
        refine ⟨(write.1.apply env.client req.readings.iv req.query.key
          s.world.kv).1, ?_, ?_⟩
        · rw [← hWrite, writes_eq hSound hCommand hPlan hKey, hSome]
          rfl
        · rw [← hWrite, hView, ← hKey]
          rfl

end Keyed

/-- **Every request** keeps the log in step with the record intended. -/
theorem Replays.step (hSound : env.client.Sound view)
    (hSeal : ∀ iv entry, (env.log.seal iv entry).isSome = true)
    (h : Replays env view key s) :
    Replays env view key (step env view key req s) := by
  cases hCommand : KeyCommand.ofText req.query.cmd with
  | none => exact h.step_other hCommand
  | some c =>
      cases hPlan : plan c req.query req.policy req.readings
          (view s.world.kv req.query.key) with
      | error e => exact h.step_error hSound hCommand hPlan
      | ok pl =>
          by_cases hKey : req.query.key = key
          · cases plan_entry hPlan with
            | inl hLogged =>
                obtain ⟨valid, newVal, hEntry, hWrite⟩ := hLogged
                exact h.step_entry hSound hCommand hPlan hSeal hKey hEntry
                  hWrite
            | inr hSilent =>
                exact h.step_silent hSound hCommand hPlan hKey hSilent.1
                  hSilent.2
          · exact h.step_of_ne hSound hCommand hPlan hKey

end Watch

/-! ## The history of a key -/

/-- What there is to watch of a key over some requests, from a world without
the key. -/
def watch (env : Environment σ) (view : σ → Store) (key : Str)
    (reqs : List Request) (w : World σ) : Watch σ :=
  Watch.run env view key reqs { world := w }

/-- A put of `value` at `k` by a monitored user. -/
def monitoredPut (value : Str) : Request :=
  ⟨{ cmd := lit "put", key := lit "k", value := value }, alicePolicy,
    Readings.constant 0⟩

end GDPRuler.Controller
