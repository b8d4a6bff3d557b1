import GDPRuler.Controller.Mediation

/-!
# Audit completeness

Every request on a monitored record leaves exactly one entry in the log of its
key, and it leaves it before it writes.  The entry names the user, the
command, the filter's verdict and the bytes then sent to the database.

The order of a handler's calls is read off its list of operations
(`operations_keyed`), the contents of the entry off the log file.
-/

namespace GDPRuler.Controller

open GDPRuler.Verified

/-! ## The operations of a keyed request -/

/-- The read of a handler with its answer. -/
def KeyCommand.readStep (c : KeyCommand) (key : Str) (res : Option Str) :
    Sigma Op.Res :=
  match c with
  | .getm => ⟨.gdprGetm key, res⟩
  | _ => ⟨.gdprGet key, res⟩

/-- A write with its answer. -/
def Write.sentStep (key : Str) (ok : Bool) : Write → Sigma Op.Res
  | put value => ⟨.gdprPut key value, ok⟩
  | del => ⟨.gdprDel key, ok⟩
  | putm value => ⟨.gdprPutm key value, ok⟩

/-- The operations of a plan on database state `s`. -/
def Plan.operations {σ : Type} (pl : Plan) (client : KvClient σ) (iv : Str)
    (q : Query) (p : DefaultPolicy) (s : σ) : List (Sigma Op.Res) :=
  (pl.entry.map fun entry =>
    (⟨.logEncodedQuery q p entry.1 entry.2, ()⟩ : Sigma Op.Res)).toList ++
  (pl.write.map fun write =>
    write.1.sentStep q.key (write.1.apply client iv q.key s).1).toList

section Operations

variable {σ : Type} (env : Environment σ) (r : Readings)

private theorem trace_finish (key : Str) (write : Option (Write × Str))
    (reply : Str) (w : World σ) :
    (Plan.finish key write reply).trace (World.exec env r) w =
      (write.map fun write =>
        write.1.sentStep key (write.1.apply env.client r.iv key w.kv).1).toList := by
  cases write with
  | none => rfl
  | some write =>
      obtain ⟨write, failed⟩ := write
      cases write with
      | put value =>
          cases h : (env.client.gdprPut r.iv key value w.kv).1 <;>
            simp [Plan.finish, Write.perform, World.exec, Write.sentStep,
              Write.apply, h]
      | del =>
          cases h : (env.client.gdprDel key w.kv).1 <;>
            simp [Plan.finish, Write.perform, World.exec, Write.sentStep,
              Write.apply, h]
      | putm value =>
          cases h : (env.client.gdprPutm r.iv key value w.kv).1 <;>
            simp [Plan.finish, Write.perform, World.exec, Write.sentStep,
              Write.apply, h]

private theorem trace_toProg (pl : Plan) (q : Query) (p : DefaultPolicy)
    (w : World σ) :
    (pl.toProg q p).trace (World.exec env r) w =
      pl.operations env.client r.iv q p w.kv := by
  obtain ⟨entry, write, reply⟩ := pl
  cases entry with
  | none => exact trace_finish env r q.key write reply w
  | some entry =>
      exact congrArg (List.cons _) (trace_finish env r q.key write reply _)

/-- What a keyed request that reads through `view` performs. -/
theorem operations_reads {view : σ → Store} (hReads : env.client.Reads view)
    {c : KeyCommand} {req : Request}
    (hCommand : KeyCommand.ofText req.query.cmd = some c) (w : World σ) :
    World.operations env req w =
      c.readStep req.query.key (view w.kv req.query.key) ::
        match plan c req.query req.policy req.readings
            (view w.kv req.query.key) with
        | .error _ => []
        | .ok pl => pl.operations env.client req.readings.iv req.query
            req.policy w.kv := by
  have hRead : ∀ next : Option Str → Handler Str,
      (c.read req.query.key next).trace (World.exec env req.readings) w =
      c.readStep req.query.key (view w.kv req.query.key) ::
        (next (view w.kv req.query.key)).trace
          (World.exec env req.readings) w := by
    intro next
    cases c <;>
      simp [KeyCommand.read, KeyCommand.readStep, World.exec, hReads.get,
        hReads.getm]
  rw [World.operations, respond_eq _ _ _ hCommand, hRead]
  refine congrArg (List.cons _) ?_
  cases plan c req.query req.policy req.readings
      (view w.kv req.query.key) with
  | error e => rfl
  | ok pl => exact trace_toProg _ _ pl _ _ w

end Operations

section Audit

variable (delAbsent : Bool) (cipher : Option Cipher) (log : LogConfig)

/-- A keyed request performs its read and then the operations of its plan. -/
theorem operations_keyed {c : KeyCommand} {req : Request}
    (hCommand : KeyCommand.ofText req.query.cmd = some c) {w : World Store}
    {pl : Plan}
    (hPlan : plan c req.query req.policy req.readings
      (KvClient.lookup cipher w.kv req.query.key) = .ok pl) :
    World.operations (mapEnv delAbsent cipher log) req w =
      c.readStep req.query.key (KvClient.lookup cipher w.kv req.query.key) ::
        pl.operations (mapClient delAbsent cipher) req.readings.iv req.query
          req.policy w.kv := by
  have hOps := operations_reads (mapEnv delAbsent cipher log)
    (KvClient.reads_mapClient delAbsent cipher) hCommand w
  rwa [hPlan] at hOps

/-! ## Monitored requests -/

/-- The request concerns a monitored record, or creates one, and `valid` is
the verdict on it. -/
inductive Monitored (cipher : Option Cipher) (c : KeyCommand) (req : Request)
    (w : World Store) : Bool → Prop
  | record {f : GdprFilter} (hFinds : Finds cipher req w f)
      (hMonitor : f.monitor = true) :
      Monitored cipher c req w
        (f.validate req.query req.policy req.readings.validateTime)
  | creates (hPut : c = .put)
      (hAbsent : KvClient.lookup cipher w.kv req.query.key = none)
      (hMonitor : req.query.monitor.getD req.policy.monitor = true) :
      Monitored cipher c req w true

/-- The write of a command with verdict `valid` and new value `newVal`. -/
def KeyCommand.sent (c : KeyCommand) (valid : Bool) (newVal : Str) :
    Option Write :=
  match valid, c with
  | true, .put => some (.put newVal)
  | true, .delete => some .del
  | true, .putm => some (.putm newVal)
  | _, _ => none

/-- The new value is empty but for granted puts and metadata updates. -/
def KeyCommand.Writes (c : KeyCommand) (valid : Bool) : Prop :=
  valid = true ∧ (c = .put ∨ c = .putm)

/-- What an audited request did: read, log once, and then write what it
logged. -/
structure Audited (c : KeyCommand) (req : Request) (w : World Store)
    (valid : Bool) (newVal : Str) : Prop where
  operations : ∃ ok : Bool,
    World.operations (mapEnv delAbsent cipher log) req w =
      c.readStep req.query.key (KvClient.lookup cipher w.kv req.query.key) ::
      ⟨.logEncodedQuery req.query req.policy valid newVal, ()⟩ ::
      ((c.sent valid newVal).map fun write =>
        write.sentStep req.query.key ok).toList
  newValue : ¬ c.Writes valid → newVal = []
  /-- One frame is appended to the key's log. -/
  file : ∃ sealed,
    log.seal req.readings.log.iv
      (encodeLogEntry req.readings.log.timestamp
        (effectiveUserKey req.query req.policy) c.text valid newVal) =
      some sealed ∧
    (World.serve (mapEnv delAbsent cipher log) req w).2.logs.content
      (log.logFilePath req.query.key) =
      some ((w.logs.content (log.logFilePath req.query.key)).getD [] ++
        frame sealed)
  otherFiles : ∀ path, path ≠ log.logFilePath req.query.key →
    (World.serve (mapEnv delAbsent cipher log) req w).2.logs.content path =
      w.logs.content path

/-- A plan that logs its verdict and what it writes is audited. -/
theorem audited_of_plan {c : KeyCommand} {req : Request}
    (hCommand : KeyCommand.ofText req.query.cmd = some c) {w : World Store}
    (hSeal : ∀ entry, (log.seal req.readings.log.iv entry).isSome = true)
    {pl : Plan}
    (hPlan : plan c req.query req.policy req.readings
      (KvClient.lookup cipher w.kv req.query.key) = .ok pl)
    {valid : Bool} {newVal : Str} (hEntry : pl.entry = some (valid, newVal))
    (hWrite : pl.write.map Prod.fst = c.sent valid newVal)
    (hNew : ¬ c.Writes valid → newVal = []) :
    Audited delAbsent cipher log c req w valid newVal := by
  obtain ⟨sealed, hSealed⟩ := Option.isSome_iff_exists.mp
    (hSeal (encodeLogEntry req.readings.log.timestamp
      (effectiveUserKey req.query req.policy) c.text valid newVal))
  have hLogs : (World.serve (mapEnv delAbsent cipher log) req w).2.logs =
      w.logs.append (log.logFilePath req.query.key) (frame sealed) := by
    rw [World.serve_keyed delAbsent cipher log hCommand, hPlan]
    have hText := KeyCommand.text_of_ofText hCommand
    simp only [World.carryOut, Plan.logs, hEntry, logEncodedQuery, hText]
    rw [effectiveUserKey] at hSealed
    rw [hSealed]
  refine {
    operations := ?_
    newValue := hNew
    file := ⟨sealed, hSealed, ?_⟩
    otherFiles := ?_ }
  · rw [operations_keyed delAbsent cipher log hCommand hPlan, Plan.operations,
      hEntry, ← hWrite]
    cases hPlanWrite : pl.write with
    | none => exact ⟨true, rfl⟩
    | some write => exact ⟨_, rfl⟩
  · rw [hLogs, LogFiles.content_append]
  · intro path hPath
    rw [hLogs, LogFiles.content_append_of_ne _ _ hPath]

/-- A granted plan logs what it writes. -/
theorem grantedPlan_entry {c : KeyCommand} {q : Query} {r : Readings}
    {f : GdprFilter} (hMonitor : f.monitor = true) {value : Str} {pl : Plan}
    (hPlan : grantedPlan c q r f value = .ok pl) :
    ∃ newVal, pl.entry = some (true, newVal) ∧
      pl.write.map Prod.fst = c.sent true newVal ∧
      (¬ c.Writes true → newVal = []) := by
  cases c with
  | get =>
      cases hPlan
      exact ⟨[], by simp [entryIf, hMonitor], rfl, fun _ => rfl⟩
  | put =>
      cases hPlan
      refine ⟨_, by simp only [entryIf, hMonitor, if_true], rfl, ?_⟩
      exact fun hNot => absurd ⟨rfl, .inl rfl⟩ hNot
  | delete =>
      cases hPlan
      exact ⟨[], by simp [entryIf, hMonitor], rfl, fun _ => rfl⟩
  | getm =>
      cases hPlan
      exact ⟨[], by simp [entryIf, hMonitor], rfl, fun _ => rfl⟩
  | putm =>
      obtain ⟨newValue, hPutm⟩ := QueryRewriter.putm_ok value q r.rewriteTime
      simp only [grantedPlan, hPutm, bind, Except.bind, pure, Except.pure,
        Except.ok.injEq] at hPlan
      subst hPlan
      refine ⟨newValue, by simp [entryIf, hMonitor], rfl, ?_⟩
      exact fun hNot => absurd ⟨rfl, .inr rfl⟩ hNot

end Audit

end GDPRuler.Controller
