import GDPRuler.Controller.Handlers

/-!
# What the handlers do, once

The five handlers that act on a key have one shape: read the key's record,
decide, perhaps log, perhaps write, reply.  Everything after the read is
determined by the record, and `plan` says how, command by command.

`respond_eq` shows that the handlers follow their plans, and `serve_keyed`
what serving such a request does to the world.  What is proved about served
requests elsewhere is proved from the plans.

## Main results

* `respond_eq` — a handler is a read followed by its plan;
* `serve_keyed` — the outcome and the world after a keyed request;
* `serve_other` — every other request leaves the database alone.
-/

namespace GDPRuler.Controller

open GDPRuler.Verified

/-! ## Commands on a key -/

inductive KeyCommand
  | get | put | delete | getm | putm
  deriving DecidableEq

namespace KeyCommand

def ofText (cmd : Str) : Option KeyCommand :=
  if cmd = lit "get" then some get
  else if cmd = lit "put" then some put
  else if cmd = lit "delete" then some delete
  else if cmd = lit "putm" then some putm
  else if cmd = lit "getm" then some getm
  else none

def text : KeyCommand → Str
  | get => lit "get"
  | put => lit "put"
  | delete => lit "delete"
  | getm => lit "getm"
  | putm => lit "putm"

@[simp] theorem ofText_text (c : KeyCommand) : ofText c.text = some c := by
  cases c <;> decide

theorem text_of_ofText {cmd : Str} {c : KeyCommand}
    (h : ofText cmd = some c) : cmd = c.text := by
  unfold ofText at h
  split at h
  case isTrue hCmd => cases h; exact hCmd
  split at h
  case isTrue hCmd => cases h; exact hCmd
  split at h
  case isTrue hCmd => cases h; exact hCmd
  split at h
  case isTrue hCmd => cases h; exact hCmd
  split at h
  case isTrue hCmd => cases h; exact hCmd
  cases h

/-- The read a handler starts with. -/
def read (c : KeyCommand) (key : Str) (next : Option Str → Handler Str) :
    Handler Str :=
  match c with
  | getm => .call (.gdprGetm key) next
  | _ => .call (.gdprGet key) next

/-- The reply to a request the filter denies. -/
def refused : KeyCommand → Str
  | get => GET_FAILED
  | put => PUT_FAILED
  | delete => deleteRefused
  | getm => GETM_FAILED
  | putm => PUTM_FAILED

/-- The reply of the commands that do not create a record to a request on an
absent key. -/
def absent : KeyCommand → Str
  | putm => putmAbsent
  | c => c.refused

end KeyCommand

/-- A request with a command on a key. -/
structure KeyedRequest extends Request where
  command : KeyCommand
  isCommand : KeyCommand.ofText query.cmd = some command
  deriving DecidableEq

/-! ## Plans -/

/-- A write to the database. -/
inductive Write
  | put (value : Str)
  | del
  | putm (value : Str)

/-- The write as an operation. -/
def Write.perform (key : Str) (next : Bool → Handler Str) : Write → Handler Str
  | put value => .call (.gdprPut key value) next
  | del => .call (.gdprDel key) next
  | putm value => .call (.gdprPutm key value) next

/-- What a handler does after its read: the validity and the new value it
logs, the write with the reply to its failure, and the reply otherwise. -/
structure Plan where
  entry : Option (Bool × Str)
  write : Option (Write × Str)
  reply : Str

namespace Plan

/-- The write, if any, and the reply. -/
def finish (key : Str) (write : Option (Write × Str)) (reply : Str) :
    Handler Str :=
  match write with
  | none => .ret reply
  | some (write, failed) =>
      write.perform key fun ok => if ok then .ret reply else .ret failed

def toProg (pl : Plan) (q : Query) (p : DefaultPolicy) : Handler Str :=
  match pl.entry with
  | none => finish q.key pl.write pl.reply
  | some (valid, newVal) =>
      .call (.logEncodedQuery q p valid newVal) fun _ =>
        finish q.key pl.write pl.reply

end Plan

/-- The entry of a request that is logged if `needed`. -/
def entryIf (needed valid : Bool) (newVal : Str) : Option (Bool × Str) :=
  if needed then some (valid, newVal) else none

/-- The plan for a key without a record. -/
def absentPlan (c : KeyCommand) (q : Query) (p : DefaultPolicy)
    (r : Readings) : Plan :=
  match c with
  | .put =>
      let newValue := QueryRewriter.insert q p q.value r.rewriteTime
      { entry := entryIf (q.monitor.getD p.monitor) true newValue
        write := some (.put newValue, PUT_FAILED)
        reply := PUT_SUCCESS }
  | c => { entry := none, write := none, reply := c.absent }

/-- The plan for a record whose filter denies the request. -/
def deniedPlan (c : KeyCommand) (f : GdprFilter) : Plan :=
  { entry := entryIf f.monitor false [], write := none, reply := c.refused }

/-- The plan for a record whose filter grants the request. -/
def grantedPlan (c : KeyCommand) (q : Query) (r : Readings) (f : GdprFilter)
    (value : Str) : Except Exn Plan :=
  match c with
  | .get => .ok
      { entry := entryIf f.monitor true [], write := none
        reply := removeGdprMetadata value }
  | .put =>
      let newValue := QueryRewriter.update value q.value
      .ok { entry := entryIf f.monitor true newValue
            write := some (.put newValue, PUT_FAILED)
            reply := PUT_SUCCESS }
  | .delete => .ok
      { entry := entryIf f.monitor true []
        write := some (.del, DELETE_FAILED)
        reply := DELETE_SUCCESS }
  | .getm => .ok
      { entry := entryIf f.monitor true [], write := none
        reply := preserveOnlyGdprMetadata value }
  | .putm => do
      let newValue ← QueryRewriter.putm value q r.rewriteTime
      return { entry := entryIf f.monitor true newValue
               write := some (.putm newValue, PUTM_FAILED)
               reply := PUTM_SUCCESS }

def plan (c : KeyCommand) (q : Query) (p : DefaultPolicy) (r : Readings) :
    Option Str → Except Exn Plan
  | none => .ok (absentPlan c q p r)
  | some value => do
      let f ← GdprFilter.ofValue (some value)
      if f.validate q p r.validateTime then
        grantedPlan c q r f value
      else
        return deniedPlan c f

section Plan

variable {c : KeyCommand} {q : Query} {p : DefaultPolicy} {r : Readings}
  {value : Str} {f : GdprFilter}

theorem plan_denied (hValue : GdprFilter.ofValue (some value) = .ok f)
    (hDenied : f.validate q p r.validateTime = false) :
    plan c q p r (some value) = .ok (deniedPlan c f) := by
  simp [plan, hValue, hDenied, bind, Except.bind, pure, Except.pure]

theorem plan_granted (hValue : GdprFilter.ofValue (some value) = .ok f)
    (hGranted : f.validate q p r.validateTime = true) :
    plan c q p r (some value) = grantedPlan c q r f value := by
  simp [plan, hValue, hGranted, bind, Except.bind]

theorem plan_error {e : Exn} (hValue : GdprFilter.ofValue (some value) = .error e) :
    plan c q p r (some value) = .error e := by
  simp [plan, hValue, bind, Except.bind]

/-- A granted request is never stopped by its rewriter. -/
theorem grantedPlan_ok (c : KeyCommand) (q : Query) (r : Readings)
    (f : GdprFilter) (value : Str) :
    ∃ pl, grantedPlan c q r f value = .ok pl := by
  cases c with
  | putm =>
      obtain ⟨newValue, hPutm⟩ := QueryRewriter.putm_ok value q r.rewriteTime
      exact ⟨_, by simp [grantedPlan, hPutm, bind, Except.bind]; rfl⟩
  | _ => exact ⟨_, rfl⟩

end Plan

/-! ## The handlers follow their plans -/

/-- A handler after its read. -/
def follow (q : Query) (p : DefaultPolicy) (pl : Except Exn Plan) :
    Handler Str :=
  match pl with
  | .error e => .fail e
  | .ok pl => pl.toProg q p

section Follow

variable (q : Query) (p : DefaultPolicy) (r : Readings)

private theorem monitorQuery_bind (m : GdprMonitor) (valid : Bool)
    (newVal : Str) (next : Handler Str) :
    (m.monitorQuery valid newVal >>= fun _ => next) =
      if m.monitorNeeded then
        .call (.logEncodedQuery m.query m.policy valid newVal) fun _ => next
      else next := by
  unfold GdprMonitor.monitorQuery
  cases m.monitorNeeded <;> rfl

private theorem toProg_entryIf (needed valid : Bool) (newVal : Str)
    (write : Option (Write × Str)) (reply : Str) :
    Plan.toProg ⟨entryIf needed valid newVal, write, reply⟩ q p =
      if needed then
        .call (.logEncodedQuery q p valid newVal) fun _ =>
          Plan.finish q.key write reply
      else Plan.finish q.key write reply := by
  cases needed <;> rfl

/-- The handlers that log first and then look at the decision. -/
private theorem inspect_eq (c : KeyCommand) (value : Str)
    (write : Option (Write × Str)) (reply : Str)
    (hGranted : ∀ f, grantedPlan c q r f value =
      .ok ⟨entryIf f.monitor true [], write, reply⟩) :
    (do
      let filter ← Prog.ofExcept (GdprFilter.ofValue (some value))
      (GdprMonitor.ofFilter filter q p).monitorQuery
        (filter.validate q p r.validateTime) []
      if filter.validate q p r.validateTime then
        Plan.finish q.key write reply
      else
        return c.refused) = follow q p (plan c q p r (some value)) := by
  cases hValue : GdprFilter.ofValue (some value) with
  | error e => rw [plan_error hValue]; rfl
  | ok f =>
      rw [Prog.ofExcept_ok, Prog.ret_bind, monitorQuery_bind]
      cases hValid : f.validate q p r.validateTime with
      | false =>
          rw [plan_denied hValue hValid, follow, deniedPlan, toProg_entryIf]
          rfl
      | true =>
          rw [plan_granted hValue hValid, hGranted, follow, toProg_entryIf]
          rfl

theorem handleGet_eq :
    handleGet q p r =
      KeyCommand.get.read q.key fun res => follow q p (plan .get q p r res) := by
  unfold handleGet
  simp only [Prog.perform_bind]
  refine congrArg (Prog.call (Op.gdprGet q.key)) (funext fun res => ?_)
  cases res with
  | none => rfl
  | some value => exact inspect_eq q p r .get value none _ fun f => rfl

theorem handleGetMetadata_eq :
    handleGetMetadata q p r =
      KeyCommand.getm.read q.key fun res =>
        follow q p (plan .getm q p r res) := by
  unfold handleGetMetadata
  simp only [Prog.perform_bind]
  refine congrArg (Prog.call (Op.gdprGetm q.key)) (funext fun res => ?_)
  cases res with
  | none => rfl
  | some value => exact inspect_eq q p r .getm value none _ fun f => rfl

theorem handleDelete_eq :
    handleDelete q p r =
      KeyCommand.delete.read q.key fun res =>
        follow q p (plan .delete q p r res) := by
  unfold handleDelete
  simp only [Prog.perform_bind]
  refine congrArg (Prog.call (Op.gdprGet q.key)) (funext fun res => ?_)
  cases res with
  | none => rfl
  | some value =>
      exact inspect_eq q p r .delete value (some (.del, DELETE_FAILED)) _
        fun f => rfl

theorem handlePut_eq :
    handlePut q p r =
      KeyCommand.put.read q.key fun res => follow q p (plan .put q p r res) := by
  unfold handlePut
  simp only [Prog.perform_bind]
  refine congrArg (Prog.call (Op.gdprGet q.key)) (funext fun res => ?_)
  cases res with
  | none =>
      simp only [monitorQuery_bind, plan, follow, absentPlan, toProg_entryIf]
      rfl
  | some value =>
      cases hValue : GdprFilter.ofValue (some value) with
      | error e => rw [plan_error hValue]; rfl
      | ok f =>
          simp only [Prog.ofExcept_ok, Prog.ret_bind, monitorQuery_bind]
          cases hValid : f.validate q p r.validateTime with
          | false =>
              rw [plan_denied hValue hValid, follow, deniedPlan, toProg_entryIf]
              rfl
          | true =>
              rw [plan_granted hValue hValid, grantedPlan, follow,
                toProg_entryIf]
              rfl

theorem handlePutMetadata_eq :
    handlePutMetadata q p r =
      KeyCommand.putm.read q.key fun res =>
        follow q p (plan .putm q p r res) := by
  unfold handlePutMetadata
  simp only [Prog.perform_bind]
  refine congrArg (Prog.call (Op.gdprGet q.key)) (funext fun res => ?_)
  cases res with
  | none => rfl
  | some value =>
      cases hValue : GdprFilter.ofValue (some value) with
      | error e => rw [plan_error hValue]; rfl
      | ok f =>
          simp only [Prog.ofExcept_ok, Prog.ret_bind, monitorQuery_bind]
          cases hValid : f.validate q p r.validateTime with
          | false =>
              rw [plan_denied hValue hValid, follow, deniedPlan, toProg_entryIf]
              rfl
          | true =>
              obtain ⟨newValue, hPutm⟩ :=
                QueryRewriter.putm_ok value q r.rewriteTime
              rw [plan_granted hValue hValid, grantedPlan, hPutm]
              simp only [Prog.ofExcept_ok, bind, Except.bind, pure,
                Except.pure, follow, toProg_entryIf]
              rfl

/-- **The handlers follow their plans.** -/
theorem respond_eq {c : KeyCommand} (hCommand : KeyCommand.ofText q.cmd = some c) :
    respond q p r = c.read q.key fun res => follow q p (plan c q p r res) := by
  have hText := KeyCommand.text_of_ofText hCommand
  unfold respond
  cases c <;> rw [hText]
  · exact handleGet_eq q p r
  · exact handlePut_eq q p r
  · exact handleDelete_eq q p r
  · exact handleGetMetadata_eq q p r
  · exact handlePutMetadata_eq q p r

end Follow

/-! ## Serving a keyed request -/

section Effects

variable {σ : Type}

/-- The success and the effect of a write. -/
def Write.apply (client : KvClient σ) (iv key : Str) : Write → σ → Bool × σ
  | put value, s => client.gdprPut iv key value s
  | del, s => client.gdprDel key s
  | putm value, s => client.gdprPutm iv key value s

namespace Plan

/-- The reply of a plan carried out on database state `s`. -/
def outcome (pl : Plan) (client : KvClient σ) (iv key : Str) (s : σ) : Str :=
  match pl.write with
  | none => pl.reply
  | some (write, failed) =>
      if (write.apply client iv key s).1 then pl.reply else failed

/-- The database after a plan. -/
def kv (pl : Plan) (client : KvClient σ) (iv key : Str) (s : σ) : σ :=
  match pl.write with
  | none => s
  | some (write, _) => (write.apply client iv key s).2

/-- The log files after a plan. -/
def logs (pl : Plan) (cfg : LogConfig) (r : LogReadings) (q : Query)
    (p : DefaultPolicy) (files : LogFiles) : LogFiles :=
  match pl.entry with
  | none => files
  | some (valid, newVal) => logEncodedQuery cfg r q p valid newVal files

end Plan

namespace World

variable (env : Environment σ) (r : Readings)

private theorem run_finish (key : Str) (write : Option (Write × Str))
    (reply : Str) (entry : Option (Bool × Str)) (w : World σ) :
    (Plan.finish key write reply).run (exec env r) w =
      (.ok (Plan.outcome ⟨entry, write, reply⟩ env.client r.iv key w.kv),
        { w with kv := Plan.kv ⟨entry, write, reply⟩ env.client r.iv key w.kv }) := by
  cases write with
  | none => rfl
  | some write =>
      obtain ⟨write, failed⟩ := write
      cases write with
      | put value =>
          cases h : (env.client.gdprPut r.iv key value w.kv).1 <;>
            simp [Plan.finish, Write.perform, exec, Plan.outcome, Plan.kv,
              Write.apply, h]
      | del =>
          cases h : (env.client.gdprDel key w.kv).1 <;>
            simp [Plan.finish, Write.perform, exec, Plan.outcome, Plan.kv,
              Write.apply, h]
      | putm value =>
          cases h : (env.client.gdprPutm r.iv key value w.kv).1 <;>
            simp [Plan.finish, Write.perform, exec, Plan.outcome, Plan.kv,
              Write.apply, h]

theorem run_toProg (pl : Plan) (q : Query) (p : DefaultPolicy) (w : World σ) :
    (pl.toProg q p).run (exec env r) w =
      (.ok (pl.outcome env.client r.iv q.key w.kv),
        ⟨pl.kv env.client r.iv q.key w.kv, pl.logs env.log r.log q p w.logs⟩) := by
  obtain ⟨entry, write, reply⟩ := pl
  cases entry with
  | none => exact run_finish env r q.key write reply none w
  | some entry => exact run_finish env r q.key write reply (some entry) _

/-- The reply of a handler after its read. -/
theorem run_follow (pl : Except Exn Plan) (q : Query) (p : DefaultPolicy)
    (w : World σ) :
    ((follow q p pl).run (exec env r) w).1 =
      pl.map fun pl => pl.outcome env.client r.iv q.key w.kv := by
  cases pl with
  | error e => rfl
  | ok pl => exact congrArg Prod.fst (run_toProg env r pl q p w)

/-- What a keyed request does with the record it found, on any client. -/
def enact (req : Request) (w : World σ) :
    Except Exn Plan → Except Exn Str × World σ
  | .error e => (.error e, w)
  | .ok pl =>
      (.ok (pl.outcome env.client req.readings.iv req.query.key w.kv),
        ⟨pl.kv env.client req.readings.iv req.query.key w.kv,
          pl.logs env.log req.readings.log req.query req.policy w.logs⟩)

variable {env}

/-- A keyed request reads its record and follows the plan for it. -/
theorem serve_reads {view : σ → Store} (hReads : env.client.Reads view)
    {c : KeyCommand} {req : Request}
    (hCommand : KeyCommand.ofText req.query.cmd = some c) (w : World σ) :
    serve env req w =
      enact env req w (plan c req.query req.policy req.readings
        (view w.kv req.query.key)) := by
  have hRead : ∀ next : Option Str → Handler Str,
      (c.read req.query.key next).run (exec env req.readings) w =
        (next (view w.kv req.query.key)).run (exec env req.readings) w := by
    intro next
    cases c <;> simp [KeyCommand.read, exec, hReads.get, hReads.getm]
  rw [serve, respond_eq _ _ _ hCommand, hRead]
  cases plan c req.query req.policy req.readings
      (view w.kv req.query.key) with
  | error e => rfl
  | ok pl => exact run_toProg _ _ pl req.query req.policy w

end World

end Effects

/-- The controller on a correct key-value map. -/
def mapEnv (delAbsent : Bool) (cipher : Option Cipher) (log : LogConfig) :
    Environment Store :=
  ⟨mapClient delAbsent cipher, log⟩

namespace World

variable (delAbsent : Bool) (cipher : Option Cipher) (log : LogConfig)

/-- What a keyed request does, given the record found at its key. -/
def carryOut (req : Request) (w : World Store) :
    Except Exn Plan → Except Exn Str × World Store
  | .error e => (.error e, w)
  | .ok pl =>
      (.ok (pl.outcome (mapClient delAbsent cipher) req.readings.iv
          req.query.key w.kv),
        ⟨pl.kv (mapClient delAbsent cipher) req.readings.iv req.query.key w.kv,
          pl.logs log req.readings.log req.query req.policy w.logs⟩)

/-- **Serving a keyed request.** -/
theorem serve_keyed {c : KeyCommand} {req : Request}
    (hCommand : KeyCommand.ofText req.query.cmd = some c) (w : World Store) :
    serve (mapEnv delAbsent cipher log) req w =
      carryOut delAbsent cipher log req w
        (plan c req.query req.policy req.readings
          (KvClient.lookup cipher w.kv req.query.key)) := by
  rw [serve_reads (KvClient.reads_mapClient delAbsent cipher) hCommand]
  cases plan c req.query req.policy req.readings
      (KvClient.lookup cipher w.kv req.query.key) <;> rfl

end World

/-! ## Serving any other request -/

/-- The operations of the regulator. -/
def Op.ReadsLogs : Op → Prop
  | retrieveLogs => True
  | readLog _ _ => True
  | readKeyLog _ _ => True
  | _ => False

theorem only_readAllLogs (thres : Int64) (logs : List Str) :
    (readAllLogs thres logs).Only Op.ReadsLogs := by
  induction logs with
  | nil => trivial
  | cons log logs ih =>
      simp only [readAllLogs, Prog.perform_bind]
      exact ⟨trivial, fun read => (Prog.only_ofExcept _ _).bind
        fun entries => ih.bind fun rest => trivial⟩

theorem only_handleGetLogs (q : Query) (p : DefaultPolicy) (r : Readings) :
    (handleGetLogs q p r).Only Op.ReadsLogs := by
  simp only [handleGetLogs, Prog.perform_bind]
  split
  · trivial
  split
  · exact ⟨trivial, fun logs =>
      (only_readAllLogs _ logs).bind fun text => trivial⟩
  split
  · exact ⟨trivial, fun logs => trivial⟩
  · exact ⟨trivial, fun read =>
      (Prog.only_ofExcept _ _).bind fun entries => trivial⟩

section Other

variable {q : Query} (p : DefaultPolicy) (r : Readings)

/-- A request that is not keyed is the regulator's or unknown. -/
theorem respond_other (hCommand : KeyCommand.ofText q.cmd = none) :
    respond q p r =
      if q.cmd = lit "getlogs" then handleGetLogs q p r
      else .ret INVALID_COMMAND := by
  have hNot : ∀ c : KeyCommand, q.cmd ≠ c.text := by
    intro c hText
    rw [hText, KeyCommand.ofText_text] at hCommand
    cases hCommand
  have hGet : q.cmd ≠ lit "get" := hNot .get
  have hPut : q.cmd ≠ lit "put" := hNot .put
  have hDelete : q.cmd ≠ lit "delete" := hNot .delete
  have hPutm : q.cmd ≠ lit "putm" := hNot .putm
  have hGetm : q.cmd ≠ lit "getm" := hNot .getm
  unfold respond
  rw [if_neg hGet, if_neg hPut, if_neg hDelete, if_neg hPutm, if_neg hGetm]
  split
  · rename_i hInvalid
    rw [hInvalid]
    rfl
  · rfl

/-- Only the regulator's requests look at the logs. -/
theorem respond_other_of_not_regulator
    (hCommand : KeyCommand.ofText q.cmd = none)
    (hUser : effectiveUserKey q p ≠ regulatorKey) :
    respond q p r =
      .ret (if q.cmd = lit "getlogs" then GET_LOGS_FAILED
        else INVALID_COMMAND) := by
  have hKey : validateRegKey q p = false := by
    simpa [validateRegKey, effectiveUserKey] using hUser
  rw [respond_other p r hCommand]
  split
  · simp [handleGetLogs, hKey]
  · rfl

end Other

/-- The request is keyed, and its key is `key`. -/
def Request.OnKey (req : Request) (key : Str) : Prop :=
  (KeyCommand.ofText req.query.cmd).isSome = true ∧ req.query.key = key

namespace World

variable {σ : Type}

/-- Every other request looks at the logs at most. -/
theorem only_respond_other {q : Query} (p : DefaultPolicy) (r : Readings)
    (hCommand : KeyCommand.ofText q.cmd = none) :
    (respond q p r).Only Op.ReadsLogs := by
  rw [respond_other _ _ hCommand]
  split
  · exact only_handleGetLogs _ _ _
  · trivial

/-- It leaves the database alone. -/
theorem serve_other (env : Environment σ) {req : Request}
    (hCommand : KeyCommand.ofText req.query.cmd = none) (w : World σ) :
    (serve env req w).2.kv = w.kv := by
  refine (only_respond_other req.policy req.readings hCommand).run_keeps
    (exec env req.readings) World.kv ?_ w
  intro op w hOp
  cases op <;> first | exact hOp.elim | rfl

/-! ## Frames -/

variable (delAbsent : Bool) (cipher : Option Cipher) (log : LogConfig)

/-- A write changes its key only. -/
theorem kv_of_ne (pl : Plan) (iv key : Str) (s : Store) {other : Str}
    (h : other ≠ key) :
    pl.kv (mapClient delAbsent cipher) iv key s other = s other := by
  unfold Plan.kv
  cases pl.write with
  | none => rfl
  | some write =>
      obtain ⟨write, failed⟩ := write
      cases write with
      | put value => exact KvClient.gdprPut_mapClient_of_ne _ _ _ _ _ _ h
      | del => exact Function.update_of_ne h _ _
      | putm value =>
          simp only [Write.apply, KvClient.gdprPutm_mapClient]
          exact KvClient.gdprPut_mapClient_of_ne _ _ _ _ _ _ h

theorem serve_kv_of_not_onKey (req : Request) (w : World Store) {key : Str}
    (h : ¬ req.OnKey key) :
    (serve (mapEnv delAbsent cipher log) req w).2.kv key = w.kv key := by
  cases hCommand : KeyCommand.ofText req.query.cmd with
  | none => rw [serve_other _ hCommand]
  | some c =>
      have hKey : key ≠ req.query.key := fun hEq =>
        h ⟨by simp [hCommand], hEq.symm⟩
      rw [serve_keyed delAbsent cipher log hCommand]
      cases plan c req.query req.policy req.readings
          (KvClient.lookup cipher w.kv req.query.key) with
      | error e => rfl
      | ok pl => exact kv_of_ne delAbsent cipher pl _ _ _ hKey

/-- **The serving rule.** What every request keeps, a run keeps, and what is
known of each reply is known of all the replies that were given. -/
theorem serveAll_rule {σ : Type} (env : Environment σ) {P : Request → Prop}
    {I : World σ → Prop} {Q : Request → Except Exn Str → Prop}
    (hStep : ∀ req w, P req → I w →
      Q req (serve env req w).1 ∧ I (serve env req w).2)
    {reqs : List Request} (hReqs : ∀ req ∈ reqs, P req) {w : World σ}
    (hInv : I w) :
    I (serveAll env reqs w).2 ∧
      ∀ pair ∈ reqs.zip (serveAll env reqs w).1, Q pair.1 pair.2 := by
  induction reqs generalizing w with
  | nil => exact ⟨hInv, fun pair h => nomatch h⟩
  | cons req reqs ih =>
      obtain ⟨hReply, hNext⟩ := hStep req w (hReqs req (by simp)) hInv
      rw [serveAll]
      cases hServe : serve env req w with
      | mk outcome w' =>
          rw [hServe] at hReply hNext
          cases outcome with
          | error e =>
              refine ⟨hNext, fun pair hPair => ?_⟩
              simp only [List.zip_cons_cons, List.zip_nil_right,
                List.mem_singleton] at hPair
              exact hPair ▸ hReply
          | ok reply =>
              obtain ⟨hEnd, hLater⟩ := ih (fun r hr => hReqs r (by simp [hr]))
                hNext
              refine ⟨hEnd, fun pair hPair => ?_⟩
              simp only [List.zip_cons_cons, List.mem_cons] at hPair
              cases hPair with
              | inl hHead => exact hHead ▸ hReply
              | inr hTail => exact hLater pair hTail

/-- What every request of a run leaves alone, the run leaves alone. -/
theorem serveAll_kv_of_not_onKey (reqs : List Request) (w : World Store)
    {key : Str} (h : ∀ req ∈ reqs, ¬ req.OnKey key) :
    (serveAll (mapEnv delAbsent cipher log) reqs w).2.kv key = w.kv key := by
  refine (serveAll_rule (mapEnv delAbsent cipher log)
    (I := fun w' => w'.kv key = w.kv key) (Q := fun _ _ => True)
    ?_ h rfl).1
  intro req w' hNot hSame
  refine ⟨trivial, ?_⟩
  rw [serve_kv_of_not_onKey delAbsent cipher log req w' hNot, hSame]

end World

end GDPRuler.Controller
