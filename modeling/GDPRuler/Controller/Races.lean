import Mathlib.Data.List.Permutation
import GDPRuler.Verified.Interleave
import GDPRuler.Controller.Plans

/-!
# Overlapping requests

Every connection has a thread of its own, and nothing is held between the
read a handler decides on and the write it then sends.  So requests on one
key can overlap, and what was decided may be out of date when it is written:
`revoked_share_restored` is an update put that undoes a revocation
acknowledged in between.

What the handlers do guarantee is stated by `linearizable_of_current`.  If
every write finds the store in a state in which the handler would decide
the same again, for instance because the record is still the one read, then the
run is linearizable: the read is the commit point of a request that does not
write, and the write that of one that does.

## Main results

* `linearizable_of_current` — linearizability of runs without stale writes;
* `linearizable_of_owned` — no write is stale when every key has one client;
* `revoked_share_restored` — a run that is not linearizable.
-/

namespace GDPRuler.Controller

open GDPRuler.Verified GDPRuler.Verified.Transition
open GDPRuler.Verified.Interleave

/-! ## The shared store -/

/-- The database operations on the shared store; the logger does not touch it. -/
def kvExec (delAbsent : Bool) (r : Readings) (op : Op) (s : Store) :
    op.Res × Store :=
  let answer := World.exec (mapEnv delAbsent none ⟨[], none⟩) r op ⟨s, []⟩
  (answer.1, answer.2.kv)

/-- The handlers over the shared store, one request per client at a time. -/
def controllers (delAbsent : Bool) :
    System KeyedRequest Op Op.Res Exn Str Store where
  body req := respond req.query req.policy req.readings
  exec req := kvExec delAbsent req.readings

/-- What a handler plans on finding `res`. -/
def KeyedRequest.planOn (req : KeyedRequest) (res : Option Str) :
    Except Exn Plan :=
  plan req.command req.query req.policy req.readings res

/-- An operation that does not look at the logs. -/
def Op.NotReadsLogs (op : Op) : Prop := ¬ op.ReadsLogs

theorem only_toProg (pl : Plan) (q : Query) (p : DefaultPolicy) :
    (pl.toProg q p).Only Op.NotReadsLogs := by
  have hFinish : (Plan.finish q.key pl.write pl.reply).Only
      Op.NotReadsLogs := by
    unfold Plan.finish
    split
    · trivial
    · rename_i write failed _
      have hReply : ∀ ok : Bool,
          (if ok = true then (.ret pl.reply : Handler Str)
            else .ret failed).Only Op.NotReadsLogs := by
        intro ok
        cases ok <;> trivial
      cases write <;> exact ⟨id, hReply⟩
  unfold Plan.toProg
  split
  · exact hFinish
  · exact ⟨id, fun _ => hFinish⟩

section Controllers

variable (delAbsent : Bool)

theorem only_respond (req : KeyedRequest) :
    (respond req.query req.policy req.readings).Only Op.NotReadsLogs := by
  have hFollow : ∀ pl, (follow req.query req.policy pl).Only
      Op.NotReadsLogs := by
    intro pl
    cases pl with
    | error e => trivial
    | ok pl => exact only_toProg pl _ _
  rw [respond_eq _ _ _ req.isCommand]
  cases req.command <;> exact ⟨id, fun res => hFollow _⟩

/-- A request run alone on the shared store. -/
theorem run_respond (req : KeyedRequest) (s : Store) :
    (respond req.query req.policy req.readings).run
        (kvExec delAbsent req.readings) s =
      match req.planOn (s req.query.key) with
      | .error e => (.error e, s)
      | .ok pl =>
          (.ok (pl.outcome (mapClient delAbsent none) req.readings.iv
              req.query.key s),
            pl.kv (mapClient delAbsent none) req.readings.iv req.query.key s) := by
  have hServe := World.serve_keyed delAbsent none ⟨[], none⟩ req.isCommand
    ⟨s, []⟩
  have hAnswers : ∀ op (w : World Store), Op.NotReadsLogs op →
      kvExec delAbsent req.readings op w.kv =
        ((World.exec (mapEnv delAbsent none ⟨[], none⟩) req.readings op w).1,
          (World.exec (mapEnv delAbsent none ⟨[], none⟩) req.readings op
            w).2.kv) := by
    intro op w hOp
    cases op <;> first | rfl | exact absurd trivial hOp
  have hView := (only_respond req).run_view
    (World.exec (mapEnv delAbsent none ⟨[], none⟩) req.readings) World.kv
    hAnswers ⟨s, []⟩
  unfold World.serve at hServe
  rw [hView, hServe]
  simp only [KvClient.lookup_plain, KeyedRequest.planOn]
  cases plan req.command req.query req.policy req.readings
      (s req.query.key) <;> rfl

/-! ## Stages of a request -/

/-- The record in the answer to a read. -/
def answered : Sigma Op.Res → Option Str
  | ⟨.gdprGet _, res⟩ => res
  | ⟨.gdprGetm _, res⟩ => res
  | _ => none

/-- The record a request found, from the answers it has seen. -/
def found (seen : List (Sigma Op.Res)) : Option Str :=
  (seen.head?.map answered).getD none

theorem found_append {seen : List (Sigma Op.Res)} (h : seen ≠ [])
    (later : List (Sigma Op.Res)) : found (seen ++ later) = found seen := by
  cases seen with
  | nil => exact absurd rfl h
  | cons read seen => rfl

/-- How far a request has come: what remains of its program, and the answers
it has seen. -/
inductive Stage (req : KeyedRequest) : Handler Str → List (Sigma Op.Res) → Prop
  | reading :
      Stage req (req.command.read req.query.key fun res =>
        follow req.query req.policy (req.planOn res)) []
  | raised (e : Exn) (seen : List (Sigma Op.Res))
      (hPlan : req.planOn (found seen) = .error e) (hRead : seen ≠ []) :
      Stage req (.fail e) seen
  | logging (pl : Plan) (valid : Bool) (newVal : Str)
      (seen : List (Sigma Op.Res))
      (hPlan : req.planOn (found seen) = .ok pl) (hRead : seen ≠ []) :
      Stage req (.call (.logEncodedQuery req.query req.policy valid newVal)
        fun _ => Plan.finish req.query.key pl.write pl.reply) seen
  | writing (pl : Plan) (write : Write) (failed : Str)
      (seen : List (Sigma Op.Res))
      (hPlan : req.planOn (found seen) = .ok pl) (hRead : seen ≠ [])
      (hWrite : pl.write = some (write, failed)) :
      Stage req (write.perform req.query.key fun ok =>
        if ok then .ret pl.reply else .ret failed) seen
  | replied (reply : Str) (seen : List (Sigma Op.Res)) :
      Stage req (.ret reply) seen

namespace Stage

variable {req : KeyedRequest} {seen : List (Sigma Op.Res)}

theorem of_finish {pl : Plan} (hPlan : req.planOn (found seen) = .ok pl)
    (hRead : seen ≠ []) :
    Stage req (Plan.finish req.query.key pl.write pl.reply) seen := by
  unfold Plan.finish
  cases hWrite : pl.write with
  | none => exact replied pl.reply seen
  | some write => exact writing pl write.1 write.2 seen hPlan hRead hWrite

theorem of_follow (hRead : seen ≠ []) :
    Stage req (follow req.query req.policy (req.planOn (found seen))) seen := by
  cases hPlan : req.planOn (found seen) with
  | error e => exact raised e seen hPlan hRead
  | ok pl =>
      simp only [follow, Plan.toProg]
      cases pl.entry with
      | none => exact of_finish hPlan hRead
      | some entry => exact logging pl entry.1 entry.2 seen hPlan hRead

private theorem read_call {c : KeyCommand} {key : Str}
    {rest : Option Str → Handler Str} {op : Op} {next : op.Res → Handler Str}
    (h : c.read key rest = .call op next) (answer : op.Res) :
    next answer = rest (answered ⟨op, answer⟩) := by
  cases c <;> cases h <;> rfl

private theorem perform_call {write : Write} {key : Str}
    {rest : Bool → Handler Str} {op : Op} {next : op.Res → Handler Str}
    (h : write.perform key rest = .call op next) (answer : op.Res) :
    ∃ ok, next answer = rest ok := by
  cases write <;> cases h <;> exact ⟨answer, rfl⟩

/-- A request stays at a stage whatever its operations are answered. -/
theorem advance {prog : Handler Str} {op : Op} {next : op.Res → Handler Str}
    (h : Stage req prog seen) (hProg : prog = .call op next)
    (answer : op.Res) : Stage req (next answer) (seen ++ [⟨op, answer⟩]) := by
  cases h with
  | reading =>
      have hRead : ([⟨op, answer⟩] : List (Sigma Op.Res)) ≠ [] :=
        List.cons_ne_nil _ _
      rw [read_call hProg answer]
      exact of_follow hRead
  | raised e seen hPlan hRead => cases hProg
  | logging pl valid newVal seen hPlan hRead =>
      cases hProg
      rw [← found_append hRead [⟨_, answer⟩]] at hPlan
      exact of_finish hPlan (by simp)
  | writing pl write failed seen hPlan hRead hWrite =>
      obtain ⟨ok, hNext⟩ := perform_call hProg answer
      rw [hNext]
      cases ok with
      | true => exact replied pl.reply _
      | false => exact replied failed _
  | replied reply seen => cases hProg

end Stage

/-! ## Commit points -/

/-- An operation that changes the database. -/
def Op.Writes : Op → Prop
  | gdprPut _ _ => True
  | gdprDel _ => True
  | gdprPutm _ _ => True
  | _ => False

theorem Write.perform_unsettled (write : Write) (r : Readings) (key : Str)
    (rest : Bool → Handler Str) (a : Except Exn Str) :
    ¬ Settles (kvExec delAbsent r) (write.perform key rest) a := by
  -- A put changes the empty store, a deletion any store with a record.
  intro h
  cases write with
  | put value =>
      cases h with
      | call _ _ _ hKeep _ =>
          have hEmpty := congrFun (hKeep fun _ => none) key
          simp [kvExec, World.exec, mapEnv] at hEmpty
  | del =>
      cases h with
      | call _ _ _ hKeep _ =>
          have hFull := congrFun (hKeep fun _ => some []) key
          simp [kvExec, World.exec, mapEnv, KvClient.gdprDel_mapClient]
            at hFull
  | putm value =>
      cases h with
      | call _ _ _ hKeep _ =>
          have hEmpty := congrFun (hKeep fun _ => none) key
          simp [kvExec, World.exec, mapEnv, KvClient.gdprPutm_mapClient]
            at hEmpty

/-- A plan that writes nothing is settled. -/
theorem settles_finish (req : KeyedRequest) (pl : Plan)
    (hWrite : pl.write = none) :
    Settles (kvExec delAbsent req.readings)
      (Plan.finish req.query.key pl.write pl.reply) (.ok pl.reply) := by
  rw [hWrite]
  exact .ret pl.reply

theorem settles_toProg (req : KeyedRequest) (pl : Plan)
    (hWrite : pl.write = none) :
    Settles (kvExec delAbsent req.readings)
      (pl.toProg req.query req.policy) (.ok pl.reply) := by
  have hFinish := settles_finish delAbsent req pl hWrite
  unfold Plan.toProg
  cases pl.entry with
  | none => exact hFinish
  | some entry => exact .call _ _ _ (fun s => rfl) fun s => hFinish

/-- A plan with a write is not. -/
theorem unsettled_finish (req : KeyedRequest) (pl : Plan)
    {write : Write × Str} (hWrite : pl.write = some write)
    (a : Except Exn Str) :
    ¬ Settles (kvExec delAbsent req.readings)
      (Plan.finish req.query.key pl.write pl.reply) a := by
  rw [hWrite]
  exact write.1.perform_unsettled delAbsent _ _ _ a

theorem unsettled_toProg (req : KeyedRequest) (pl : Plan)
    {write : Write × Str} (hWrite : pl.write = some write)
    (a : Except Exn Str) :
    ¬ Settles (kvExec delAbsent req.readings)
      (pl.toProg req.query req.policy) a := by
  have hFinish := unsettled_finish delAbsent req pl hWrite a
  unfold Plan.toProg
  cases pl.entry with
  | none => exact hFinish
  | some entry =>
      intro h
      cases h with
      | call _ _ _ _ hNext => exact hFinish (hNext fun _ => none)

/-- Client `i` does not write on a decision that is out of date: at its write
the handler would, on the record now at its key, plan what it planned on the
record it read. -/
def Current (c : Config KeyedRequest Op Op.Res Exn Str Store) (i : Nat) :
    Prop :=
  ∀ t op next, (c.clients i).running = some t → t.prog = .call op next →
    op.Writes →
    t.req.planOn (c.shared t.req.query.key) = t.req.planOn (found t.seen)

/-- Given the record now at its key, the write of a request is allowed: the
record grants the request; on an absent key the write is that of a new record,
made of nothing but the request's own query and policy. -/
def KeyedRequest.MayWrite (req : KeyedRequest) (op : Op) : Option Str → Prop
  | none => op = .gdprPut req.query.key (QueryRewriter.insert req.query
      req.policy req.query.value req.readings.rewriteTime)
  | some value => ∃ f, GdprFilter.ofValue (some value) = .ok f ∧
      f.validate req.query req.policy req.readings.validateTime = true

/-- A write of client `i` is allowed by the record it replaces. -/
def WriteGranted (c : Config KeyedRequest Op Op.Res Exn Str Store) (i : Nat) :
    Prop :=
  ∀ t op next, (c.clients i).running = some t → t.prog = .call op next →
    op.Writes → t.req.MayWrite op (c.shared t.req.query.key)

/-- Every request in flight is at a stage. -/
def Staged (c : Config KeyedRequest Op Op.Res Exn Str Store) : Prop :=
  ∀ i t, (c.clients i).running = some t → Stage t.req t.prog t.seen

theorem first_staged (s : Store) (queues : Nat → List KeyedRequest) :
    Staged (Config.init s queues) := by
  intro i t hRunning
  cases hRunning

/-- One step keeps every request at a stage. -/
theorem Staged.step {c c' : Config KeyedRequest Op Op.Res Exn Str Store}
    {i : Nat} (h : Staged c) (hStep : step (controllers delAbsent) c i = some c') :
    Staged c' := by
  -- Only client `i` moves.
  have hOthers : ∀ client : Client KeyedRequest Op Op.Res Exn Str,
      c'.clients = Function.update c.clients i client →
      (∀ t, client.running = some t → Stage t.req t.prog t.seen) →
      Staged c' := by
    intro client hClients hStage
    unfold Staged
    rw [hClients]
    exact (Function.forall_update_iff c.clients (p := fun _ client =>
      ∀ t, client.running = some t → Stage t.req t.prog t.seen)).mpr
      ⟨hStage, fun j _ => h j⟩
  unfold Interleave.step at hStep
  split at hStep
  · split at hStep
    · cases hStep
    · rename_i req rest hQueue
      cases hStep
      refine hOthers _ rfl fun t hRunning => ?_
      cases hRunning
      have hRespond := respond_eq req.query req.policy req.readings
        req.isCommand
      simp only [controllers]
      rw [hRespond]
      exact .reading
  · rename_i t hRunning
    split at hStep
    · cases hStep
      exact hOthers _ rfl fun t hNone => by cases hNone
    · cases hStep
      exact hOthers _ rfl fun t hNone => by cases hNone
    · rename_i op next hProg
      cases hStep
      refine hOthers _ rfl fun t' hNext => ?_
      cases hNext
      exact (h i t hRunning).advance hProg _

/-! ## Steps at their commit points -/

private theorem read_exec {c : KeyCommand} {key : Str}
    {rest : Option Str → Handler Str} {op : Op} {next : op.Res → Handler Str}
    (h : c.read key rest = .call op next) (r : Readings) (s : Store) :
    next (kvExec delAbsent r op s).1 = rest (s key) ∧
      (kvExec delAbsent r op s).2 = s ∧ ¬ op.Writes := by
  cases c <;> cases h <;> exact ⟨rfl, rfl, id⟩

private theorem perform_exec {write : Write} {key : Str}
    {rest : Bool → Handler Str} {op : Op} {next : op.Res → Handler Str}
    (h : write.perform key rest = .call op next) (r : Readings) (s : Store) :
    next (kvExec delAbsent r op s).1 =
        rest (write.apply (mapClient delAbsent none) r.iv key s).1 ∧
      (kvExec delAbsent r op s).2 =
        (write.apply (mapClient delAbsent none) r.iv key s).2 ∧ op.Writes := by
  cases write <;> cases h <;> exact ⟨rfl, rfl, trivial⟩

/-- The read settles the requests that do not write. -/
theorem commits_read (req : KeyedRequest) (s : Store) :
    (∀ a, ¬ Settles (kvExec delAbsent req.readings)
        (follow req.query req.policy (req.planOn (s req.query.key))) a) ∨
    ∃ a, Settles (kvExec delAbsent req.readings)
        (follow req.query req.policy (req.planOn (s req.query.key))) a ∧
      (respond req.query req.policy req.readings).run
        (kvExec delAbsent req.readings) s = (a, s) := by
  rw [run_respond]
  cases req.planOn (s req.query.key) with
  | error e => exact .inr ⟨_, .fail e, rfl⟩
  | ok pl =>
      cases hWrite : pl.write with
      | none =>
          refine .inr ⟨_, settles_toProg delAbsent req pl hWrite, ?_⟩
          simp [Plan.outcome, Plan.kv, hWrite]
      | some write => exact .inl (unsettled_toProg delAbsent req pl hWrite)

/-- **Steps without stale writes keep to their commit points.** -/
theorem Staged.commits {c : Config KeyedRequest Op Op.Res Exn Str Store}
    {i : Nat} (h : Staged c) (hCurrent : Current c i) :
    Commits (controllers delAbsent) c i := by
  rintro ⟨req, start, prog, seen⟩ op next hRunning hProg
  obtain rfl : prog = .call op next := hProg
  have hStage : Stage req (.call op next) seen := h i _ hRunning
  have hHere : op.Writes → req.planOn (c.shared req.query.key) =
      req.planOn (found seen) := hCurrent _ op next hRunning rfl
  generalize hCall : Prog.call op next = prog at hStage
  cases hStage with
  | reading =>
      obtain ⟨hNext, hKeep, _⟩ := read_exec delAbsent hCall.symm req.readings
        c.shared
      have hRead := commits_read delAbsent req c.shared
      simp only [controllers, hNext, hKeep]
      cases hRead with
      | inl hUnsettled => exact .inr (.inl ⟨hUnsettled, trivial⟩)
      | inr hSettled => exact .inr (.inr hSettled)
  | raised e _ hPlan hRead => cases hCall
  | logging pl valid newVal _ hPlan hRead =>
      cases hCall
      cases hWrite : pl.write with
      | none =>
          have hFinish := settles_finish delAbsent req pl hWrite
          rw [hWrite] at hFinish
          exact .inl ⟨_, .call _ _ _ (fun s => rfl) fun s => hFinish⟩
      | some write =>
          have hFinish := unsettled_finish delAbsent req pl hWrite
          rw [hWrite] at hFinish
          exact .inr (.inl ⟨hFinish, rfl⟩)
  | writing pl write failed _ hPlan hRead hWrite =>
      obtain ⟨hNext, hStore, hWrites⟩ := perform_exec delAbsent hCall.symm
        req.readings c.shared
      have hRun := run_respond delAbsent req c.shared
      rw [hHere hWrites, hPlan] at hRun
      simp only at hRun
      have hKv : pl.kv (mapClient delAbsent none) req.readings.iv
          req.query.key c.shared = (kvExec delAbsent req.readings op
            c.shared).2 := by
        simp only [Plan.kv, hWrite, hStore]
      rw [hKv] at hRun
      refine .inr (.inr ⟨_, ?_, hRun⟩)
      simp only [controllers, hNext, Plan.outcome, hWrite]
      split
      · exact .ret _
      · exact .ret _
  | replied reply seen => cases hCall

/-- A planned write is allowed by the record it is planned on. -/
theorem plan_mayWrite (req : KeyedRequest) {res : Option Str} {pl : Plan}
    (hPlan : req.planOn res = .ok pl) {write : Write} {failed : Str}
    (hWrite : pl.write = some (write, failed)) {rest : Bool → Handler Str}
    {op : Op} {next : op.Res → Handler Str}
    (hCall : write.perform req.query.key rest = .call op next) :
    req.MayWrite op res := by
  unfold KeyedRequest.planOn at hPlan
  cases res with
  | none =>
      cases hPlan
      cases hCommand : req.command with
      | put =>
          simp only [hCommand, absentPlan, Option.some.injEq,
            Prod.mk.injEq] at hWrite
          obtain ⟨rfl, _⟩ := hWrite
          cases hCall
          rfl
      | _ => simp [hCommand, absentPlan] at hWrite
  | some value =>
      cases hValue : GdprFilter.ofValue (some value) with
      | error e =>
          rw [plan_error hValue] at hPlan
          cases hPlan
      | ok f =>
          refine ⟨f, hValue, ?_⟩
          cases hValid : f.validate req.query req.policy
              req.readings.validateTime with
          | true => rfl
          | false =>
              rw [plan_denied hValue hValid] at hPlan
              cases hPlan
              cases hWrite

/-- A request at a write has planned it on the record it found. -/
theorem Stage.of_writes {req : KeyedRequest} {op : Op}
    {next : op.Res → Handler Str} {seen : List (Sigma Op.Res)}
    (h : Stage req (.call op next) seen) (hWrites : op.Writes) :
    seen ≠ [] ∧ ∃ pl write failed, req.planOn (found seen) = .ok pl ∧
      pl.write = some (write, failed) ∧
      write.perform req.query.key (fun ok =>
        if ok then .ret pl.reply else .ret failed) = .call op next := by
  generalize hCall : Prog.call op next = prog at h
  cases h with
  | reading =>
      exact absurd hWrites (read_exec false hCall.symm req.readings
        fun _ => none).2.2
  | raised e _ hPlan hRead => cases hCall
  | logging pl valid newVal _ hPlan hRead =>
      cases hCall
      exact hWrites.elim
  | writing pl write failed _ hPlan hRead hWrite =>
      exact ⟨hRead, pl, write, failed, hPlan, hWrite, rfl⟩
  | replied reply _ => cases hCall

/-- The stage of a request in flight, at its next operation. -/
theorem Staged.stage {c : Config KeyedRequest Op Op.Res Exn Str Store}
    {i : Nat} (h : Staged c) {t : Interleave.Task KeyedRequest Op Op.Res Exn Str}
    {op : Op} {next : op.Res → Handler Str}
    (hRunning : (c.clients i).running = some t)
    (hProg : t.prog = .call op next) : Stage t.req (.call op next) t.seen :=
  hProg ▸ h i t hRunning

theorem Staged.writeGranted {c : Config KeyedRequest Op Op.Res Exn Str Store}
    {i : Nat} (h : Staged c) (hCurrent : Current c i) : WriteGranted c i := by
  intro t op next hRunning hProg hWrites
  obtain ⟨_, pl, write, failed, hPlan, hWrite, hCall⟩ :=
    (h.stage hRunning hProg).of_writes hWrites
  have hHere := hCurrent t op next hRunning hProg hWrites
  exact plan_mayWrite t.req (hHere.trans hPlan) hWrite hCall

private theorem staged_step (c : Config KeyedRequest Op Op.Res Exn Str Store)
    (i : Nat) (c' : Config KeyedRequest Op Op.Res Exn Str Store)
    (h : Staged c) (hStep : step (controllers delAbsent) c i = some c') :
    Staged c' :=
  h.step delAbsent hStep

theorem allCommits_of_allCurrent (s : Store)
    (queues : Nat → List KeyedRequest) {schedule : List Nat}
    (hCurrent : AllSteps (step (controllers delAbsent)) Current schedule
      (Config.init s queues)) :
    AllSteps (step (controllers delAbsent)) (Commits (controllers delAbsent))
      schedule (Config.init s queues) :=
  hCurrent.of_invariant (staged_step delAbsent)
    (fun _ _ h hHere => h.commits delAbsent hHere) (first_staged s queues)

/--
**Linearizability without stale writes.** For any number of clients, any
requests and any interleaving of their operations: if every write finds the
store in a state in which its handler would plan the same again, then the
final store and all replies are those of some sequential order of the
requests that respects real time, every record written over grants its
writer, and what is written on an absent key is a new record.
-/
theorem linearizable_of_current (s : Store) (queues : Nat → List KeyedRequest)
    (schedule : List Nat) {c : Config KeyedRequest Op Op.Res Exn Str Store}
    (hCurrent : AllSteps (step (controllers delAbsent)) Current schedule
      (Config.init s queues))
    (hRun : run (step (controllers delAbsent)) schedule
      (Config.init s queues) = some c)
    (hFinished : c.Finished) :
    Linearizable (controllers delAbsent) s c ∧
      AllSteps (step (controllers delAbsent)) WriteGranted schedule
        (Config.init s queues) := by
  constructor
  · exact linearizable_of_commits _ s queues schedule
      (allCommits_of_allCurrent delAbsent s queues hCurrent) hRun hFinished
  · exact hCurrent.of_invariant (staged_step delAbsent)
      (fun _ _ h hHere => h.writeGranted hHere) (first_staged s queues)

/-! ## Keys with one client -/

/-- Every key has one client, and what a request found there has not changed
as long as the request is at work. -/
structure Owned (owner : Str → Nat)
    (c : Config KeyedRequest Op Op.Res Exn Str Store) : Prop where
  staged : Staged c
  queued : ∀ i, ∀ req ∈ (c.clients i).queue, owner req.query.key = i
  running : ∀ i t, (c.clients i).running = some t →
    owner t.req.query.key = i
  fresh : ∀ i t op next, (c.clients i).running = some t →
    t.prog = .call op next → t.seen ≠ [] →
    found t.seen = c.shared t.req.query.key

theorem first_owned (owner : Str → Nat) (s : Store)
    (queues : Nat → List KeyedRequest)
    (hQueues : ∀ i, ∀ req ∈ queues i, owner req.query.key = i) :
    Owned owner (Config.init s queues) := by
  refine
    { staged := first_staged s queues
      queued := hQueues
      running := ?_
      fresh := ?_ }
  · intro i t hRunning
    cases hRunning
  · intro i t op next hRunning
    cases hRunning

/-- An operation of a request changes its own key only, and while the request
has more to do not even that. -/
theorem Stage.exec_shared {req : KeyedRequest} {prog : Handler Str}
    {seen : List (Sigma Op.Res)} (h : Stage req prog seen) {op : Op}
    {next : op.Res → Handler Str} (hProg : prog = .call op next) (s : Store) :
    (∀ key, key ≠ req.query.key →
      (kvExec delAbsent req.readings op s).2 key = s key) ∧
    (∀ op' next', next (kvExec delAbsent req.readings op s).1 =
        .call op' next' → (kvExec delAbsent req.readings op s).2 = s ∧
      (seen ≠ [] ∨ found [⟨op, (kvExec delAbsent req.readings op s).1⟩] =
        s req.query.key)) := by
  cases h with
  | reading =>
      cases hCommand : req.command <;> rw [hCommand] at hProg <;> cases hProg <;>
        exact ⟨fun _ _ => rfl, fun _ _ _ => ⟨rfl, .inr rfl⟩⟩
  | raised e _ hPlan hRead => cases hProg
  | logging pl valid newVal _ hPlan hRead =>
      cases hProg
      exact ⟨fun _ _ => rfl, fun _ _ _ => ⟨rfl, .inl hRead⟩⟩
  | writing pl write failed _ hPlan hRead hWrite =>
      obtain ⟨hNext, hStore, _⟩ := perform_exec delAbsent hProg
        req.readings s
      constructor
      · intro key hKey
        rw [hStore]
        have hOther := World.kv_of_ne delAbsent none pl req.readings.iv
          req.query.key s hKey
        rw [Plan.kv, hWrite] at hOther
        exact hOther
      · intro op' next' hCall
        rw [hNext] at hCall
        split at hCall <;> cases hCall
  | replied reply _ => cases hProg

/-- A step of client `i` that leaves the keys of the others alone. -/
private theorem Owned.move {owner : Str → Nat}
    {c c' : Config KeyedRequest Op Op.Res Exn Str Store} {i : Nat}
    {client : Client KeyedRequest Op Op.Res Exn Str} (h : Owned owner c)
    (hStaged : Staged c')
    (hClients : c'.clients = Function.update c.clients i client)
    (hShared : ∀ key, owner key ≠ i → c'.shared key = c.shared key)
    (hQueue : ∀ req ∈ client.queue, owner req.query.key = i)
    (hRunning : ∀ t, client.running = some t → owner t.req.query.key = i)
    (hFresh : ∀ t op next, client.running = some t → t.prog = .call op next →
      t.seen ≠ [] → found t.seen = c'.shared t.req.query.key) :
    Owned owner c' := by
  refine
    { staged := hStaged
      queued := ?_
      running := ?_
      fresh := ?_ }
  · rw [hClients]
    exact (Function.forall_update_iff c.clients (p := fun j client =>
      ∀ req ∈ client.queue, owner req.query.key = j)).mpr
      ⟨hQueue, fun j _ => h.queued j⟩
  · rw [hClients]
    exact (Function.forall_update_iff c.clients (p := fun j client =>
      ∀ t, client.running = some t → owner t.req.query.key = j)).mpr
      ⟨hRunning, fun j _ => h.running j⟩
  · rw [hClients]
    refine (Function.forall_update_iff c.clients (p := fun j client =>
      ∀ t op next, client.running = some t → t.prog = .call op next →
        t.seen ≠ [] → found t.seen = c'.shared t.req.query.key)).mpr
      ⟨hFresh, ?_⟩
    intro j hj t op next ht hProg hSeen
    rw [hShared _ (h.running j t ht ▸ hj)]
    exact h.fresh j t op next ht hProg hSeen

/-- One step keeps the keys with their clients. -/
theorem Owned.step {owner : Str → Nat}
    {c c' : Config KeyedRequest Op Op.Res Exn Str Store} {i : Nat}
    (h : Owned owner c)
    (hStep : Interleave.step (controllers delAbsent) c i = some c') :
    Owned owner c' := by
  have hStaged := h.staged.step delAbsent hStep
  unfold Interleave.step at hStep
  split at hStep
  · split at hStep
    · cases hStep
    · rename_i req rest hQueue
      have hOld := h.queued i
      rw [hQueue] at hOld
      cases hStep
      refine h.move hStaged rfl (fun _ _ => rfl)
        (fun r hr => hOld r (by simp [hr])) ?_ ?_
      · intro t ht
        cases ht
        exact hOld req (by simp)
      · intro t op next ht hProg hSeen
        cases ht
        exact absurd rfl hSeen
  · rename_i t hRunning
    have hOwner := h.running i t hRunning
    split at hStep
    · cases hStep
      exact h.move hStaged rfl (fun _ _ => rfl) (h.queued i)
        (fun t ht => by cases ht) (fun t _ _ ht => by cases ht)
    · cases hStep
      exact h.move hStaged rfl (fun _ _ => rfl) (h.queued i)
        (fun t ht => by cases ht) (fun t _ _ ht => by cases ht)
    · rename_i op next hProg
      obtain ⟨hOthers, hOwn⟩ := (h.staged i t hRunning).exec_shared delAbsent
        hProg c.shared
      have hFound := h.fresh i t op next hRunning hProg
      cases hStep
      refine h.move hStaged rfl ?_ (h.queued i) ?_ ?_
      · intro key hKey
        exact hOthers key fun hEq => hKey (hEq ▸ hOwner)
      · intro t' ht
        cases ht
        exact hOwner
      · intro t' op' next' ht hProg' _
        cases ht
        obtain ⟨hKeep, hRead⟩ := hOwn op' next' hProg'
        refine Eq.trans ?_ (congrFun hKeep t.req.query.key).symm
        by_cases hSeen : t.seen = []
        · simp only [hSeen, List.nil_append]
          exact hRead.resolve_left fun hNot => hNot hSeen
        · exact (found_append hSeen _).trans (hFound hSeen)

theorem Owned.current {owner : Str → Nat}
    {c : Config KeyedRequest Op Op.Res Exn Str Store} (h : Owned owner c)
    (i : Nat) : Current c i := by
  intro t op next hRunning hProg hWrites
  have hSeen := ((h.staged.stage hRunning hProg).of_writes hWrites).1
  rw [h.fresh i t op next hRunning hProg hSeen]

/-- No write is stale when every key has one client. -/
theorem current_of_owned (owner : Str → Nat) (s : Store)
    (queues : Nat → List KeyedRequest) (schedule : List Nat)
    (hQueues : ∀ i, ∀ req ∈ queues i, owner req.query.key = i) :
    AllSteps (step (controllers delAbsent)) Current schedule
      (Config.init s queues) :=
  (allSteps_of_forall (fun _ _ => trivial) schedule _ :
    AllSteps _ (fun _ _ => True) _ _).of_invariant
    (fun _ _ _ h => Owned.step delAbsent h) (fun _ i h _ => h.current i)
    (first_owned owner s queues hQueues)

/-- **Keys with one client.** When every key has one client, every
interleaving is linearizable. -/
theorem linearizable_of_owned (owner : Str → Nat) (s : Store)
    (queues : Nat → List KeyedRequest) (schedule : List Nat)
    {c : Config KeyedRequest Op Op.Res Exn Str Store}
    (hQueues : ∀ i, ∀ req ∈ queues i, owner req.query.key = i)
    (hRun : run (step (controllers delAbsent)) schedule
      (Config.init s queues) = some c)
    (hFinished : c.Finished) : Linearizable (controllers delAbsent) s c :=
  linearizable_of_commits _ s queues schedule
    (allCommits_of_allCurrent delAbsent s queues
      (current_of_owned delAbsent owner s queues schedule hQueues))
    hRun hFinished

end Controllers

/-! ## A stale write -/

/-- A run of clients 0 and 1 is finished when both are idle. -/
private theorem finished_of_two {s : Store} {queues : Nat → List KeyedRequest}
    {schedule : List Nat} {c : Config KeyedRequest Op Op.Res Exn Str Store}
    (hRun : run (step (controllers true)) schedule (Config.init s queues) =
      some c)
    (hTwo : ∀ i ∈ schedule, i < 2) (hQueues : ∀ i, queues (i + 2) = [])
    (hIdle : ∀ i < 2, (run (step (controllers true)) schedule
      (Config.init s queues)).map
        (fun c => ((c.clients i).queue, (c.clients i).running.isNone)) =
      some ([], true)) : c.Finished := by
  intro i
  by_cases hi : i < 2
  · have hClient := hIdle i hi
    rw [hRun, Option.map_some, Option.some.injEq, Prod.mk.injEq,
      Option.isNone_iff_eq_none] at hClient
    cases hClients : c.clients i with
    | mk queue running =>
        rw [hClients] at hClient
        obtain ⟨rfl, rfl⟩ := hClient
        rfl
  · rw [run_clients_of_not_mem hRun fun hMem => hi (hTwo i hMem)]
    obtain ⟨j, rfl⟩ : ∃ j, i = j + 2 := ⟨i - 2, by omega⟩
    simp only [Config.init, hQueues]

/-- Bob's put of `v1` at `k`. -/
def bobPut : KeyedRequest where
  query := { cmd := lit "put", key := lit "k", value := lit "v1" }
  policy := { alicePolicy with userKey := lit "bob" }
  readings := Readings.constant 0
  command := .put
  isCommand := by decide

/-- Alice's revocation of all shares of `k`. -/
def aliceRevokes : KeyedRequest where
  query := { cmd := lit "putm", key := lit "k", share := some [] }
  policy := alicePolicy
  readings := Readings.constant 0
  command := .putm
  isCommand := by decide

/-- Alice's record at `k`, shared with bob. -/
def sharedWithBob : Store := fun key =>
  if key = lit "k" then some (lit "alice|0|2|0|home|0|bob|0|v0") else none

def raceQueues : Nat → List KeyedRequest
  | 0 => [bobPut]
  | 1 => [aliceRevokes]
  | _ => []

/-- Bob's put reads, alice's revocation runs from start to `PUTM_SUCCESS`, and
bob's put goes on to write. -/
def raceSchedule : List Nat := [0, 0, 1, 1, 1, 1, 0, 0]

/-- The stale write: both requests are acknowledged, and the record is
shared with bob again.  No order of the two explains this. -/
theorem revoked_share_restored :
    ∃ c, run (step (controllers true)) raceSchedule
        (Config.init sharedWithBob raceQueues) = some c ∧
      c.Finished ∧
      c.done.map (fun d => (d.req, d.outcome)) =
        [(aliceRevokes, .ok PUTM_SUCCESS), (bobPut, .ok PUT_SUCCESS)] ∧
      c.shared (lit "k") = some (lit "alice|0|2|0|home|0|bob|0|v1") ∧
      ¬ Linearizable (controllers true) sharedWithBob c := by
  have hSome : (run (step (controllers true)) raceSchedule
      (Config.init sharedWithBob raceQueues)).isSome = true := by
    decide +kernel
  have hDone : (run (step (controllers true)) raceSchedule
      (Config.init sharedWithBob raceQueues)).map Config.done =
      some [⟨aliceRevokes, .ok PUTM_SUCCESS, 2, 5⟩,
        ⟨bobPut, .ok PUT_SUCCESS, 0, 7⟩] := by
    decide +kernel
  have hRecord : (run (step (controllers true)) raceSchedule
      (Config.init sharedWithBob raceQueues)).map
        (fun c => c.shared (lit "k")) =
      some (some (lit "alice|0|2|0|home|0|bob|0|v1")) := by
    decide +kernel
  obtain ⟨c, hRun⟩ := Option.isSome_iff_exists.mp hSome
  have hFinished := finished_of_two hRun (by decide) (fun _ => rfl)
    (by decide +kernel)
  rw [hRun, Option.map_some, Option.some.injEq] at hDone hRecord
  refine ⟨c, hRun, hFinished, by rw [hDone]; rfl, hRecord, ?_⟩
  · rintro ⟨order, hPerm, _, hSequential⟩
    have hOrders := List.mem_permutations'.mpr hPerm
    rw [hDone] at hOrders
    have hEnd := congrArg (fun end_ => (end_.1, end_.2 (lit "k"))) hSequential
    simp only [hRecord] at hEnd
    have hAll : ∀ order ∈ List.permutations'
        [(⟨aliceRevokes, .ok PUTM_SUCCESS, 2, 5⟩ : Done KeyedRequest Exn Str),
          ⟨bobPut, .ok PUT_SUCCESS, 0, 7⟩],
        (((controllers true).sequential (order.map Done.req) sharedWithBob).1,
          ((controllers true).sequential (order.map Done.req)
            sharedWithBob).2 (lit "k")) ≠
        (order.map Done.outcome,
          some (lit "alice|0|2|0|home|0|bob|0|v1")) := by
      decide +kernel
    exact hAll order hOrders hEnd

/-- Alice's put of `v1` at `k`. -/
def alicePutAtK : KeyedRequest where
  query := { cmd := lit "put", key := lit "k", value := lit "v1" }
  policy := alicePolicy
  readings := Readings.constant 0
  command := .put
  isCommand := by decide

/-- Bob's deletion of `l`. -/
def bobDeleteAtL : KeyedRequest where
  query := { cmd := lit "delete", key := lit "l" }
  policy := { alicePolicy with userKey := lit "bob" }
  readings := Readings.constant 0
  command := .delete
  isCommand := by decide

def ownQueues : Nat → List KeyedRequest
  | 0 => [alicePutAtK]
  | 1 => [bobDeleteAtL]
  | _ => []

def ownStore : Store := fun key =>
  if key = lit "l" then some (lit "bob|0|2|0|home|0||1|v0") else none

/-- `linearizable_of_current` at a put and a deletion whose operations take
turns. -/
theorem linearizable_put_delete :
    ∃ c, run (step (controllers true)) [0, 1, 0, 1, 0, 1, 0, 1, 0, 1]
        (Config.init ownStore ownQueues) = some c ∧
      Linearizable (controllers true) ownStore c ∧
      AllSteps (step (controllers true)) WriteGranted
        [0, 1, 0, 1, 0, 1, 0, 1, 0, 1] (Config.init ownStore ownQueues) := by
  have hSome : (run (step (controllers true)) [0, 1, 0, 1, 0, 1, 0, 1, 0, 1]
      (Config.init ownStore ownQueues)).isSome = true := by
    decide +kernel
  obtain ⟨c, hRun⟩ := Option.isSome_iff_exists.mp hSome
  have hFinished := finished_of_two hRun (by decide) (fun _ => rfl)
    (by decide +kernel)
  have hOwned : ∀ i, ∀ req ∈ ownQueues i,
      (if req.query.key = lit "k" then 0 else 1) = i := by
    intro i req hReq
    match i with
    | 0 => rw [List.mem_singleton.mp hReq]; rfl
    | 1 => rw [List.mem_singleton.mp hReq]; rfl
    | _ + 2 => cases hReq
  exact ⟨c, hRun, linearizable_of_current true ownStore ownQueues _
    (current_of_owned true (fun key => if key = lit "k" then 0 else 1)
      ownStore ownQueues _ hOwned) hRun hFinished⟩

end GDPRuler.Controller
