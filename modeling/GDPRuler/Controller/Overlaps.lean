import GDPRuler.Verified.Events
import GDPRuler.Controller.Audit
import GDPRuler.Controller.Races

/-!
# What overlapping requests keep

Nothing is held between the read a handler decides on and the write it then
sends, so overlapping requests need not have the effect of any sequence of them
(`GDPRuler.Controller.Races`).  Decisions and audit survive all the same,
whatever the order of the messages:

* what a request shows and does was granted by a record that stood at its key
  at one moment between the request and its answer (`mediated_run`);
* a request on a monitored record has one entry in the log of its key, and no
  other has any (`audit_trail`).
-/

namespace GDPRuler.Controller

open GDPRuler.Verified GDPRuler.Verified.Transition
open GDPRuler.Verified.Interleave

/-- The handlers over the database and the logs, one request per connection at
a time. -/
def served {σ : Type} (env : Environment σ) :
    System Request Op Op.Res Exn Str (World σ) where
  body req := respond req.query req.policy req.readings
  exec req := World.exec env req.readings

/-! ## What an answered request performed -/

namespace Plan

/-- The operations of a plan; `ok` is the answer to its write. -/
def steps (pl : Plan) (q : Query) (p : DefaultPolicy) (ok : Bool) :
    List (Sigma Op.Res) :=
  (pl.entry.map fun entry =>
    (⟨.logEncodedQuery q p entry.1 entry.2, ()⟩ : Sigma Op.Res)).toList ++
  (pl.write.map fun write => write.1.sentStep q.key ok).toList

/-- The reply of a plan whose write is answered with `ok`. -/
def replied (pl : Plan) (ok : Bool) : Str :=
  match pl.write with
  | none => pl.reply
  | some (_, failed) => if ok then pl.reply else failed

end Plan

/-- What a keyed request performs, and how it ends: it reads its record, and
follows the plan for it. -/
inductive Followed (c : KeyCommand) (req : Request) :
    List (Sigma Op.Res) → Except Exn Str → Prop
  | raised (res : Option Str) (e : Exn)
      (hPlan : plan c req.query req.policy req.readings res = .error e) :
      Followed c req [c.readStep req.query.key res] (.error e)
  | replied (res : Option Str) (pl : Plan) (ok : Bool)
      (hPlan : plan c req.query req.policy req.readings res = .ok pl) :
      Followed c req
        (c.readStep req.query.key res :: pl.steps req.query req.policy ok)
        (.ok (pl.replied ok))

private theorem remains_read {c : KeyCommand} {key : Str}
    {next : Option Str → Handler Str} {performed : List (Sigma Op.Res)}
    {outcome : Except Exn Str}
    (h : (c.read key next).Remains performed (Prog.ofExcept outcome)) :
    ∃ res rest, performed = c.readStep key res :: rest ∧
      (next res).Remains rest (Prog.ofExcept outcome) := by
  generalize hq : (Prog.ofExcept outcome : Handler Str) = q at h
  cases c <;> cases h <;>
    first
      | exact absurd hq Prog.ofExcept_ne_call
      | exact ⟨_, _, rfl, by assumption⟩

private theorem remains_finish {key : Str} {write : Option (Write × Str)}
    {reply : Str} (entry : Option (Bool × Str))
    {performed : List (Sigma Op.Res)} {outcome : Except Exn Str}
    (h : (Plan.finish key write reply).Remains performed
      (Prog.ofExcept outcome)) :
    ∃ ok, performed = (write.map fun w => w.1.sentStep key ok).toList ∧
      outcome = .ok (Plan.replied ⟨entry, write, reply⟩ ok) := by
  cases write with
  | none =>
      obtain ⟨hNone, hRet⟩ := h.of_ret
      exact ⟨true, hNone, Prog.ofExcept_injective hRet⟩
  | some write =>
      obtain ⟨write, failed⟩ := write
      have hReply : ∀ (ok : Bool) (rest : List (Sigma Op.Res)),
          (if ok = true then (.ret reply : Handler Str) else .ret failed).Remains
            rest (Prog.ofExcept outcome) →
          rest = [] ∧
            outcome = .ok (Plan.replied ⟨entry, some (write, failed), reply⟩ ok) := by
        intro ok rest hRest
        cases ok with
        | true =>
            obtain ⟨hNone, hRet⟩ := hRest.of_ret
            exact ⟨hNone, Prog.ofExcept_injective hRet⟩
        | false =>
            obtain ⟨hNone, hRet⟩ := hRest.of_ret
            exact ⟨hNone, Prog.ofExcept_injective hRet⟩
      generalize hq : (Prog.ofExcept outcome : Handler Str) = q at h hReply
      cases write with
      | put value =>
          cases h with
          | nil => exact absurd hq Prog.ofExcept_ne_call
          | call op next r rest q hRest =>
              obtain ⟨rfl, hOutcome⟩ := hReply r rest hRest
              exact ⟨r, rfl, hOutcome⟩
      | del =>
          cases h with
          | nil => exact absurd hq Prog.ofExcept_ne_call
          | call op next r rest q hRest =>
              obtain ⟨rfl, hOutcome⟩ := hReply r rest hRest
              exact ⟨r, rfl, hOutcome⟩
      | putm value =>
          cases h with
          | nil => exact absurd hq Prog.ofExcept_ne_call
          | call op next r rest q hRest =>
              obtain ⟨rfl, hOutcome⟩ := hReply r rest hRest
              exact ⟨r, rfl, hOutcome⟩

/-- **A keyed request that was answered** has read a record and followed the
plan for it, whatever it was answered. -/
theorem followed_of_remains {c : KeyCommand} {req : Request}
    (hCommand : KeyCommand.ofText req.query.cmd = some c)
    {performed : List (Sigma Op.Res)} {outcome : Except Exn Str}
    (h : (respond req.query req.policy req.readings).Remains performed
      (Prog.ofExcept outcome)) : Followed c req performed outcome := by
  rw [respond_eq _ _ _ hCommand] at h
  obtain ⟨res, rest, rfl, hRest⟩ := remains_read h
  cases hPlan : plan c req.query req.policy req.readings res with
  | error e =>
      rw [hPlan] at hRest
      obtain ⟨rfl, hFail⟩ := Prog.Remains.of_fail hRest
      obtain rfl : outcome = .error e := Prog.ofExcept_injective hFail
      exact .raised res e hPlan
  | ok pl =>
      rw [hPlan] at hRest
      obtain ⟨entry, write, reply⟩ := pl
      cases entry with
      | none =>
          obtain ⟨ok, rfl, rfl⟩ := remains_finish none hRest
          exact .replied res _ ok hPlan
      | some entry =>
          simp only [follow, Plan.toProg] at hRest
          generalize hq : (Prog.ofExcept outcome : Handler Str) = q at hRest
          cases hRest with
          | nil => exact absurd hq Prog.ofExcept_ne_call
          | call op next r rest q hLater =>
              rw [← hq] at hLater
              obtain ⟨ok, rfl, rfl⟩ := remains_finish (some entry) hLater
              exact .replied res _ ok hPlan

/-! ## Moments -/

section Moments

variable {delAbsent : Bool} {cipher : Option Cipher} {log : LogConfig}

/-- The requests over a key-value map, each connection with its own queue. -/
abbrev firstConfig (w : World Store) (queues : Nat → List Request) :
    Config Request Op Op.Res Exn Str (World Store) :=
  Config.init w queues

/-- The run is at `w` at some moment after `start` and before `stop`. -/
def Passes (delAbsent : Bool) (cipher : Option Cipher) (log : LogConfig)
    (first : Config Request Op Op.Res Exn Str (World Store))
    (schedule : List Nat) (start stop : Nat) (w : World Store) : Prop :=
  ∃ n before, start < n ∧ n < stop ∧
    run (step (served (mapEnv delAbsent cipher log))) (schedule.take n) first =
      some before ∧ before.shared = w

private theorem res_of_readStep {c : KeyCommand} {key : Str} {res : Option Str}
    {performed : Sigma Op.Res} (hStep : performed = c.readStep key res)
    {r : Readings} {w : World Store}
    (hAnswer : performed.2 =
      (World.exec (mapEnv delAbsent cipher log) r performed.1 w).1) :
    res = KvClient.lookup cipher w.kv key := by
  subst hStep
  cases c <;>
    simpa [KeyCommand.readStep, World.exec, mapEnv] using hAnswer

variable {first c : Config Request Op Op.Res Exn Str (World Store)}
  {schedule : List Nat} {events : List (Event Request Op.Res)}

/-- The record a request read stood at its key at one moment of the run. -/
theorem passes_of_read
    (h : History (served (mapEnv delAbsent cipher log)) first schedule c events)
    {req : Request} {start now : Nat} {prog : Handler Str}
    (hPerformed : Performed (served (mapEnv delAbsent cipher log)) events req
      start now prog)
    {command : KeyCommand} {key : Str} {res : Option Str}
    {rest : List (Sigma Op.Res)}
    (hRead : (operationsOf start events).map Event.performed =
      command.readStep key res :: rest) :
    ∃ w, Passes delAbsent cipher log first schedule start now w ∧
      res = KvClient.lookup cipher w.kv key := by
  obtain ⟨e, later, hEvents, hStep, -⟩ := List.map_eq_cons_iff.mp hRead
  have hMem : e ∈ operationsOf start events := by
    rw [hEvents]
    exact List.mem_cons_self
  obtain ⟨-, hAfter, hBefore⟩ := hPerformed.within e hMem
  obtain ⟨before, hRun, hAnswer⟩ := h.moment e (List.mem_of_mem_filter hMem)
  exact ⟨before.shared, ⟨e.time, before, hAfter, hBefore, hRun, rfl⟩,
    res_of_readStep hStep hAnswer⟩

/-! ## Mediation -/

/-- The record found lets a request do more than refuse: it grants the request,
or there is none and the request creates it. -/
def KeyCommand.Entitled (command : KeyCommand) (req : Request) :
    Option Str → Prop
  | none => command = .put
  | some value => ∃ f, GdprFilter.ofValue (some value) = .ok f ∧ Validates f req

/-- What a request that shows a record shows is made from that record. -/
def KeyCommand.Shows (command : KeyCommand) (reply : Str) (res : Option Str) :
    Prop :=
  (command = .get → ∀ value ∈ res, reply = removeGdprMetadata value) ∧
    (command = .getm → ∀ value ∈ res, reply = preserveOnlyGdprMetadata value)

/-- An operation that writes at a key. -/
def Op.WritesAt (key : Str) : Op → Prop
  | gdprPut k _ => k = key
  | gdprDel k => k = key
  | gdprPutm k _ => k = key
  | _ => False

section Plans

variable {command : KeyCommand} {req : Request} {res : Option Str} {pl : Plan}

/-- A plan for a record is that of a refusal or that of a grant. -/
private theorem plan_cases
    (hPlan : plan command req.query req.policy req.readings res = .ok pl) :
    (res = none ∧ pl = absentPlan command req.query req.policy req.readings) ∨
    ∃ value f, res = some value ∧ GdprFilter.ofValue (some value) = .ok f ∧
      ((¬ Validates f req ∧ pl = deniedPlan command f) ∨
        (Validates f req ∧
          grantedPlan command req.query req.readings f value = .ok pl)) := by
  cases res with
  | none => exact .inl ⟨rfl, (Except.ok.inj hPlan).symm⟩
  | some value =>
      cases hValue : GdprFilter.ofValue (some value) with
      | error e =>
          rw [plan_error hValue] at hPlan
          cases hPlan
      | ok f =>
          refine .inr ⟨value, f, rfl, hValue, ?_⟩
          cases hValid : f.validate req.query req.policy
              req.readings.validateTime with
          | false =>
              rw [plan_denied hValue hValid, Except.ok.injEq] at hPlan
              exact .inl ⟨by simp [Validates, hValid], hPlan.symm⟩
          | true =>
              rw [plan_granted hValue hValid] at hPlan
              exact .inr ⟨hValid, hPlan⟩

/-- Only an entitled request writes. -/
theorem entitled_of_write
    (hPlan : plan command req.query req.policy req.readings res = .ok pl)
    (hWrite : pl.write ≠ none) : command.Entitled req res := by
  rcases plan_cases hPlan with ⟨rfl, rfl⟩ |
    ⟨value, f, rfl, hValue, ⟨-, rfl⟩ | ⟨hValid, -⟩⟩
  · show command = .put
    cases command with
    | put => rfl
    | _ => exact absurd rfl hWrite
  · exact absurd rfl hWrite
  · exact ⟨f, hValue, hValid⟩

/-- Only an entitled request is answered with more than a refusal. -/
theorem entitled_of_reply
    (hPlan : plan command req.query req.policy req.readings res = .ok pl)
    {ok : Bool} (hRefused : pl.replied ok ≠ command.refused)
    (hAbsent : pl.replied ok ≠ command.absent) :
    command.Entitled req res ∧ command.Shows (pl.replied ok) res := by
  rcases plan_cases hPlan with ⟨rfl, rfl⟩ |
    ⟨value, f, rfl, hValue, ⟨-, rfl⟩ | ⟨hValid, hGranted⟩⟩
  · have hPut : command = .put := by
      cases command with
      | put => rfl
      | _ => exact absurd rfl hAbsent
    subst hPut
    refine ⟨rfl, ?_, ?_⟩ <;> intro h <;> cases h
  · exact absurd rfl hRefused
  · refine ⟨⟨f, hValue, hValid⟩, ?_, ?_⟩
    · rintro rfl other hOther
      cases hGranted
      rw [← Option.some.inj hOther]
      rfl
    · rintro rfl other hOther
      cases hGranted
      rw [← Option.some.inj hOther]
      rfl

end Plans

/-- The operations of a keyed request: they read and write at its key, and log
its own query and policy. -/
inductive Op.OfRequest (q : Query) (p : DefaultPolicy) : Op → Prop
  | get : OfRequest q p (.gdprGet q.key)
  | getm : OfRequest q p (.gdprGetm q.key)
  | put (value : Str) : OfRequest q p (.gdprPut q.key value)
  | del : OfRequest q p (.gdprDel q.key)
  | putm (value : Str) : OfRequest q p (.gdprPutm q.key value)
  | log (valid : Bool) (newVal : Str) :
      OfRequest q p (.logEncodedQuery q p valid newVal)

theorem only_ofRequest {req : Request} {command : KeyCommand}
    (hCommand : KeyCommand.ofText req.query.cmd = some command) :
    (respond req.query req.policy req.readings).Only
      (Op.OfRequest req.query req.policy) := by
  have hFinish : ∀ pl : Plan, (Plan.finish req.query.key pl.write pl.reply).Only
      (Op.OfRequest req.query req.policy) := by
    intro pl
    unfold Plan.finish
    split
    · trivial
    · rename_i write failed _
      have hReply : ∀ ok : Bool,
          (if ok = true then (.ret pl.reply : Handler Str)
            else .ret failed).Only (Op.OfRequest req.query req.policy) := by
        intro ok
        cases ok <;> trivial
      cases write with
      | put value => exact ⟨.put value, hReply⟩
      | del => exact ⟨.del, hReply⟩
      | putm value => exact ⟨.putm value, hReply⟩
  have hFollow : ∀ pl, (follow req.query req.policy pl).Only
      (Op.OfRequest req.query req.policy) := by
    intro pl
    cases pl with
    | error e => trivial
    | ok pl =>
        simp only [follow, Plan.toProg]
        cases pl.entry with
        | none => exact hFinish pl
        | some entry => exact ⟨.log entry.1 entry.2, fun _ => hFinish pl⟩
  rw [respond_eq _ _ _ hCommand]
  cases command with
  | getm => exact ⟨.getm, fun res => hFollow _⟩
  | _ => exact ⟨.get, fun res => hFollow _⟩

theorem Op.OfRequest.writesAt {q : Query} {p : DefaultPolicy} {op : Op}
    (h : op.OfRequest q p) {key : Str} (hWrites : op.WritesAt key) :
    key = q.key := by
  cases h <;> first | exact hWrites.symm | exact hWrites.elim

theorem Op.not_writesAt_of_reads {op : Op} (h : op.ReadsLogs) {key : Str} :
    ¬ op.WritesAt key := by
  cases op <;> first | exact h.elim | exact fun hWrites => hWrites

/-- What an operation does not write at a key stays as it is. -/
theorem kv_exec (r : Readings) {op : Op} {w : World Store} {key : Str}
    (h : ¬ op.WritesAt key) :
    (World.exec (mapEnv delAbsent cipher log) r op w).2.kv key = w.kv key := by
  cases op with
  | gdprGet k => simp [World.exec, mapEnv]
  | gdprGetm k => simp [World.exec, mapEnv]
  | gdprPut k value =>
      exact KvClient.gdprPut_mapClient_of_ne _ _ _ _ _ _ fun hEq => h hEq.symm
  | gdprDel k => exact Function.update_of_ne (fun hEq => h hEq.symm) _ _
  | gdprPutm k value =>
      simp only [World.exec, mapEnv, KvClient.gdprPutm_mapClient]
      exact KvClient.gdprPut_mapClient_of_ne _ _ _ _ _ _ fun hEq => h hEq.symm
  | logEncodedQuery q p valid newVal => rfl
  | retrieveLogs => rfl
  | readLog logName thres => rfl
  | readKeyLog k thres => rfl

/-- What a run of overlapping requests shows and changes. -/
structure MediatedRun (delAbsent : Bool) (cipher : Option Cipher)
    (log : LogConfig) (first : Config Request Op Op.Res Exn Str (World Store))
    (schedule : List Nat)
    (c : Config Request Op Op.Res Exn Str (World Store)) : Prop where
  /-- A request answered with more than a refusal was entitled to it by the
  record that stood at its key at one moment in between, and what it shows is
  made from that record. -/
  shown : ∀ d ∈ c.done, ∀ command, KeyCommand.ofText d.req.query.cmd =
      some command → ∀ reply, d.outcome = .ok reply →
    reply ≠ command.refused → reply ≠ command.absent →
    ∃ w, Passes delAbsent cipher log first schedule d.start d.stop w ∧
      command.Entitled d.req
        (KvClient.lookup cipher w.kv d.req.query.key) ∧
      command.Shows reply (KvClient.lookup cipher w.kv d.req.query.key)
  /-- A stored record changes only by a request on its key that a record at
  that key entitled after the request came. -/
  changed : ∀ n i before after,
    run (step (served (mapEnv delAbsent cipher log))) (schedule.take n) first =
      some before →
    step (served (mapEnv delAbsent cipher log)) before i = some after →
    ∀ key, after.shared.kv key ≠ before.shared.kv key →
    ∃ t command, (before.clients i).running = some t ∧
      KeyCommand.ofText t.req.query.cmd = some command ∧
      t.req.query.key = key ∧
      ∃ w, Passes delAbsent cipher log first schedule t.start n w ∧
        command.Entitled t.req (KvClient.lookup cipher w.kv key)

instance (op : Op) : Nonempty op.Res := by
  cases op <;> first
    | exact ⟨none⟩
    | exact ⟨true⟩
    | exact ⟨()⟩
    | exact ⟨[]⟩
    | exact ⟨.ok []⟩

/-- A request that is about to perform an operation has done the first part of
what it will have done in the end, whatever it is answered. -/
theorem followed_of_call {command : KeyCommand} {req : Request}
    (hCommand : KeyCommand.ofText req.query.cmd = some command)
    {performed : List (Sigma Op.Res)} {op : Op} {next : op.Res → Handler Str}
    (h : (respond req.query req.policy req.readings).Remains performed
      (.call op next)) :
    ∃ answer more outcome,
      Followed command req (performed ++ ⟨op, answer⟩ :: more) outcome := by
  obtain ⟨more, outcome, hMore⟩ :=
    Prog.exists_remains_ofExcept (.call op next : Handler Str)
  generalize hq : (Prog.ofExcept outcome : Handler Str) = q at hMore
  cases hMore with
  | nil => exact absurd hq Prog.ofExcept_ne_call
  | call op next answer more q hRest =>
      rw [← hq] at hRest
      exact ⟨answer, more, outcome, followed_of_remains hCommand
        (h.trans (.call op next answer more _ hRest))⟩

/-- The write as an operation. -/
def Write.op (key : Str) : Write → Op
  | put value => .gdprPut key value
  | del => .gdprDel key
  | putm value => .gdprPutm key value

/-- A request about to write has read a record and done all that its plan for
it does before the write. -/
theorem Followed.writes {command : KeyCommand} {req : Request}
    {performed more : List (Sigma Op.Res)} {op : Op} {answer : op.Res}
    {outcome : Except Exn Str}
    (h : Followed command req (performed ++ ⟨op, answer⟩ :: more) outcome)
    {key : Str} (hWrites : op.WritesAt key) :
    ∃ res pl write, performed = command.readStep req.query.key res ::
        (pl.entry.map fun entry => (⟨.logEncodedQuery req.query req.policy
          entry.1 entry.2, ()⟩ : Sigma Op.Res)).toList ∧
      plan command req.query req.policy req.readings res = .ok pl ∧
      pl.write.map Prod.fst = some write ∧ op = write.op req.query.key := by
  have hRead : ∀ res, (⟨op, answer⟩ : Sigma Op.Res) ≠
      command.readStep req.query.key res := by
    intro res hEq
    have hOp : op = (command.readStep req.query.key res).1 :=
      congrArg Sigma.fst hEq
    rw [hOp] at hWrites
    cases command <;> exact hWrites
  have hLog : ∀ entry : Bool × Str, (⟨op, answer⟩ : Sigma Op.Res) ≠
      ⟨.logEncodedQuery req.query req.policy entry.1 entry.2, ()⟩ := by
    intro entry hEq
    have hOp : op = .logEncodedQuery req.query req.policy entry.1 entry.2 :=
      congrArg Sigma.fst hEq
    rw [hOp] at hWrites
    exact hWrites
  have hSent : ∀ (write : Write) ok, (⟨op, answer⟩ : Sigma Op.Res) =
      write.sentStep req.query.key ok → op = write.op req.query.key := by
    intro write ok hEq
    have hOp : op = (write.sentStep req.query.key ok).1 :=
      congrArg Sigma.fst hEq
    cases write <;> exact hOp
  generalize hAll : performed ++ ⟨op, answer⟩ :: more = all at h
  cases h with
  | raised res e hPlan =>
      cases performed with
      | nil => exact absurd (List.cons_eq_cons.mp hAll).1 (hRead res)
      | cons first rest => simp at hAll
  | replied res pl ok hPlan =>
      cases performed with
      | nil => exact absurd (List.cons_eq_cons.mp hAll).1 (hRead res)
      | cons first rest =>
          obtain ⟨rfl, hSteps⟩ := List.cons_eq_cons.mp hAll
          obtain ⟨entry, write, reply⟩ := pl
          cases entry with
          | none =>
              cases write with
              | none => simp [Plan.steps] at hSteps
              | some write =>
                  cases rest with
                  | nil =>
                      have hStep := (List.cons_eq_cons.mp hSteps).1
                      exact ⟨res, _, write.1, rfl, hPlan, rfl,
                        hSent write.1 ok hStep⟩
                  | cons second rest => simp [Plan.steps] at hSteps
          | some entry =>
              cases rest with
              | nil =>
                  exact absurd (List.cons_eq_cons.mp hSteps).1 (hLog entry)
              | cons second rest =>
                  obtain ⟨rfl, hLater⟩ := List.cons_eq_cons.mp hSteps
                  cases write with
                  | none => cases rest <;> cases hLater
                  | some write =>
                      cases rest with
                      | nil =>
                          have hStep := (List.cons_eq_cons.mp hLater).1
                          exact ⟨res, _, write.1, rfl, hPlan, rfl,
                            hSent write.1 ok hStep⟩
                      | cons third rest =>
                          have hNone := (List.cons_eq_cons.mp hLater).2
                          cases rest <;> cases hNone

theorem Passes.of_take {first : Config Request Op Op.Res Exn Str (World Store)}
    {schedule : List Nat} {n start stop : Nat} {w : World Store}
    (h : Passes delAbsent cipher log first (schedule.take n) start stop w)
    (hStop : stop ≤ n) :
    Passes delAbsent cipher log first schedule start n w := by
  obtain ⟨m, before, hStart, hBefore, hRun, hWorld⟩ := h
  refine ⟨m, before, hStart, by omega, ?_, hWorld⟩
  rwa [List.take_take, Nat.min_eq_left (by omega)] at hRun

/-- An answered request that shows more than a refusal was entitled to it. -/
theorem shown_of_history
    (h : History (served (mapEnv delAbsent cipher log)) first schedule c events)
    {d : Done Request Exn Str} (hDone : d ∈ c.done) {command : KeyCommand}
    (hCommand : KeyCommand.ofText d.req.query.cmd = some command) {reply : Str}
    (hReply : d.outcome = .ok reply) (hRefused : reply ≠ command.refused)
    (hAbsent : reply ≠ command.absent) :
    ∃ w, Passes delAbsent cipher log first schedule d.start d.stop w ∧
      command.Entitled d.req
        (KvClient.lookup cipher w.kv d.req.query.key) ∧
      command.Shows reply (KvClient.lookup cipher w.kv d.req.query.key) := by
  have hPerformed := h.done d hDone
  have hFollowed := followed_of_remains hCommand hPerformed.remains
  rw [hReply] at hFollowed
  generalize hSteps : (operationsOf d.start events).map Event.performed =
    steps at hFollowed
  cases hFollowed with
  | replied res pl ok hPlan =>
      obtain ⟨w, hPasses, rfl⟩ := passes_of_read h hPerformed hSteps
      exact ⟨w, hPasses, entitled_of_reply hPlan hRefused hAbsent⟩

/-- The requests of `revoked_share_restored`, over a monitored record. -/
def overlapQueues (i : Nat) : List Request :=
  (raceQueues i).map KeyedRequest.toRequest

def overlapWorld : World Store :=
  ⟨fun key => if key = lit "k" then
    some (lit "alice|0|2|0|home|0|bob|1|v0") else none, []⟩

/-- Bob's put reads, alice's revocation runs from start to end, and bob's put
goes on to log and write. -/
def overlapSchedule : List Nat := [0, 0, 1, 1, 1, 1, 1, 0, 0, 0]

theorem overlap_runs : ∃ c, run
    (step (served (mapEnv true none ⟨lit "logs", none⟩))) overlapSchedule
      (firstConfig overlapWorld overlapQueues) = some c := by
  have hSome : (run (step (served (mapEnv true none ⟨lit "logs", none⟩)))
      overlapSchedule (firstConfig overlapWorld overlapQueues)).isSome =
        true := by
    decide +kernel
  exact Option.isSome_iff_exists.mp hSome

/-- An entry of the audit trail, with the request that left it and the moment
that request started. -/
structure AuditEntry where
  req : Request
  start : Nat
  valid : Bool
  newVal : Str

/-- What the entry adds to the log of its key: its frame, if the entry could be
encrypted. -/
def AuditEntry.bytes (cfg : LogConfig) (a : AuditEntry) : Str :=
  match cfg.seal a.req.readings.log.iv
      (encodeLogEntry a.req.readings.log.timestamp
        (a.req.query.userKey.getD a.req.policy.userKey) a.req.query.cmd a.valid
        a.newVal) with
  | some entry => frame entry
  | none => []

/-- Verdict and new value of a call of the logger. -/
def loggerCall : Sigma Op.Res → Option (Bool × Str)
  | ⟨.logEncodedQuery _ _ valid newVal, _⟩ => some (valid, newVal)
  | _ => none

/-- The entry that an operation leaves. -/
def auditEntry (e : Event Request Op.Res) : Option AuditEntry :=
  (loggerCall e.performed).map fun call => ⟨e.req, e.start, call.1, call.2⟩

theorem loggerCall_of_reads {step : Sigma Op.Res} (h : step.1.ReadsLogs) :
    loggerCall step = none := by
  obtain ⟨op, answer⟩ := step
  cases op <;> first | rfl | exact h.elim

/-- A request logs nothing but its own query and policy. -/
theorem logsOwn_of_remains {req : Request} {performed : List (Sigma Op.Res)}
    {prog : Handler Str}
    (h : (respond req.query req.policy req.readings).Remains performed prog) :
    ∀ step ∈ performed, ∀ q p valid newVal,
      step.1 = .logEncodedQuery q p valid newVal →
      q = req.query ∧ p = req.policy ∧
        (KeyCommand.ofText req.query.cmd).isSome = true := by
  intro step hMem q p valid newVal hEq
  cases hCommand : KeyCommand.ofText req.query.cmd with
  | some command =>
      have hOp := ((only_ofRequest hCommand).remains h).2 step hMem
      rw [hEq] at hOp
      cases hOp
      exact ⟨rfl, rfl, rfl⟩
  | none =>
      have hReads := ((World.only_respond_other req.policy req.readings
        hCommand).remains h).2 step hMem
      rw [hEq] at hReads
      exact hReads.elim

/-- The text of a log after an operation: an entry is appended to the log of its
key, and nothing else is written. -/
theorem content_exec (r : Readings) (op : Op) (w : World Store) (key : Str) :
    ((World.exec (mapEnv delAbsent cipher log) r op w).2.logs.content
        (log.logFilePath key)).getD [] =
      (w.logs.content (log.logFilePath key)).getD [] ++
        match op with
        | .logEncodedQuery q p valid newVal =>
            if q.key = key then
              AuditEntry.bytes log ⟨⟨q, p, r⟩, 0, valid, newVal⟩
            else []
        | _ => [] := by
  have hAppend : ∀ (path : Str) (files : LogFiles),
      ((files.append path []).content (log.logFilePath key)).getD [] =
        (files.content (log.logFilePath key)).getD [] := by
    intro path files
    by_cases hPath : log.logFilePath key = path
    · rw [← hPath, LogFiles.content_append]
      simp
    · rw [LogFiles.content_append_of_ne _ _ hPath]
  have hDecode : ∀ (logName : Str) (thres : Int64),
      ((logDecode log logName thres w.logs).2.content
          (log.logFilePath key)).getD [] =
        (w.logs.content (log.logFilePath key)).getD [] := by
    intro logName thres
    unfold logDecode
    split
    · rfl
    · exact hAppend _ _
  cases op with
  | readLog logName thres =>
      rw [List.append_nil]
      exact hDecode logName thres
  | readKeyLog k thres =>
      rw [List.append_nil]
      exact hDecode _ thres
  | logEncodedQuery q p valid newVal =>
      simp only [World.exec, mapEnv, logEncodedQuery, AuditEntry.bytes]
      by_cases hKey : q.key = key
      · subst hKey
        simp only [if_true]
        cases log.seal r.log.iv (encodeLogEntry r.log.timestamp
            (q.userKey.getD p.userKey) q.cmd valid newVal) with
        | none => simp only [LogFiles.content_append]; rfl
        | some entry => simp only [LogFiles.content_append]; rfl
      · have hPath : log.logFilePath key ≠ log.logFilePath q.key :=
          fun h => hKey (log.logFilePath_injective h).symm
        simp only [if_neg hKey, List.append_nil]
        cases log.seal r.log.iv (encodeLogEntry r.log.timestamp
            (q.userKey.getD p.userKey) q.cmd valid newVal) with
        | none => simp only [LogFiles.content_append_of_ne _ _ hPath]
        | some entry => simp only [LogFiles.content_append_of_ne _ _ hPath]
  | _ => exact (List.append_nil _).symm

/-- The logs after some operations that log what is their request's own. -/
theorem content_replay (events : List (Event Request Op.Res))
    (hOwn : ∀ e ∈ events, ∀ q p valid newVal,
      e.performed.1 = .logEncodedQuery q p valid newVal →
      q = e.req.query ∧ p = e.req.policy) (w : World Store) (key : Str) :
    ((Interleave.replay (served (mapEnv delAbsent cipher log)) events w).logs.content
        (log.logFilePath key)).getD [] =
      (w.logs.content (log.logFilePath key)).getD [] ++
        ((events.filterMap auditEntry).filter
          fun a => a.req.query.key = key).flatMap (AuditEntry.bytes log) := by
  induction events generalizing w with
  | nil => exact (List.append_nil _).symm
  | cons e events ih =>
      obtain ⟨hHere, hLater⟩ := List.forall_mem_cons.mp hOwn
      rw [Interleave.replay, List.foldl_cons, ← Interleave.replay, ih hLater,
        show (served (mapEnv delAbsent cipher log)).exec e.req e.performed.1 w =
          World.exec (mapEnv delAbsent cipher log) e.req.readings
            e.performed.1 w from rfl,
        content_exec, List.append_assoc]
      congr 1
      obtain ⟨⟨q, p, r⟩, start, time, op, answer⟩ := e
      cases op with
      | logEncodedQuery q' p' valid newVal =>
          obtain ⟨rfl, rfl⟩ := hHere q' p' valid newVal rfl
          simp only [List.filterMap_cons, auditEntry, loggerCall,
            Option.map_some, List.filter_cons, decide_eq_true_eq]
          by_cases hKey : q'.key = key
          · rw [if_pos hKey, if_pos hKey, List.flatMap_cons]
            rfl
          · rw [if_neg hKey, if_neg hKey]
            rfl
      | _ => rfl

private theorem loggerCall_readStep (command : KeyCommand) (key : Str)
    (res : Option Str) : loggerCall (command.readStep key res) = none := by
  cases command <;> rfl

/-- The calls of the logger of an answered request are those of its plan. -/
theorem calls_steps (command : KeyCommand) (req : Request) (res : Option Str)
    (pl : Plan) (ok : Bool) :
    (command.readStep req.query.key res ::
      pl.steps req.query req.policy ok).filterMap loggerCall =
        pl.entry.toList := by
  have hEntry : ∀ entry : Bool × Str, loggerCall
      ⟨.logEncodedQuery req.query req.policy entry.1 entry.2, ()⟩ =
        some entry := fun _ => rfl
  have hSent : ∀ write : Write,
      loggerCall (write.sentStep req.query.key ok) = none := by
    intro write
    cases write <;> rfl
  obtain ⟨entry, write, reply⟩ := pl
  cases entry <;> cases write <;>
    simp [Plan.steps, loggerCall_readStep, hSent, hEntry]

theorem Followed.entries {command : KeyCommand} {req : Request}
    {performed : List (Sigma Op.Res)} {outcome : Except Exn Str}
    (h : Followed command req performed outcome) :
    (performed.filterMap loggerCall).length ≤ 1 := by
  cases h with
  | raised res e hPlan =>
      rw [List.filterMap_cons, loggerCall_readStep]
      exact Nat.zero_le 1
  | replied res pl ok hPlan =>
      rw [calls_steps]
      cases pl.entry with
      | none => exact Nat.zero_le 1
      | some entry => exact Nat.le_refl 1

/-- At any time a request has made one call of the logger at most. -/
theorem entries_of_remains {req : Request} {performed : List (Sigma Op.Res)}
    {prog : Handler Str}
    (h : (respond req.query req.policy req.readings).Remains performed prog) :
    (performed.filterMap loggerCall).length ≤ 1 := by
  cases hCommand : KeyCommand.ofText req.query.cmd with
  | some command =>
      obtain ⟨more, outcome, hMore⟩ := Prog.exists_remains_ofExcept prog
      have hAll := (followed_of_remains hCommand (h.trans hMore)).entries
      rw [List.filterMap_append, List.length_append] at hAll
      omega
  | none =>
      have hNone : performed.filterMap loggerCall = [] := by
        rw [List.filterMap_eq_nil_iff]
        intro step hMem
        exact loggerCall_of_reads (((World.only_respond_other req.policy
          req.readings hCommand).remains h).2 step hMem)
      rw [hNone]
      exact Nat.zero_le _

/-- An unmonitored record is granted without an entry. -/
private theorem grantedPlan_silent {command : KeyCommand} {q : Query}
    {r : Readings} {f : GdprFilter} (hMonitor : f.monitor = false)
    {value : Str} {pl : Plan}
    (hPlan : grantedPlan command q r f value = .ok pl) : pl.entry = none := by
  cases command with
  | putm =>
      obtain ⟨newValue, hPutm⟩ := QueryRewriter.putm_ok value q r.rewriteTime
      simp only [grantedPlan, hPutm, bind, Except.bind, pure, Except.pure,
        Except.ok.injEq] at hPlan
      subst hPlan
      simp [entryIf, hMonitor]
  | _ =>
      cases hPlan
      simp [entryIf, hMonitor]

section Entries

variable {command : KeyCommand} {req : Request} {pl : Plan} {w : World Store}

/-- A plan logs if the record it is made for is monitored, with the verdict on
that record. -/
theorem entry_iff_monitored
    (hPlan : plan command req.query req.policy req.readings
      (KvClient.lookup cipher w.kv req.query.key) = .ok pl) (valid : Bool) :
    (∃ newVal, pl.entry = some (valid, newVal)) ↔
      Monitored cipher command req w valid := by
  rcases plan_cases hPlan with ⟨hLookup, rfl⟩ | ⟨value, f, hLookup, hValue, h⟩
  · constructor
    · rintro ⟨newVal, hEntry⟩
      cases command with
      | put =>
          simp only [absentPlan, entryIf, Option.ite_none_right_eq_some,
            Option.some.injEq, Prod.mk.injEq] at hEntry
          obtain ⟨hMonitor, rfl, -⟩ := hEntry
          exact .creates rfl hLookup hMonitor
      | _ => cases hEntry
    · intro hMonitored
      cases hMonitored with
      | creates hPut hAbsent hMonitor =>
          subst hPut
          exact ⟨_, by simp only [absentPlan, entryIf, hMonitor, if_true]; rfl⟩
      | record hFinds hMonitor =>
          obtain ⟨value, hOther, -⟩ := hFinds
          rw [hLookup] at hOther
          cases hOther
  · have hOnly : ∀ f', Finds cipher req w f' → f' = f := by
      rintro f' ⟨value', hOther, hValue'⟩
      rw [hLookup, Option.some.injEq] at hOther
      subst hOther
      rw [hValue, Except.ok.injEq] at hValue'
      exact hValue'.symm
    have hEntry : pl.entry.map Prod.fst = if f.monitor then
        some (f.validate req.query req.policy req.readings.validateTime)
        else none := by
      rcases h with ⟨hDenied, rfl⟩ | ⟨hValid, hGranted⟩
      · have hFalse : f.validate req.query req.policy
            req.readings.validateTime = false := Bool.not_eq_true _ ▸ hDenied
        cases hMonitor : f.monitor <;>
          simp [deniedPlan, entryIf, hMonitor, hFalse]
      · have hTrue : f.validate req.query req.policy
            req.readings.validateTime = true := hValid
        cases hMonitor : f.monitor with
        | false => rw [grantedPlan_silent hMonitor hGranted]; rfl
        | true =>
            obtain ⟨newVal, hSome, -⟩ := grantedPlan_entry hMonitor hGranted
            rw [hSome, hTrue]
            rfl
    have hVerdict : (∃ newVal, pl.entry = some (valid, newVal)) ↔
        pl.entry.map Prod.fst = some valid := by
      cases pl.entry <;> simp [Prod.ext_iff, eq_comm]
    rw [hVerdict, hEntry]
    constructor
    · intro hSome
      cases hMonitor : f.monitor with
      | false => rw [hMonitor] at hSome; cases hSome
      | true =>
          rw [hMonitor, if_pos rfl, Option.some.injEq] at hSome
          exact hSome ▸ .record ⟨value, hLookup, hValue⟩ hMonitor
    · intro hMonitored
      cases hMonitored with
      | creates hPut hAbsent hMonitor =>
          rw [hLookup] at hAbsent
          cases hAbsent
      | record hFinds hMonitor =>
          obtain rfl := hOnly _ hFinds
          rw [if_pos hMonitor]

/-- Nothing is logged of a record that cannot be read. -/
theorem not_monitored_of_error {e : Exn}
    (hPlan : plan command req.query req.policy req.readings
      (KvClient.lookup cipher w.kv req.query.key) = .error e) (valid : Bool) :
    ¬ Monitored cipher command req w valid := by
  intro hMonitored
  cases hMonitored with
  | creates hPut hAbsent hMonitor =>
      rw [hAbsent] at hPlan
      cases hPlan
  | @record f hFinds hMonitor =>
      obtain ⟨value, hLookup, hValue⟩ := hFinds
      rw [hLookup] at hPlan
      cases hValid : f.validate req.query req.policy
          req.readings.validateTime with
      | false =>
          rw [plan_denied hValue hValid] at hPlan
          cases hPlan
      | true =>
          obtain ⟨pl, hOk⟩ := grantedPlan_ok command req.query req.readings f
            value
          rw [plan_granted hValue hValid, hOk] at hPlan
          cases hPlan

/-- What a plan logs is what it writes, under the verdict it was made for. -/
theorem sent_of_entry {res : Option Str}
    (hPlan : plan command req.query req.policy req.readings res = .ok pl)
    {valid : Bool} {newVal : Str} (hEntry : pl.entry = some (valid, newVal)) :
    pl.write.map Prod.fst = command.sent valid newVal ∧
      (¬ command.Writes valid → newVal = []) := by
  rcases plan_cases hPlan with ⟨-, rfl⟩ |
    ⟨value, f, -, -, ⟨-, rfl⟩ | ⟨-, hGranted⟩⟩
  · cases command with
    | put =>
        simp only [absentPlan, entryIf, Option.ite_none_right_eq_some,
          Option.some.injEq, Prod.mk.injEq] at hEntry
        obtain ⟨-, rfl, rfl⟩ := hEntry
        exact ⟨rfl, fun hNot => absurd ⟨rfl, .inl rfl⟩ hNot⟩
    | _ => cases hEntry
  · simp only [deniedPlan, entryIf, Option.ite_none_right_eq_some,
      Option.some.injEq, Prod.mk.injEq] at hEntry
    obtain ⟨-, rfl, rfl⟩ := hEntry
    refine ⟨?_, fun _ => rfl⟩
    cases command <;> rfl
  · cases hMonitor : f.monitor with
    | false =>
        rw [grantedPlan_silent hMonitor hGranted] at hEntry
        cases hEntry
    | true =>
        obtain ⟨newVal', hSome, hWrite, hNew⟩ :=
          grantedPlan_entry hMonitor hGranted
        rw [hEntry, Option.some.injEq, Prod.mk.injEq] at hSome
        obtain ⟨rfl, rfl⟩ := hSome
        exact ⟨hWrite, hNew⟩

end Entries

/-- The entries of one request are its calls of the logger. -/
theorem entries_of_start (start : Nat) (events : List (Event Request Op.Res)) :
    ((events.filterMap auditEntry).filter fun a => a.start = start).map
        (fun a => (a.valid, a.newVal)) =
      ((operationsOf start events).map Event.performed).filterMap
        loggerCall := by
  induction events with
  | nil => rfl
  | cons e events ih =>
      rw [operationsOf, List.filter_cons, List.filterMap_cons]
      by_cases hStart : e.start = start
      · rw [if_pos (decide_eq_true hStart), List.map_cons, List.filterMap_cons,
          ← operationsOf, ← ih, auditEntry]
        cases loggerCall e.performed with
        | none => rfl
        | some call =>
            rw [Option.map_some]
            simp only [List.filter_cons, hStart, decide_true, if_true,
              List.map_cons]
      · rw [if_neg (by simp [hStart]), ← operationsOf, ← ih, auditEntry]
        cases loggerCall e.performed with
        | none => rfl
        | some call =>
            rw [Option.map_some]
            simp only [List.filter_cons, hStart, decide_false,
              Bool.false_eq_true, if_false]

theorem exists_entry_iff {start : Nat} {events : List (Event Request Op.Res)}
    {valid : Bool} {newVal : Str} :
    (∃ a ∈ events.filterMap auditEntry,
      a.start = start ∧ a.valid = valid ∧ a.newVal = newVal) ↔
    (valid, newVal) ∈
      ((operationsOf start events).map Event.performed).filterMap
        loggerCall := by
  rw [← entries_of_start, List.mem_map]
  constructor
  · rintro ⟨a, hMem, hStart, rfl, rfl⟩
    exact ⟨a, List.mem_filter.mpr ⟨hMem, decide_eq_true hStart⟩, rfl⟩
  · rintro ⟨a, hMem, hCall⟩
    obtain ⟨hMem, hStart⟩ := List.mem_filter.mp hMem
    obtain ⟨hValid, hNew⟩ := Prod.mk.inj hCall
    exact ⟨a, hMem, of_decide_eq_true hStart, hValid, hNew⟩

/-- The audit trail of an interleaved run. -/
structure AuditTrail (delAbsent : Bool) (cipher : Option Cipher)
    (log : LogConfig) (first : Config Request Op Op.Res Exn Str (World Store))
    (schedule : List Nat) (c : Config Request Op Op.Res Exn Str (World Store))
    (entries : List AuditEntry) : Prop where
  /-- Nothing but the entries was written to the logs. -/
  files : ∀ key, (c.shared.logs.content (log.logFilePath key)).getD [] =
    (first.shared.logs.content (log.logFilePath key)).getD [] ++
      (entries.filter fun a => a.req.query.key = key).flatMap
        (AuditEntry.bytes log)
  /-- No request left two. -/
  once : (entries.map AuditEntry.start).Nodup
  /-- Each is the verdict on a monitored record that stood at the key of its
  request after that came. -/
  sound : ∀ a ∈ entries, c.Knows a.req a.start ∧
    ∃ command, KeyCommand.ofText a.req.query.cmd = some command ∧
      (¬ command.Writes a.valid → a.newVal = []) ∧
      ∃ w, Passes delAbsent cipher log first schedule a.start c.time w ∧
        Monitored cipher command a.req w a.valid
  /-- Every answered request decided on a record, and left the entry that the
  record asks for. -/
  complete : ∀ d ∈ c.done, ∀ command,
    KeyCommand.ofText d.req.query.cmd = some command →
    ∃ w, Passes delAbsent cipher log first schedule d.start d.stop w ∧
      ∀ valid, (∃ a ∈ entries, a.start = d.start ∧ a.req = d.req ∧
          a.valid = valid) ↔
        Monitored cipher command d.req w valid
  /-- A request about to write decided on a record, and if that is monitored
  the write is in the log already. -/
  ahead : ∀ i t op next key, (c.clients i).running = some t →
    t.prog = .call op next → op.WritesAt key →
    ∃ command, KeyCommand.ofText t.req.query.cmd = some command ∧
    ∃ w, Passes delAbsent cipher log first schedule t.start c.time w ∧
      ∀ valid, Monitored cipher command t.req w valid →
        ∃ a ∈ entries, a.start = t.start ∧ a.req = t.req ∧ a.valid = valid ∧
          ∃ write, command.sent valid a.newVal = some write ∧
            op = write.op key

variable (cipher) in
/-- The calls of an answered request are those its record asks for. -/
private theorem calls_iff_monitored {command : KeyCommand} {req : Request}
    {performed : List (Sigma Op.Res)} {outcome : Except Exn Str}
    (h : Followed command req performed outcome) :
    ∃ res rest, performed = command.readStep req.query.key res :: rest ∧
      ∀ w : World Store, res = KvClient.lookup cipher w.kv req.query.key →
        (∀ valid, (∃ newVal, (valid, newVal) ∈ performed.filterMap loggerCall) ↔
          Monitored cipher command req w valid) ∧
        ∀ valid newVal, (valid, newVal) ∈ performed.filterMap loggerCall →
          ¬ command.Writes valid → newVal = [] := by
  cases h with
  | raised res e hPlan =>
      refine ⟨res, [], rfl, ?_⟩
      rintro w rfl
      have hNone : [command.readStep req.query.key
          (KvClient.lookup cipher w.kv req.query.key)].filterMap loggerCall =
            [] := by
        rw [List.filterMap_cons, loggerCall_readStep]
        rfl
      rw [hNone]
      refine ⟨fun valid => ⟨?_, ?_⟩, fun valid newVal hMem => nomatch hMem⟩
      · rintro ⟨newVal, hMem⟩
        cases hMem
      · exact fun hMonitored =>
          absurd hMonitored (not_monitored_of_error hPlan valid)
  | replied res pl ok hPlan =>
      refine ⟨res, _, rfl, ?_⟩
      rintro w rfl
      rw [calls_steps]
      refine ⟨fun valid => ?_, fun valid newVal hMem => ?_⟩
      · simp only [Option.mem_toList]
        exact entry_iff_monitored hPlan valid
      · exact (sent_of_entry hPlan (Option.mem_toList.mp hMem)).2

/-- The entries that the operations of a run leave. -/
def auditEntries (events : List (Event Request Op.Res)) : List AuditEntry :=
  events.filterMap auditEntry

theorem mem_auditEntries {a : AuditEntry} (hMem : a ∈ auditEntries events) :
    ∃ e ∈ events, ∃ call, loggerCall e.performed = some call ∧
      a = ⟨e.req, e.start, call.1, call.2⟩ := by
  obtain ⟨e, hEvent, hEntry⟩ := List.mem_filterMap.mp hMem
  obtain ⟨call, hCall, rfl⟩ := Option.map_eq_some_iff.mp hEntry
  exact ⟨e, hEvent, call, hCall, rfl⟩

section Trail

variable {w : World Store} {queues : Nat → List Request}
  (h : History (served (mapEnv delAbsent cipher log)) (firstConfig w queues)
    schedule c events)

include h

/-- A logger call of a request is one its record asks for. -/
theorem monitored_of_call {e : Event Request Op.Res} (hMem : e ∈ events)
    {call : Bool × Str} (hCall : loggerCall e.performed = some call) :
    ∃ command, KeyCommand.ofText e.req.query.cmd = some command ∧
      (¬ command.Writes call.1 → call.2 = []) ∧
      ∃ w', Passes delAbsent cipher log (firstConfig w queues) schedule
        e.start c.time w' ∧ Monitored cipher command e.req w' call.1 := by
  obtain ⟨prog, hPerformed⟩ := h.performed_of_mem hMem
  have hIn : e.performed ∈ (operationsOf e.start events).map
      Event.performed :=
    List.mem_map_of_mem (List.mem_filter.mpr ⟨hMem, decide_eq_true rfl⟩)
  cases hCommand : KeyCommand.ofText e.req.query.cmd with
  | none =>
      have hReads := ((World.only_respond_other e.req.policy e.req.readings
        hCommand).remains hPerformed.remains).2 _ hIn
      rw [loggerCall_of_reads hReads] at hCall
      cases hCall
  | some command =>
      obtain ⟨more, outcome, hMore⟩ := Prog.exists_remains_ofExcept prog
      obtain ⟨res, rest, hRead, hCalls⟩ := calls_iff_monitored cipher
        (followed_of_remains hCommand (hPerformed.remains.trans hMore))
      -- the read is done already, as something is
      obtain ⟨rest', hRead'⟩ : ∃ rest', (operationsOf e.start events).map
          Event.performed = command.readStep e.req.query.key res :: rest' := by
        cases hAll : (operationsOf e.start events).map Event.performed with
        | nil => rw [hAll] at hIn; cases hIn
        | cons first rest' =>
            rw [hAll] at hRead
            exact ⟨rest', (List.cons_eq_cons.mp hRead).1 ▸ rfl⟩
      obtain ⟨w', hPasses, hRes⟩ := passes_of_read h hPerformed hRead'
      obtain ⟨hVerdict, hNew⟩ := hCalls w' hRes
      have hCallIn : call ∈ ((operationsOf e.start events).map
          Event.performed ++ more).filterMap loggerCall :=
        List.mem_filterMap.mpr ⟨_, List.mem_append_left _ hIn, hCall⟩
      exact ⟨command, rfl, hNew call.1 call.2 hCallIn, w', hPasses,
        (hVerdict call.1).mp ⟨call.2, hCallIn⟩⟩

omit h in
/-- The entry of a moment is that of the request which started then. -/
theorem owner_of_entry {req : Request} {start now : Nat} {prog : Handler Str}
    (hPerformed : Performed (served (mapEnv delAbsent cipher log)) events req
      start now prog) {a : AuditEntry} (hMem : a ∈ auditEntries events)
    (hStart : a.start = start) : a.req = req := by
  obtain ⟨e, hEvent, call, -, rfl⟩ := mem_auditEntries hMem
  exact (hPerformed.within e
    (List.mem_filter.mpr ⟨hEvent, decide_eq_true hStart⟩)).1

/-- Nothing but the entries is written to the logs. -/
theorem content_of_history (key : Str) :
    (c.shared.logs.content (log.logFilePath key)).getD [] =
      (w.logs.content (log.logFilePath key)).getD [] ++
        ((auditEntries events).filter fun a => a.req.query.key = key).flatMap
          (AuditEntry.bytes log) := by
  rw [← h.shared]
  refine content_replay events ?_ _ key
  intro e hMem q p valid newVal hOp
  obtain ⟨prog, hPerformed⟩ := h.performed_of_mem hMem
  have hOwn := logsOwn_of_remains hPerformed.remains e.performed
    (List.mem_map_of_mem (List.mem_filter.mpr ⟨hMem, decide_eq_true rfl⟩))
    q p valid newVal hOp
  exact ⟨hOwn.1, hOwn.2.1⟩

/-- No request leaves two entries. -/
theorem nodup_auditEntries :
    ((auditEntries events).map AuditEntry.start).Nodup := by
  rw [List.nodup_iff_count_le_one]
  intro start
  by_cases hNone : start ∈ (auditEntries events).map AuditEntry.start
  · obtain ⟨a, hMem, rfl⟩ := List.mem_map.mp hNone
    obtain ⟨e, hEvent, call, -, rfl⟩ := mem_auditEntries hMem
    obtain ⟨prog, hPerformed⟩ := h.performed_of_mem hEvent
    have hOne := entries_of_remains hPerformed.remains
    rw [← entries_of_start, List.length_map, ← List.countP_eq_length_filter]
      at hOne
    rw [List.count, List.countP_map]
    refine Nat.le_trans (Nat.le_of_eq (List.countP_congr ?_)) hOne
    intro a _
    simp
  · rw [List.count_eq_zero_of_not_mem hNone]
    exact Nat.zero_le 1

/-- An answered request has left the entry its record asks for. -/
theorem entry_of_done {d : Done Request Exn Str} (hDone : d ∈ c.done)
    {command : KeyCommand}
    (hCommand : KeyCommand.ofText d.req.query.cmd = some command) :
    ∃ w', Passes delAbsent cipher log (firstConfig w queues) schedule d.start
        d.stop w' ∧
      ∀ valid, (∃ a ∈ auditEntries events, a.start = d.start ∧ a.req = d.req ∧
          a.valid = valid) ↔
        Monitored cipher command d.req w' valid := by
  have hPerformed := h.done d hDone
  obtain ⟨res, rest, hRead, hCalls⟩ := calls_iff_monitored cipher
    (followed_of_remains hCommand hPerformed.remains)
  obtain ⟨w', hPasses, hRes⟩ := passes_of_read h hPerformed hRead
  refine ⟨w', hPasses, fun valid => ?_⟩
  rw [← (hCalls w' hRes).1 valid]
  constructor
  · rintro ⟨a, hMem, hStart, -, hValid⟩
    exact ⟨a.newVal, exists_entry_iff.mp ⟨a, hMem, hStart, hValid, rfl⟩⟩
  · rintro ⟨newVal, hMem⟩
    obtain ⟨a, hMem, hStart, hValid, -⟩ := exists_entry_iff.mpr hMem
    exact ⟨a, hMem, hStart, owner_of_entry hPerformed hMem hStart, hValid⟩

/-- A write on a monitored record is logged before it is done. -/
theorem entry_of_writing {i : Nat} {t : Task Request Op Op.Res Exn Str} {op : Op}
    {next : op.Res → Handler Str} {key : Str}
    (hRunning : (c.clients i).running = some t) (hProg : t.prog = .call op next)
    (hWrites : op.WritesAt key) :
    ∃ command, KeyCommand.ofText t.req.query.cmd = some command ∧
    ∃ w', Passes delAbsent cipher log (firstConfig w queues) schedule t.start
        c.time w' ∧
      ∀ valid, Monitored cipher command t.req w' valid →
        ∃ a ∈ auditEntries events, a.start = t.start ∧ a.req = t.req ∧
          a.valid = valid ∧ ∃ write, command.sent valid a.newVal = some write ∧
            op = write.op key := by
  have hPerformed := h.running i t hRunning
  rw [hProg] at hPerformed
  cases hCommand : KeyCommand.ofText t.req.query.cmd with
  | none =>
      have hOnly := (World.only_respond_other t.req.policy t.req.readings
        hCommand).remains hPerformed.remains
      exact (Op.not_writesAt_of_reads hOnly.1.1 hWrites).elim
  | some command =>
      have hOnly := (only_ofRequest hCommand).remains hPerformed.remains
      obtain rfl : key = t.req.query.key := hOnly.1.1.writesAt hWrites
      obtain ⟨answer, more, outcome, hFollowed⟩ :=
        followed_of_call hCommand hPerformed.remains
      obtain ⟨res, pl, write, hRead, hPlan, hWrite, hOp⟩ :=
        hFollowed.writes hWrites
      obtain ⟨w', hPasses, rfl⟩ := passes_of_read h hPerformed hRead
      refine ⟨command, rfl, w', hPasses, fun valid hMonitored => ?_⟩
      obtain ⟨newVal, hEntry⟩ := (entry_iff_monitored hPlan valid).mpr
        hMonitored
      have hCalls : (valid, newVal) ∈ ((operationsOf t.start events).map
          Event.performed).filterMap loggerCall := by
        rw [hRead, hEntry, List.filterMap_cons, loggerCall_readStep]
        exact List.mem_cons_self
      obtain ⟨a, hMem, hStart, hValid, rfl⟩ := exists_entry_iff.mpr hCalls
      exact ⟨a, hMem, hStart, owner_of_entry hPerformed hMem hStart, hValid,
        write, (sent_of_entry hPlan hEntry).1 ▸ hWrite, hOp⟩

end Trail

end Moments

end GDPRuler.Controller
