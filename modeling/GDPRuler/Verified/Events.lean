import Mathlib.Data.List.Induction
import GDPRuler.Verified.Interleave

/-!
# What an interleaved run did

An interleaved run is a sequence of operations on the shared state, each
performed for one request.  `History` keeps that sequence for a run: every
operation was answered by the state it found, replaying them all gives the
state at the end, and the operations of one request are those of its program.
Requests are told apart by the moment they started.

A property of programs is carried over to interleaved runs in two parts: what
an answered program must have performed (`Remains`), and what the states it
met were (`History`).

## Main results

* `History.step` — one step extends the history;
* `exists_history` — every run has one.
-/

namespace GDPRuler.Verified

/-! ## What remains of a program -/

variable {Op : Type} {Res : Op → Type} {ε α : Type}

namespace Prog

/-- `p`, after performing operations with these answers, is `q`. -/
inductive Remains : Prog Op Res ε α → List (Sigma Res) → Prog Op Res ε α → Prop
  | nil (p : Prog Op Res ε α) : Remains p [] p
  | call (op : Op) (next : Res op → Prog Op Res ε α) (r : Res op)
      (performed : List (Sigma Res)) (q : Prog Op Res ε α)
      (h : Remains (next r) performed q) :
      Remains (.call op next) (⟨op, r⟩ :: performed) q

theorem Remains.concat {p : Prog Op Res ε α} {performed : List (Sigma Res)}
    {op : Op} {next : Res op → Prog Op Res ε α}
    (h : Remains p performed (.call op next)) (r : Res op) :
    Remains p (performed ++ [⟨op, r⟩]) (next r) := by
  generalize hq : Prog.call op next = q at h
  induction h with
  | nil p =>
      subst hq
      exact .call op next r [] _ (.nil _)
  | call op' next' r' performed q h ih =>
      exact .call op' next' r' _ _ (ih hq)

theorem Remains.trans {p q r : Prog Op Res ε α}
    {performed later : List (Sigma Res)} (h : Remains p performed q)
    (h' : Remains q later r) : Remains p (performed ++ later) r := by
  induction h with
  | nil p => exact h'
  | call op next answer performed q h ih => exact .call op next answer _ _ (ih h')

/-- Where every operation has some answer, every program can be brought to its
end. -/
theorem exists_remains_ofExcept [∀ op, Nonempty (Res op)]
    (p : Prog Op Res ε α) :
    ∃ performed outcome, Remains p performed (ofExcept outcome) := by
  induction p with
  | ret a => exact ⟨[], .ok a, .nil _⟩
  | fail e => exact ⟨[], .error e, .nil _⟩
  | call op next ih =>
      obtain ⟨answer⟩ : Nonempty (Res op) := inferInstance
      obtain ⟨performed, outcome, h⟩ := ih answer
      exact ⟨_, outcome, .call op next answer performed _ h⟩

/-- A program that was answered has nothing left to perform. -/
theorem Remains.of_ret {a : α} {performed : List (Sigma Res)}
    {q : Prog Op Res ε α} (h : Remains (.ret a) performed q) :
    performed = [] ∧ q = .ret a := by
  cases h
  exact ⟨rfl, rfl⟩

theorem Remains.of_fail {e : ε} {performed : List (Sigma Res)}
    {q : Prog Op Res ε α} (h : Remains (.fail e) performed q) :
    performed = [] ∧ q = .fail e := by
  cases h
  exact ⟨rfl, rfl⟩

/-- The operations of a program in `P` are in `P`. -/
theorem Only.remains {P : Op → Prop} {p q : Prog Op Res ε α}
    {performed : List (Sigma Res)} (hp : p.Only P)
    (h : Remains p performed q) :
    q.Only P ∧ ∀ step ∈ performed, P step.1 := by
  induction h with
  | nil p => exact ⟨hp, fun step hMem => nomatch hMem⟩
  | call op next r performed q h ih =>
      obtain ⟨hRest, hSteps⟩ := ih (hp.2 r)
      exact ⟨hRest, List.forall_mem_cons.mpr ⟨hp.1, hSteps⟩⟩

theorem ofExcept_ne_call {outcome : Except ε α} {op : Op}
    {next : Res op → Prog Op Res ε α} :
    (ofExcept outcome : Prog Op Res ε α) ≠ .call op next := by
  cases outcome <;> simp [ofExcept]

/-- At most `n` operations, and then an outcome. -/
inductive Within : Nat → Prog Op Res ε α → Prop
  | ended (n : Nat) (o : Except ε α) : Within n (.ofExcept o)
  | call {n : Nat} (op : Op) {next : Res op → Prog Op Res ε α}
      (h : ∀ r, Within n (next r)) : Within (n + 1) (.call op next)

theorem Within.next {n : Nat} {op : Op} {next : Res op → Prog Op Res ε α}
    (h : Within n (.call op next)) :
    ∃ m, n = m + 1 ∧ ∀ r, Within m (next r) := by
  generalize hq : Prog.call op next = q at h
  cases h with
  | ended n o => exact absurd hq.symm ofExcept_ne_call
  | @call m op' next' hNext =>
      cases hq
      exact ⟨m, rfl, hNext⟩

theorem ofExcept_injective {outcome outcome' : Except ε α}
    (h : (ofExcept outcome : Prog Op Res ε α) = ofExcept outcome') :
    outcome = outcome' := by
  cases outcome <;> cases outcome' <;> cases h <;> rfl

end Prog

namespace Interleave

open GDPRuler.Verified.Transition

variable {Req σ : Type}

/-! ## Runs by their last step -/

section Runs

variable {State Act : Type} {step : State → Act → Option State}

theorem run_concat (acts : List Act) (a : Act) (s : State) :
    run step (acts ++ [a]) s = (run step acts s).bind (step · a) := by
  induction acts generalizing s with
  | nil =>
      show run step [a] s = step s a
      rw [run_cons]
      cases step s a <;> rfl
  | cons b acts ih =>
      rw [List.cons_append, run_cons, run_cons]
      cases step s b with
      | none => rfl
      | some next => exact ih next

/-- **The history rule.** What holds of no steps, and is extended by every step
that a run can take next, holds of every run. -/
theorem run_history {init : State} {P : List Act → State → Prop}
    (hInit : P [] init)
    (hStep : ∀ acts s a s', run step acts init = some s → P acts s →
      step s a = some s' → P (acts ++ [a]) s')
    {acts : List Act} {s : State} (hRun : run step acts init = some s) :
    P acts s := by
  induction acts using List.reverseRecOn generalizing s with
  | nil => exact Option.some.inj hRun ▸ hInit
  | append_singleton acts a ih =>
      rw [run_concat] at hRun
      obtain ⟨before, hBefore, hLast⟩ := Option.bind_eq_some_iff.mp hRun
      exact hStep acts before a s hBefore (ih hBefore) hLast

end Runs

/-! ## Steps by kind -/

section Kinds

variable {S : System Req Op Res ε α σ} {c c' : Config Req Op Res ε α σ}
  {i : Nat}

/-- What a step does. -/
theorem step_cases (h : step S c i = some c') :
    (∃ r rest, (c.clients i).running = none ∧
      (c.clients i).queue = r :: rest ∧ c' = c.begin S i r rest) ∨
    (∃ t outcome, (c.clients i).running = some t ∧
      t.prog = Prog.ofExcept outcome ∧ c' = c.answer i t outcome) ∨
    ∃ t op next, (c.clients i).running = some t ∧ t.prog = .call op next ∧
      c' = c.advance S i t op next := by
  unfold step at h
  cases hRunning : (c.clients i).running with
  | none =>
      rw [hRunning] at h
      cases hQueue : (c.clients i).queue with
      | nil =>
          simp only [hQueue] at h
          cases h
      | cons r rest =>
          simp only [hQueue, Option.some.injEq] at h
          exact .inl ⟨r, rest, rfl, rfl, h.symm⟩
  | some t =>
      rw [hRunning] at h
      cases hProg : t.prog with
      | ret a =>
          simp only [hProg, Option.some.injEq] at h
          exact .inr (.inl ⟨t, .ok a, rfl, hProg, h.symm⟩)
      | fail e =>
          simp only [hProg, Option.some.injEq] at h
          exact .inr (.inl ⟨t, .error e, rfl, hProg, h.symm⟩)
      | call op next =>
          simp only [hProg, Option.some.injEq] at h
          exact .inr (.inr ⟨t, op, next, rfl, hProg, h.symm⟩)

/-- After a step of client `i` the others are as they were. -/
theorem clients_of_ne (h : step S c i = some c') {j : Nat} (hj : j ≠ i) :
    c'.clients j = c.clients j := by
  obtain ⟨client, hClients⟩ := step_clients h
  rw [hClients, Function.update_of_ne hj]

end Kinds

/-! ## Accounts -/

/-- More in one of several lists is more in all of them together. -/
theorem perm_flatMap_of_perm {α : Type} {ks : List Nat} (hNodup : ks.Nodup)
    {i : Nat} (hi : i ∈ ks) {f g : Nat → List α} (more : List α)
    (hHere : (g i).Perm (f i ++ more)) (hElse : ∀ j, j ≠ i → g j = f j) :
    (ks.flatMap g).Perm (ks.flatMap f ++ more) := by
  induction ks with
  | nil => cases hi
  | cons k ks ih =>
      obtain ⟨hNot, hRest⟩ := List.nodup_cons.mp hNodup
      rw [List.flatMap_cons, List.flatMap_cons]
      by_cases hk : k = i
      · subst hk
        have hSame : ks.flatMap g = ks.flatMap f := by
          refine List.flatMap_congr fun j hj => hElse j ?_
          rintro rfl
          exact hNot hj
        rw [hSame, List.append_assoc]
        refine (hHere.append_right _).trans ?_
        rw [List.append_assoc]
        exact List.perm_append_comm.append_left _
      · rw [hElse k hk, List.append_assoc]
        have hIn : i ∈ ks := by
          rcases List.mem_cons.mp hi with rfl | hIn
          · exact absurd rfl hk
          · exact hIn
        exact (ih hRest hIn).append_left _

/-- What a client has not been answered yet. -/
def Client.pending (client : Client Req Op Res ε α) : List Req :=
  (client.running.map Task.req).toList ++ client.queue

/-- Only the first `clients` clients ask anything, and what has been answered
and what is pending are together what they asked. -/
def Accounted (queues : Nat → List Req) (clients : Nat)
    (c : Config Req Op Res ε α σ) : Prop :=
  (∀ i, clients ≤ i → c.clients i = ⟨[], none⟩) ∧
  (c.done.map Done.req ++ (List.range clients).flatMap fun i =>
    (c.clients i).pending).Perm ((List.range clients).flatMap queues)

theorem Accounted.step {S : System Req Op Res ε α σ} {queues : Nat → List Req}
    {clients : Nat} {c c' : Config Req Op Res ε α σ} {i : Nat}
    (h : Accounted queues clients c) (hStep : step S c i = some c') :
    Accounted queues clients c' := by
  obtain ⟨hNone, hPerm⟩ := h
  have hHere : i < clients := by
    by_contra hLe
    have hEmpty := hNone i (Nat.not_lt.mp hLe)
    simp only [Interleave.step, hEmpty, reduceCtorEq] at hStep
  refine ⟨fun j hj => ?_, ?_⟩
  · rw [clients_of_ne hStep (by omega)]
    exact hNone j hj
  have hSame : (c'.done = c.done ∧
      (c'.clients i).pending = (c.clients i).pending) →
      (c'.done.map Done.req ++ (List.range clients).flatMap fun i =>
        (c'.clients i).pending).Perm ((List.range clients).flatMap queues) := by
    rintro ⟨hDone, hPending⟩
    have hAll : (fun j => (c'.clients j).pending) =
        fun j => (c.clients j).pending := by
      funext j
      by_cases hj : j = i
      · subst hj
        exact hPending
      · rw [clients_of_ne hStep hj]
    rwa [hDone, hAll]
  rcases step_cases hStep with ⟨r, rest, hRunning, hQueue, rfl⟩ |
    ⟨t, outcome, hRunning, hProg, rfl⟩ | ⟨t, op, next, hRunning, hProg, rfl⟩
  · refine hSame ⟨rfl, ?_⟩
    simp [Client.pending, Config.begin, hRunning, hQueue]
  · refine List.Perm.trans ?_ hPerm
    rw [Config.answer, List.map_append, List.append_assoc]
    refine List.Perm.append_left _ ?_
    refine List.perm_append_comm.trans
      (perm_flatMap_of_perm List.nodup_range (List.mem_range.mpr hHere) [t.req]
        ?_ fun j hj => ?_).symm
    · simp only [Client.pending, hRunning, Function.update_self,
        Option.map_some, Option.map_none, Option.toList_some,
        Option.toList_none, List.nil_append]
      exact List.perm_append_comm
    · simp only [Function.update_of_ne hj]
  · refine hSame ⟨rfl, ?_⟩
    simp [Client.pending, Config.advance, hRunning]

/-- **Nothing is lost or done twice.** -/
theorem account {S : System Req Op Res ε α σ} {s : σ} {queues : Nat → List Req}
    {clients : Nat} (hQueues : ∀ i, clients ≤ i → queues i = [])
    {schedule : List Nat} {c : Config Req Op Res ε α σ}
    (hRun : run (step S) schedule (Config.init s queues) = some c) :
    (c.done.map Done.req ++ (List.range clients).flatMap fun i =>
      (c.clients i).pending).Perm ((List.range clients).flatMap queues) := by
  have hInit : Accounted queues clients
      (Config.init s queues : Config Req Op Res ε α σ) := by
    refine ⟨fun i hi => ?_, List.Perm.refl _⟩
    simp only [Config.init, hQueues i hi]
  have hAll : Accounted queues clients c :=
    Reaches.invariant (fun _ _ _ h hStep => h.step hStep) hInit ⟨schedule, hRun⟩
  exact hAll.2

/-- In the end every request is answered once. -/
theorem perm_of_finished {S : System Req Op Res ε α σ} {s : σ}
    {queues : Nat → List Req} {clients : Nat}
    (hQueues : ∀ i, clients ≤ i → queues i = []) {schedule : List Nat}
    {c : Config Req Op Res ε α σ}
    (hRun : run (step S) schedule (Config.init s queues) = some c)
    (hFinished : c.Finished) :
    (c.done.map Done.req).Perm ((List.range clients).flatMap queues) := by
  have hAll := account hQueues hRun
  have hNone : (List.range clients).flatMap (fun i => (c.clients i).pending) =
      [] := by
    refine List.flatMap_eq_nil_iff.mpr fun i _ => ?_
    rw [hFinished i]
    rfl
  rwa [hNone, List.append_nil] at hAll

/-! ## Histories -/

/-- An operation of a run: the request it belongs to, when that started, when
it was performed, and what it was answered. -/
structure Event (Req : Type) {Op : Type} (Res : Op → Type) where
  req : Req
  start : Nat
  time : Nat
  performed : Sigma Res

/-- The state after some operations. -/
def replay (S : System Req Op Res ε α σ) (events : List (Event Req Res))
    (s : σ) : σ :=
  events.foldl (fun s e => (S.exec e.req e.performed.1 s).2) s

/-- The operations of the request that started at `start`. -/
def operationsOf (start : Nat) (events : List (Event Req Res)) :
    List (Event Req Res) :=
  events.filter fun e => e.start = start

/-- The request that started at `start` has performed the operations of its
program, each of them before `now`, and `prog` remains. -/
structure Performed (S : System Req Op Res ε α σ) (events : List (Event Req Res))
    (req : Req) (start now : Nat) (prog : Prog Op Res ε α) : Prop where
  remains : (S.body req).Remains
    ((operationsOf start events).map Event.performed) prog
  within : ∀ e ∈ operationsOf start events,
    e.req = req ∧ start < e.time ∧ e.time < now

/-- A request is in flight or answered. -/
def Config.Knows (c : Config Req Op Res ε α σ) (req : Req) (start : Nat) :
    Prop :=
  (∃ i t, (c.clients i).running = some t ∧ t.req = req ∧ t.start = start) ∨
    ∃ d ∈ c.done, d.req = req ∧ d.start = start

/-- The operations of a run, in their order. -/
structure History (S : System Req Op Res ε α σ) (init : Config Req Op Res ε α σ)
    (schedule : List Nat) (c : Config Req Op Res ε α σ)
    (events : List (Event Req Res)) : Prop where
  clock : c.time = schedule.length
  /-- Together they account for the shared state. -/
  shared : replay S events init.shared = c.shared
  /-- Each was answered by the state of its moment. -/
  moment : ∀ e ∈ events, ∃ before : Config Req Op Res ε α σ,
    run (step S) (schedule.take e.time) init = some before ∧
      e.performed.2 = (S.exec e.req e.performed.1 before.shared).1
  past : ∀ e ∈ events, e.time < c.time
  known : ∀ e ∈ events, c.Knows e.req e.start
  running : ∀ i t, (c.clients i).running = some t →
    Performed S events t.req t.start c.time t.prog
  done : ∀ d ∈ c.done,
    Performed S events d.req d.start d.stop (Prog.ofExcept d.outcome)
  /-- No two requests started at one moment. -/
  startOfRunning : ∀ i t, (c.clients i).running = some t → t.start < c.time
  startOfDone : ∀ d ∈ c.done, d.start < c.time
  runningApart : ∀ i j t t', (c.clients i).running = some t →
    (c.clients j).running = some t' → t.start = t'.start → i = j
  doneApart : ∀ i t, (c.clients i).running = some t →
    ∀ d ∈ c.done, d.start ≠ t.start

namespace History

variable {S : System Req Op Res ε α σ} {init c c' : Config Req Op Res ε α σ}
  {schedule : List Nat} {events : List (Event Req Res)} {i : Nat}

theorem first (S : System Req Op Res ε α σ) (s : σ) (queues : Nat → List Req) :
    History S (Config.init s queues) [] (Config.init s queues) [] := by
  refine
    { clock := rfl
      shared := rfl
      moment := fun e hMem => nomatch hMem
      past := fun e hMem => nomatch hMem
      known := fun e hMem => nomatch hMem
      running := fun i t hRunning => nomatch hRunning
      done := fun d hMem => nomatch hMem
      startOfRunning := fun i t hRunning => nomatch hRunning
      startOfDone := fun d hMem => nomatch hMem
      runningApart := fun i j t t' hRunning => nomatch hRunning
      doneApart := fun i t hRunning => nomatch hRunning }

/-- An event is of a request that has started. -/
theorem start_lt (h : History S init schedule c events) {e : Event Req Res}
    (hMem : e ∈ events) : e.start < c.time := by
  rcases h.known e hMem with ⟨i, t, hRunning, -, hStart⟩ | ⟨d, hDone, -, hStart⟩
  · exact hStart ▸ h.startOfRunning i t hRunning
  · exact hStart ▸ h.startOfDone d hDone

/-- An event is one of the operations of its request. -/
theorem performed_of_mem (h : History S init schedule c events)
    {e : Event Req Res} (hMem : e ∈ events) :
    ∃ prog, Performed S events e.req e.start c.time prog := by
  have hNow : ∀ {now prog}, Performed S events e.req e.start now prog →
      ∃ prog, Performed S events e.req e.start c.time prog := by
    intro now prog hPerformed
    refine ⟨prog, hPerformed.remains, fun e' hMem' => ?_⟩
    obtain ⟨hReq, hStart, -⟩ := hPerformed.within e' hMem'
    exact ⟨hReq, hStart, h.past e' (List.mem_of_mem_filter hMem')⟩
  rcases h.known e hMem with ⟨i, t, hRunning, hReq, hStart⟩ |
    ⟨d, hDone, hReq, hStart⟩
  · exact hNow (hReq ▸ hStart ▸ h.running i t hRunning)
  · exact hNow (hReq ▸ hStart ▸ h.done d hDone)

/-- A moment that has not come is the start of no event. -/
theorem operationsOf_now (h : History S init schedule c events) :
    operationsOf c.time events = [] := by
  rw [operationsOf, List.filter_eq_nil_iff]
  intro e hMem hStart
  have hLt := h.start_lt hMem
  have hEq : e.start = c.time := of_decide_eq_true hStart
  omega

/-- The states an event was answered by are not changed by later steps. -/
theorem moment_concat (h : History S init schedule c events)
    (i : Nat) : ∀ e ∈ events, ∃ before : Config Req Op Res ε α σ,
      run (step S) ((schedule ++ [i]).take e.time) init = some before ∧
        e.performed.2 = (S.exec e.req e.performed.1 before.shared).1 := by
  intro e hMem
  have hPast := h.past e hMem
  have hClock := h.clock
  rw [List.take_append_of_le_length (by omega)]
  exact h.moment e hMem

end History

namespace Performed

variable {S : System Req Op Res ε α σ} {events : List (Event Req Res)}
  {req : Req} {start now : Nat} {prog : Prog Op Res ε α}

theorem mono (h : Performed S events req start now prog) {later : Nat}
    (hLater : now ≤ later) : Performed S events req start later prog := by
  refine ⟨h.remains, fun e hMem => ?_⟩
  obtain ⟨hReq, hStart, hNow⟩ := h.within e hMem
  exact ⟨hReq, hStart, by omega⟩

/-- An operation of another request. -/
theorem other (h : Performed S events req start now prog)
    {e : Event Req Res} (hOther : e.start ≠ start) :
    Performed S (events ++ [e]) req start now prog := by
  have hSame : operationsOf start (events ++ [e]) =
      operationsOf start events := by
    rw [operationsOf, List.filter_append, List.filter_singleton]
    simp only [hOther, decide_false, cond_false, List.append_nil]
    rfl
  exact ⟨by rw [hSame]; exact h.remains, by rw [hSame]; exact h.within⟩

/-- The next operation of this one. -/
theorem next {op : Op} {rest : Res op → Prog Op Res ε α}
    (h : Performed S events req start now (.call op rest))
    (hStart : start < now) (r : Res op) :
    Performed S (events ++ [⟨req, start, now, ⟨op, r⟩⟩]) req start (now + 1)
      (rest r) := by
  have hMore : operationsOf start (events ++ [⟨req, start, now, ⟨op, r⟩⟩]) =
      operationsOf start events ++ [⟨req, start, now, ⟨op, r⟩⟩] := by
    rw [operationsOf, List.filter_append, List.filter_singleton]
    simp only [decide_true]
    rfl
  refine ⟨?_, ?_⟩
  · rw [hMore, List.map_append]
    exact h.remains.concat r
  · rw [hMore]
    intro e hMem
    rcases List.mem_append.mp hMem with hOld | hNew
    · obtain ⟨hReq, hAfter, hBefore⟩ := h.within e hOld
      exact ⟨hReq, hAfter, by omega⟩
    · obtain rfl := List.mem_singleton.mp hNew
      exact ⟨rfl, hStart, Nat.lt_succ_self _⟩

end Performed

/-! ## Steps extend histories -/

namespace History

variable {S : System Req Op Res ε α σ} {init c : Config Req Op Res ε α σ}
  {schedule : List Nat} {events : List (Event Req Res)} {i : Nat}
  {t : Task Req Op Res ε α}

/-- Sending a request. -/
theorem begin (h : History S init schedule c events) {r : Req} {rest : List Req}
    (hIdle : (c.clients i).running = none) :
    History S init (schedule ++ [i]) (c.begin S i r rest) events := by
  have hRunning : ∀ j t, ((c.begin S i r rest).clients j).running = some t →
      (j = i ∧ t = ⟨r, c.time, S.body r, []⟩) ∨
        (j ≠ i ∧ (c.clients j).running = some t) := by
    intro j t hRunning
    by_cases hj : j = i
    · subst hj
      simp only [Config.begin, Function.update_self, Option.some.injEq]
        at hRunning
      exact .inl ⟨rfl, hRunning.symm⟩
    · simp only [Config.begin, Function.update_of_ne hj] at hRunning
      exact .inr ⟨hj, hRunning⟩
  have hStill : ∀ j t, (c.clients j).running = some t →
      ((c.begin S i r rest).clients j).running = some t := by
    intro j t hOld
    have hj : j ≠ i := by
      rintro rfl
      rw [hIdle] at hOld
      cases hOld
    simp only [Config.begin, Function.update_of_ne hj]
    exact hOld
  refine
    { clock := ?_
      shared := h.shared
      moment := h.moment_concat i
      past := fun e hMem => Nat.lt_succ_of_lt (h.past e hMem)
      known := ?_
      running := ?_
      done := h.done
      startOfRunning := ?_
      startOfDone := fun d hMem => Nat.lt_succ_of_lt (h.startOfDone d hMem)
      runningApart := ?_
      doneApart := ?_ }
  · rw [List.length_append, ← h.clock]
    rfl
  · intro e hMem
    rcases h.known e hMem with ⟨j, t, hOld, hReq⟩ | hDone
    · exact .inl ⟨j, t, hStill j t hOld, hReq⟩
    · exact .inr hDone
  · intro j t hNew
    rcases hRunning j t hNew with ⟨rfl, rfl⟩ | ⟨-, hOld⟩
    · refine ⟨?_, ?_⟩
      · simp only [h.operationsOf_now]
        exact .nil _
      · simp only [h.operationsOf_now]
        exact fun e hMem => nomatch hMem
    · exact (h.running j t hOld).mono (Nat.le_succ _)
  · intro j t hNew
    rcases hRunning j t hNew with ⟨-, rfl⟩ | ⟨-, hOld⟩
    · exact Nat.lt_succ_self _
    · exact Nat.lt_succ_of_lt (h.startOfRunning j t hOld)
  · intro j k t t' hj hk hSame
    rcases hRunning j t hj with ⟨rfl, rfl⟩ | ⟨-, hOld⟩ <;>
      rcases hRunning k t' hk with ⟨rfl, rfl⟩ | ⟨-, hOld'⟩
    · rfl
    · have := h.startOfRunning k t' hOld'
      simp only at hSame
      omega
    · have := h.startOfRunning j t hOld
      simp only at hSame
      omega
    · exact h.runningApart j k t t' hOld hOld' hSame
  · intro j t hNew d hMem
    rcases hRunning j t hNew with ⟨-, rfl⟩ | ⟨-, hOld⟩
    · have := h.startOfDone d hMem
      simp only
      omega
    · exact h.doneApart j t hOld d hMem

/-- Answering a request. -/
theorem answer (h : History S init schedule c events)
    (hTask : (c.clients i).running = some t) {outcome : Except ε α}
    (hProg : t.prog = Prog.ofExcept outcome) :
    History S init (schedule ++ [i]) (c.answer i t outcome) events := by
  have hRunning : ∀ j t', ((c.answer i t outcome).clients j).running = some t' →
      j ≠ i ∧ (c.clients j).running = some t' := by
    intro j t' hNew
    by_cases hj : j = i
    · subst hj
      simp [Config.answer] at hNew
    · simp only [Config.answer, Function.update_of_ne hj] at hNew
      exact ⟨hj, hNew⟩
  have hDone : ∀ d ∈ (c.answer i t outcome).done,
      d ∈ c.done ∨ d = ⟨t.req, outcome, t.start, c.time⟩ := by
    intro d hMem
    simpa [Config.answer] using hMem
  have hNew : (⟨t.req, outcome, t.start, c.time⟩ : Done Req ε α) ∈
      (c.answer i t outcome).done :=
    List.mem_append_right _ List.mem_cons_self
  refine
    { clock := ?_
      shared := h.shared
      moment := h.moment_concat i
      past := fun e hMem => Nat.lt_succ_of_lt (h.past e hMem)
      known := ?_
      running := fun j t' hj =>
        (h.running j t' (hRunning j t' hj).2).mono (Nat.le_succ _)
      done := ?_
      startOfRunning := fun j t' hj =>
        Nat.lt_succ_of_lt (h.startOfRunning j t' (hRunning j t' hj).2)
      startOfDone := ?_
      runningApart := fun j k t₁ t₂ hj hk =>
        h.runningApart j k t₁ t₂ (hRunning j t₁ hj).2 (hRunning k t₂ hk).2
      doneApart := ?_ }
  · rw [List.length_append, ← h.clock]
    rfl
  · intro e hMem
    rcases h.known e hMem with ⟨j, t', hOld, hReq, hStart⟩ |
      ⟨d, hOld, hReq⟩
    · by_cases hj : j = i
      · subst hj
        rw [hTask, Option.some.injEq] at hOld
        exact .inr ⟨_, hNew, hOld ▸ hReq, hOld ▸ hStart⟩
      · refine .inl ⟨j, t', ?_, hReq, hStart⟩
        simp only [Config.answer, Function.update_of_ne hj]
        exact hOld
    · exact .inr ⟨d, List.mem_append_left _ hOld, hReq⟩
  · intro d hMem
    rcases hDone d hMem with hOld | rfl
    · exact h.done d hOld
    · exact hProg ▸ h.running i t hTask
  · intro d hMem
    rcases hDone d hMem with hOld | rfl
    · exact Nat.lt_succ_of_lt (h.startOfDone d hOld)
    · exact Nat.lt_succ_of_lt (h.startOfRunning i t hTask)
  · intro j t' hj d hMem
    obtain ⟨hNe, hOld'⟩ := hRunning j t' hj
    rcases hDone d hMem with hOld | rfl
    · exact h.doneApart j t' hOld' d hOld
    · exact fun hSame => hNe (h.runningApart i j t t' hTask hOld' hSame).symm

/-- Performing an operation. -/
theorem advance (h : History S init schedule c events)
    (hRun : run (step S) schedule init = some c)
    (hTask : (c.clients i).running = some t) {op : Op}
    {next : Res op → Prog Op Res ε α} (hProg : t.prog = .call op next) :
    History S init (schedule ++ [i]) (c.advance S i t op next)
      (events ++ [⟨t.req, t.start, c.time,
        ⟨op, (S.exec t.req op c.shared).1⟩⟩]) := by
  have hRunning : ∀ j t', ((c.advance S i t op next).clients j).running =
        some t' →
      (j = i ∧ t'.req = t.req ∧ t'.start = t.start ∧
        t'.prog = next (S.exec t.req op c.shared).1) ∨
      (j ≠ i ∧ (c.clients j).running = some t') := by
    intro j t' hNew
    by_cases hj : j = i
    · subst hj
      simp only [Config.advance, Function.update_self, Option.some.injEq]
        at hNew
      subst hNew
      exact .inl ⟨rfl, rfl, rfl, rfl⟩
    · simp only [Config.advance, Function.update_of_ne hj] at hNew
      exact .inr ⟨hj, hNew⟩
  -- every request in flight still is, from the same start
  have hStill : ∀ j t', (c.clients j).running = some t' →
      ∃ t'', ((c.advance S i t op next).clients j).running = some t'' ∧
        t''.req = t'.req ∧ t''.start = t'.start := by
    intro j t' hOld
    by_cases hj : j = i
    · subst hj
      rw [hTask, Option.some.injEq] at hOld
      subst hOld
      refine ⟨⟨t.req, t.start, next (S.exec t.req op c.shared).1,
        t.seen ++ [⟨op, (S.exec t.req op c.shared).1⟩]⟩, ?_, rfl, rfl⟩
      simp only [Config.advance, Function.update_self]
    · refine ⟨t', ?_, rfl, rfl⟩
      simp only [Config.advance, Function.update_of_ne hj]
      exact hOld
  have hWas : ∀ j t', ((c.advance S i t op next).clients j).running =
      some t' → ∃ t'', (c.clients j).running = some t'' ∧
        t''.start = t'.start := by
    intro j t' hNew
    rcases hRunning j t' hNew with ⟨rfl, -, hStart, -⟩ | ⟨-, hOld⟩
    · exact ⟨t, hTask, hStart.symm⟩
    · exact ⟨t', hOld, rfl⟩
  refine
    { clock := ?_
      shared := ?_
      moment := ?_
      past := ?_
      known := ?_
      running := ?_
      done := fun d hMem => (h.done d hMem).other fun hSame =>
        h.doneApart i t hTask d hMem hSame.symm
      startOfRunning := ?_
      startOfDone := fun d hMem => Nat.lt_succ_of_lt (h.startOfDone d hMem)
      runningApart := ?_
      doneApart := ?_ }
  · rw [List.length_append, ← h.clock]
    rfl
  · have hSoFar := h.shared
    rw [replay] at hSoFar
    rw [replay, List.foldl_append, hSoFar]
    rfl
  · refine List.forall_mem_append.mpr ⟨h.moment_concat i, ?_⟩
    rw [List.forall_mem_singleton]
    refine ⟨c, ?_, rfl⟩
    simp only [h.clock, List.take_left]
    exact hRun
  · refine List.forall_mem_append.mpr
      ⟨fun e hMem => Nat.lt_succ_of_lt (h.past e hMem), ?_⟩
    rw [List.forall_mem_singleton]
    exact Nat.lt_succ_self _
  · refine List.forall_mem_append.mpr ⟨fun e hMem => ?_, ?_⟩
    · rcases h.known e hMem with ⟨j, t', hOld, hReq, hStart⟩ | hDone
      · obtain ⟨t'', hNew, hReq', hStart'⟩ := hStill j t' hOld
        exact .inl ⟨j, t'', hNew, hReq'.trans hReq, hStart'.trans hStart⟩
      · exact .inr hDone
    · rw [List.forall_mem_singleton]
      obtain ⟨t'', hNew, hReq, hStart⟩ := hStill i t hTask
      exact .inl ⟨i, t'', hNew, hReq, hStart⟩
  · intro j t' hNew
    rcases hRunning j t' hNew with ⟨rfl, hReq, hStart, hRest⟩ | ⟨hj, hOld⟩
    · rw [hReq, hStart, hRest]
      exact (hProg ▸ h.running j t hTask).next (h.startOfRunning j t hTask) _
    · refine ((h.running j t' hOld).other fun hSame => ?_).mono (Nat.le_succ _)
      exact hj (h.runningApart i j t t' hTask hOld hSame).symm
  · intro j t' hNew
    obtain ⟨t'', hOld, hStart⟩ := hWas j t' hNew
    exact hStart ▸ Nat.lt_succ_of_lt (h.startOfRunning j t'' hOld)
  · intro j k t₁ t₂ hj hk hSame
    obtain ⟨t₁', hj', hStart⟩ := hWas j t₁ hj
    obtain ⟨t₂', hk', hStart'⟩ := hWas k t₂ hk
    exact h.runningApart j k t₁' t₂' hj' hk'
      (hStart.trans (hSame.trans hStart'.symm))
  · intro j t' hNew d hMem
    obtain ⟨t'', hOld, hStart⟩ := hWas j t' hNew
    exact hStart ▸ h.doneApart j t'' hOld d hMem

end History

/-- **Every run has a history.** -/
theorem exists_history (S : System Req Op Res ε α σ) (s : σ)
    (queues : Nat → List Req) {schedule : List Nat}
    {c : Config Req Op Res ε α σ}
    (hRun : run (step S) schedule (Config.init s queues) = some c) :
    ∃ events, History S (Config.init s queues) schedule c events := by
  refine run_history (P := fun schedule c =>
    ∃ events, History S (Config.init s queues) schedule c events)
    ⟨[], .first S s queues⟩ ?_ hRun
  rintro schedule c i c' hSoFar ⟨events, h⟩ hStep
  rcases step_cases hStep with ⟨r, rest, hIdle, -, rfl⟩ |
    ⟨t, outcome, hTask, hProg, rfl⟩ | ⟨t, op, next, hTask, hProg, rfl⟩
  · exact ⟨_, h.begin hIdle⟩
  · exact ⟨_, h.answer hTask hProg⟩
  · exact ⟨_, h.advance hSoFar hTask hProg⟩

end Interleave

end GDPRuler.Verified
