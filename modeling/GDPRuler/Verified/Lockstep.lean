import GDPRuler.Verified.Interleave

/-!
# Two systems in lockstep

Two runs of interleaved requests under one schedule, of one system on two states
or of two systems, proceed step by step alike as long as the requests perform
the same sort of operations and are answered alike.  A `Coupling` says what is
alike: requests, operations, answers, outcomes and states.  It is proved program
by program (`Prog.Matched`) and operation by operation; that it then holds of
every interleaving is proved here, once (`Coupling.run`).

With equality for all but the states it says that one state cannot be told from
another; with less it says what a difference can change.
-/

namespace GDPRuler.Verified

variable {Op : Type} {Res : Op → Type} {ε α : Type}

/-- Two programs that perform operations in `calls`, as long as the answers are
in `answers`, and end with outcomes in `ends`. -/
inductive Prog.Matched (calls : Op → Op → Prop)
    (answers : (op op' : Op) → Res op → Res op' → Prop)
    (ends : Except ε α → Except ε α → Prop) :
    Prog Op Res ε α → Prog Op Res ε α → Prop
  | ended (o o' : Except ε α) (h : ends o o') :
      Matched calls answers ends (.ofExcept o) (.ofExcept o')
  | call (op op' : Op) {next : Res op → Prog Op Res ε α}
      {next' : Res op' → Prog Op Res ε α} (hCall : calls op op')
      (hNext : ∀ r r', answers op op' r r' →
        Matched calls answers ends (next r) (next' r')) :
      Matched calls answers ends (.call op next) (.call op' next')

theorem forall₂_mem {α β : Type} {R : α → β → Prop} {as : List α}
    {bs : List β} (h : List.Forall₂ R as bs) :
    List.Forall₂ (fun a b => a ∈ as ∧ b ∈ bs ∧ R a b) as bs := by
  induction h with
  | nil => exact .nil
  | cons hHere hLater ih =>
      refine .cons ⟨List.mem_cons_self, List.mem_cons_self, hHere⟩
        (ih.imp fun a b hBoth => ?_)
      exact ⟨List.mem_cons_of_mem _ hBoth.1, List.mem_cons_of_mem _ hBoth.2.1,
        hBoth.2.2⟩

namespace Interleave

open GDPRuler.Verified.Transition

variable {Req Req' σ σ' : Type}

/-- What is alike in two systems: alike requests perform alike operations, and
these are answered alike by alike states, which they leave alike. -/
structure Coupling (S : System Req Op Res ε α σ)
    (S' : System Req' Op Res ε α σ') where
  requests : Req → Req' → Prop
  calls : Op → Op → Prop
  answers : (op op' : Op) → Res op → Res op' → Prop
  ends : Req → Req' → Except ε α → Except ε α → Prop
  states : σ → σ' → Prop
  body : ∀ {req req'}, requests req req' →
    Prog.Matched calls answers (ends req req') (S.body req) (S'.body req')
  exec : ∀ {req req' op op' s s'}, requests req req' → calls op op' →
    states s s' → answers op op' (S.exec req op s).1 (S'.exec req' op' s').1 ∧
      states (S.exec req op s).2 (S'.exec req' op' s').2

namespace Coupling

variable {S : System Req Op Res ε α σ} {S' : System Req' Op Res ε α σ'}
  (C : Coupling S S')

/-- Two requests in flight that are alike from now on. -/
structure Tasks (t : Task Req Op Res ε α) (t' : Task Req' Op Res ε α) :
    Prop where
  requests : C.requests t.req t'.req
  start : t.start = t'.start
  prog : Prog.Matched C.calls C.answers (C.ends t.req t'.req) t.prog t'.prog

/-- Two answered requests that are alike. -/
structure Dones (d : Done Req ε α) (d' : Done Req' ε α) : Prop where
  requests : C.requests d.req d'.req
  start : d.start = d'.start
  stop : d.stop = d'.stop
  outcome : C.ends d.req d'.req d.outcome d'.outcome

/-- Two clients that are alike. -/
structure Clients (a : Client Req Op Res ε α) (a' : Client Req' Op Res ε α) :
    Prop where
  queue : List.Forall₂ C.requests a.queue a'.queue
  running : Option.Rel C.Tasks a.running a'.running

/-- Two moments that are alike. -/
structure Configs (c : Config Req Op Res ε α σ) (c' : Config Req' Op Res ε α σ') :
    Prop where
  shared : C.states c.shared c'.shared
  clients : ∀ i, C.Clients (c.clients i) (c'.clients i)
  done : List.Forall₂ C.Dones c.done c'.done
  time : c.time = c'.time

variable {C}

theorem Configs.init {s : σ} {s' : σ'} (hStates : C.states s s')
    {queues : Nat → List Req} {queues' : Nat → List Req'}
    (hQueues : ∀ i, List.Forall₂ C.requests (queues i) (queues' i)) :
    C.Configs (Config.init s queues) (Config.init s' queues') :=
  { shared := hStates
    clients := fun i => ⟨hQueues i, .none⟩
    done := .nil
    time := rfl }

/-- A client that is replaced by one that is alike. -/
theorem clients_update {clients : Nat → Client Req Op Res ε α}
    {clients' : Nat → Client Req' Op Res ε α}
    (h : ∀ i, C.Clients (clients i) (clients' i)) {i : Nat}
    {a : Client Req Op Res ε α} {a' : Client Req' Op Res ε α}
    (ha : C.Clients a a') (j : Nat) :
    C.Clients (Function.update clients i a j)
      (Function.update clients' i a' j) := by
  by_cases hj : j = i
  · subst hj
    rw [Function.update_self, Function.update_self]
    exact ha
  · rw [Function.update_of_ne hj, Function.update_of_ne hj]
    exact h j

/-- **The step lemma.** Whatever one system does next the other does too. -/
theorem Configs.step {c : Config Req Op Res ε α σ}
    {c' : Config Req' Op Res ε α σ'} (h : C.Configs c c') {i : Nat}
    {d : Config Req Op Res ε α σ} (hStep : Interleave.step S c i = some d) :
    ∃ d', Interleave.step S' c' i = some d' ∧ C.Configs d d' := by
  have hClient := h.clients i
  cases hRunning : (c.clients i).running with
  | none =>
      have hRunning' : (c'.clients i).running = none := by
        have hSame := hClient.running
        rw [hRunning] at hSame
        cases hIdle : (c'.clients i).running with
        | none => rfl
        | some t' =>
            rw [hIdle] at hSame
            cases hSame
      cases hQueue : (c.clients i).queue with
      | nil => simp [Interleave.step, hRunning, hQueue] at hStep
      | cons r rest =>
          simp only [Interleave.step, hRunning, hQueue, Option.some.injEq]
            at hStep
          subst hStep
          have hQueues := hClient.queue
          rw [hQueue] at hQueues
          obtain ⟨r', rest', hReq, hRest, hQueue'⟩ :=
            List.forall₂_cons_left_iff.mp hQueues
          refine ⟨c'.begin S' i r' rest', ?_,
            { shared := h.shared
              clients := clients_update h.clients ⟨hRest, .some ?_⟩
              done := h.done
              time := congrArg (· + 1) h.time }⟩
          · simp only [Interleave.step, hRunning', hQueue']
          · exact ⟨hReq, h.time, C.body hReq⟩
  | some t =>
      have hSame := hClient.running
      rw [hRunning] at hSame
      cases hRunning' : (c'.clients i).running with
      | none =>
          rw [hRunning'] at hSame
          cases hSame
      | some t' =>
          rw [hRunning'] at hSame
          obtain ⟨hReq, hStart, hProg⟩ : C.Tasks t t' := by
            cases hSame
            assumption
          generalize hBody : t.prog = p at hProg
          generalize hBody' : t'.prog = p' at hProg
          cases hProg with
          | ended o o' hEnds =>
              have hNow : d = c.answer i t o := by
                cases o <;>
                  simpa [Interleave.step, hRunning, hBody, Prog.ofExcept]
                    using hStep.symm
              subst hNow
              refine ⟨c'.answer i t' o', ?_,
                { shared := h.shared
                  clients := clients_update h.clients ⟨hClient.queue, .none⟩
                  done := ?_
                  time := congrArg (· + 1) h.time }⟩
              · cases o' <;>
                  simp only [Interleave.step, hRunning', hBody', Prog.ofExcept]
              · exact List.rel_append h.done
                  (.cons ⟨hReq, hStart, h.time, hEnds⟩ .nil)
          | @call op op' next next' hCall hNext =>
              simp only [Interleave.step, hRunning, hBody, Option.some.injEq]
                at hStep
              subst hStep
              obtain ⟨hAnswers, hStates⟩ := C.exec hReq hCall h.shared
              refine ⟨c'.advance S' i t' op' next', ?_,
                { shared := hStates
                  clients := clients_update h.clients ⟨hClient.queue, .some ?_⟩
                  done := h.done
                  time := congrArg (· + 1) h.time }⟩
              · simp only [Interleave.step, hRunning', hBody']
              · exact ⟨hReq, hStart, hNext _ _ hAnswers⟩

/-- **The lockstep rule.** A schedule that one system goes through the other goes
through too, and all that happens is alike. -/
theorem Configs.run {schedule : List Nat} {c d : Config Req Op Res ε α σ}
    {c' : Config Req' Op Res ε α σ'} (h : C.Configs c c')
    (hRun : Transition.run (Interleave.step S) schedule c = some d) :
    ∃ d', Transition.run (Interleave.step S') schedule c' = some d' ∧
      C.Configs d d' := by
  induction schedule generalizing c c' with
  | nil => exact ⟨c', rfl, Option.some.inj hRun ▸ h⟩
  | cons i schedule ih =>
      rw [run_cons] at hRun
      obtain ⟨next, hNext, hRest⟩ := Option.bind_eq_some_iff.mp hRun
      obtain ⟨next', hNext', h'⟩ := h.step hNext
      obtain ⟨d', hRun', hEnd⟩ := ih h' hRest
      refine ⟨d', ?_, hEnd⟩
      rw [run_cons, hNext']
      exact hRun'

/-- Every moment of the one run is alike to that moment of the other. -/
theorem Configs.moment {schedule : List Nat} {c d : Config Req Op Res ε α σ}
    {c' m' : Config Req' Op Res ε α σ'} (h : C.Configs c c')
    (hRun : Transition.run (Interleave.step S) schedule c = some d) {n : Nat}
    (hMoment : Transition.run (Interleave.step S') (schedule.take n) c' =
      some m') :
    ∃ m, Transition.run (Interleave.step S) (schedule.take n) c = some m ∧
      C.Configs m m' := by
  obtain ⟨m, hBefore⟩ := exists_run_take hRun n
  obtain ⟨m'', hBefore', hAlike⟩ := h.run hBefore
  rw [hMoment, Option.some.injEq] at hBefore'
  exact ⟨m, hBefore, hBefore' ▸ hAlike⟩

end Coupling

end Interleave

end GDPRuler.Verified
