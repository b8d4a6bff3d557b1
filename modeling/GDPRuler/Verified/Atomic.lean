import GDPRuler.Verified.RelyGuarantee
import GDPRuler.Verified.Simulation

/-!
# Requests of one operation

A request whose program performs one operation at most is atomic: it takes
effect when that operation is performed.  So a system of such requests is
linearizable in every interleaving, with nothing asked of the schedule.

`explained_of_single` reads the linearization as one of an abstract machine that
simulates the system request by request.
-/

namespace GDPRuler.Verified

variable {Op : Type} {Res : Op → Type} {ε α : Type}

/-- One operation at most, and then an outcome. -/
inductive Prog.Single : Prog Op Res ε α → Prop
  | ended (o : Except ε α) : Single (.ofExcept o)
  | call (op : Op) (outcome : Res op → Except ε α) :
      Single (.call op fun r => .ofExcept (outcome r))

theorem Prog.Single.next {op : Op} {next : Res op → Prog Op Res ε α}
    (h : (Prog.call op next).Single) :
    ∃ outcome : Res op → Except ε α, next = fun r => .ofExcept (outcome r) := by
  generalize hq : Prog.call op next = q at h
  cases h with
  | ended o => exact absurd hq.symm Prog.ofExcept_ne_call
  | call op' outcome =>
      cases hq
      exact ⟨outcome, rfl⟩

theorem Prog.Single.within {p : Prog Op Res ε α} (h : p.Single) :
    p.Within 1 := by
  cases h with
  | ended o => exact .ended 1 o
  | call op outcome => exact .call op fun r => .ended 0 (outcome r)

namespace Interleave

open GDPRuler.Verified.Transition

variable {Req σ : Type}

theorem settles_ofExcept (exec : (op : Op) → σ → Res op × σ)
    (o : Except ε α) : Settles exec (.ofExcept o) o := by
  cases o with
  | error e => exact .fail e
  | ok a => exact .ret a

/-- The requests in flight are at their start or have their outcome. -/
def AtEnds (S : System Req Op Res ε α σ) (c : Config Req Op Res ε α σ) : Prop :=
  ∀ i t, (c.clients i).running = some t →
    t.prog = S.body t.req ∨ ∃ o, t.prog = .ofExcept o

section Single

variable {S : System Req Op Res ε α σ}

/-- **The step lemma** of atomic requests. -/
theorem AtEnds.step (hSingle : ∀ req, (S.body req).Single)
    {c c' : Config Req Op Res ε α σ} {i : Nat} (h : AtEnds S c)
    (hStep : step S c i = some c') : AtEnds S c' := by
  intro j t hRunning
  by_cases hj : j = i
  · subst hj
    rcases step_cases hStep with ⟨r, rest, -, -, rfl⟩ | ⟨t', o, -, -, rfl⟩ |
      ⟨t', op, next, hTask, hProg, rfl⟩
    · simp only [Config.begin, Function.update_self, Option.some.injEq]
        at hRunning
      exact .inl (hRunning ▸ rfl)
    · simp [Config.answer] at hRunning
    · simp only [Config.advance, Function.update_self, Option.some.injEq]
        at hRunning
      rcases h j t' hTask with hBody | ⟨o, hEnd⟩
      · have hOne := hSingle t'.req
        rw [← hBody, hProg] at hOne
        obtain ⟨outcome, rfl⟩ := hOne.next
        exact .inr ⟨outcome (S.exec t'.req op c.shared).1, hRunning ▸ rfl⟩
      · rw [hProg] at hEnd
        exact absurd hEnd.symm Prog.ofExcept_ne_call
  · rw [clients_of_ne hStep hj] at hRunning
    exact h j t hRunning

theorem AtEnds.commits (hSingle : ∀ req, (S.body req).Single)
    {c : Config Req Op Res ε α σ} (h : AtEnds S c) (i : Nat) :
    Commits S c i := by
  intro t op next hRunning hProg
  rcases h i t hRunning with hBody | ⟨o, hEnd⟩
  · have hOne := hSingle t.req
    rw [← hBody, hProg] at hOne
    obtain ⟨outcome, rfl⟩ := hOne.next
    refine .inr (.inr ⟨_, settles_ofExcept _ _, ?_⟩)
    rw [← hBody, hProg, Prog.run_call]
    exact (settles_ofExcept (S.exec t.req) _).run _
  · rw [hProg] at hEnd
    exact absurd hEnd.symm Prog.ofExcept_ne_call

/-- **Requests of one operation are linearizable.** -/
theorem linearizable_of_single (hSingle : ∀ req, (S.body req).Single) (s : σ)
    (queues : Nat → List Req) {schedule : List Nat}
    {c : Config Req Op Res ε α σ}
    (hRun : run (step S) schedule (Config.init s queues) = some c)
    (hFinished : c.Finished) : Linearizable S s c := by
  refine linearizable_of_commits S s queues schedule ?_ hRun hFinished
  have hFirst : AtEnds S (Config.init s queues : Config Req Op Res ε α σ) :=
    fun i t hRunning => nomatch hRunning
  exact AllSteps.of_invariant (P := fun _ _ => True)
    (fun _ _ _ h hStep => AtEnds.step hSingle h hStep)
    (fun _ i h _ => h.commits hSingle i) hFirst
    (allSteps_of_forall (fun _ _ => trivial) _ _)

/-- The requests one after another, as a machine. -/
theorem sequential_eq_outputs (reqs : List Req) (s : σ) :
    S.sequential reqs s =
      Simulation.outputs (fun req => (S.body req).run (S.exec req)) reqs s := by
  induction reqs generalizing s with
  | nil => rfl
  | cons req reqs ih => rw [System.sequential, Simulation.outputs, ih]

/-- **A linearization explained by an abstract machine** that answers as the
requests do when each runs alone. -/
theorem Linearizable.explained {τ : Type} {P : Req → Prop}
    (machine : Req → τ → Except ε α × τ) {R : σ → τ → Prop}
    (hStep : ∀ req s t, P req → R s t →
      ((S.body req).run (S.exec req) s).1 = (machine req t).1 ∧
        R ((S.body req).run (S.exec req) s).2 (machine req t).2)
    {s : σ} {t : τ} (hInit : R s t) {c : Config Req Op Res ε α σ}
    (hDone : ∀ d ∈ c.done, P d.req) (h : Linearizable S s c) :
    ∃ order : List (Done Req ε α), order.Perm c.done ∧
      order.Pairwise (fun a b => ¬ b.stop < a.start) ∧
      (Simulation.outputs machine (order.map Done.req) t).1 =
        order.map Done.outcome ∧
      R c.shared (Simulation.outputs machine (order.map Done.req) t).2 := by
  obtain ⟨order, hPerm, hReal, hSeq⟩ := h
  rw [sequential_eq_outputs] at hSeq
  have hCalls : ∀ req ∈ order.map Done.req, P req := by
    intro req hMem
    obtain ⟨d, hOrder, rfl⟩ := List.mem_map.mp hMem
    exact hDone d (hPerm.mem_iff.mp hOrder)
  have hOut := Simulation.outputs_eq hStep hCalls hInit
  have hEnd := Simulation.outputs_related
    (fun req s t hReq hR => (hStep req s t hReq hR).2) hCalls hInit
  rw [hSeq] at hOut hEnd
  exact ⟨order, hPerm, hReal, hOut.symm, hEnd⟩

/-- **Requests of one operation are those of a machine**, if the machine answers
as each does when it runs alone: some order that keeps to real time explains
every reply. -/
theorem explained_of_single {Query τ : Type}
    (hSingle : ∀ req, (S.body req).Single) (query : Req → Query)
    (machine : Query → τ → α × τ) {P : Req → Prop} {R : σ → τ → Prop}
    (hStep : ∀ req s t, P req → R s t →
      ((S.body req).run (S.exec req) s).1 = .ok (machine (query req) t).1 ∧
        R ((S.body req).run (S.exec req) s).2 (machine (query req) t).2)
    {s : σ} {t : τ} (hInit : R s t) {queues : Nat → List Req}
    (hQueues : ∀ i, ∀ req ∈ queues i, P req)
    {schedule : List Nat} {c : Config Req Op Res ε α σ}
    (hRun : run (step S) schedule (Config.init s queues) = some c)
    (hFinished : c.Finished) :
    ∃ order : List (Done Req ε α), order.Perm c.done ∧
      order.Pairwise (fun a b => ¬ b.stop < a.start) ∧
      order.map Done.outcome = (Simulation.outputs machine
        (order.map fun d => query d.req) t).1.map .ok ∧
      R c.shared (Simulation.outputs machine
        (order.map fun d => query d.req) t).2 := by
  have hLinear := linearizable_of_single hSingle s queues hRun hFinished
  obtain ⟨order, hPerm, hReal, hOut, hEnd⟩ := hLinear.explained
    (fun req t => (.ok (machine (query req) t).1, (machine (query req) t).2))
    hStep hInit (done_of_queues hQueues hRun)
  have hMachine := Simulation.outputs_map machine query (Except.ok (ε := ε))
    (order.map Done.req) t
  rw [List.map_map] at hMachine
  rw [hMachine] at hOut hEnd
  exact ⟨order, hPerm, hReal, hOut.symm, hEnd⟩

/-- A run of two clients is finished when both are idle. -/
theorem finished_of_idle {s : σ} {queues : Nat → List Req}
    {schedule : List Nat} {c : Config Req Op Res ε α σ}
    (hRun : run (step S) schedule (Config.init s queues) = some c)
    (hTwo : ∀ i ∈ schedule, i < 2) (hQueues : ∀ i, queues (i + 2) = [])
    (hIdle : ∀ i < 2, (run (step S) schedule (Config.init s queues)).map
      (fun c => ((c.clients i).queue.isEmpty, (c.clients i).running.isNone)) =
        some (true, true)) : c.Finished := by
  intro i
  by_cases hi : i < 2
  · have hClient := hIdle i hi
    rw [hRun, Option.map_some, Option.some.injEq, Prod.mk.injEq,
      List.isEmpty_iff, Option.isNone_iff_eq_none] at hClient
    obtain ⟨hQueue, hRunning⟩ := hClient
    cases hClients : c.clients i with
    | mk queue running =>
        rw [hClients] at hQueue hRunning
        rw [show queue = [] from hQueue, show running = none from hRunning]
  · rw [run_clients_of_not_mem hRun fun hMem => hi (hTwo i hMem)]
    obtain ⟨j, rfl⟩ : ∃ j, i = j + 2 := ⟨i - 2, by omega⟩
    simp only [Config.init, hQueues]

end Single

end Interleave

end GDPRuler.Verified
