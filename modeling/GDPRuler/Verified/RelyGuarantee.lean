import GDPRuler.Verified.Events

/-!
# Rely and guarantee

What the shared state of an interleaved run always satisfies need not be
proved interleaving by interleaving.  It is enough that each program, as long
as it is given answers of a certain kind (`rely`), performs operations of a
certain kind (`guar`) — and that in every state satisfying the invariant an
operation of that kind gives such an answer and keeps the invariant.

The same rule bounds the outcomes: what a program returns or raises under the
rely it returns or raises in every run.
-/

namespace GDPRuler.Verified

variable {Op : Type} {Res : Op → Type} {ε α : Type}

namespace Prog

/-- As long as its operations are answered as `rely` says, the program performs
operations in `guar` and ends with an outcome in `post`. -/
def Assures (rely : (op : Op) → Res op → Prop) (guar : Op → Prop)
    (post : Except ε α → Prop) : Prog Op Res ε α → Prop
  | ret a => post (.ok a)
  | fail e => post (.error e)
  | call op next => guar op ∧ ∀ r, rely op r → (next r).Assures rely guar post

section Assures

variable {rely : (op : Op) → Res op → Prop} {guar : Op → Prop}
  {post : Except ε α → Prop}

theorem Assures.mono {guar' : Op → Prop} {post' : Except ε α → Prop}
    {p : Prog Op Res ε α} (h : p.Assures rely guar post)
    (hGuar : ∀ op, guar op → guar' op) (hPost : ∀ o, post o → post' o) :
    p.Assures rely guar' post' := by
  induction p with
  | ret a => exact hPost _ h
  | fail e => exact hPost _ h
  | call op next ih =>
      exact ⟨hGuar op h.1, fun r hr => ih r (h.2 r hr)⟩

/-- A program that is restricted to some operations assures no more than
that. -/
theorem Only.assures {P : Op → Prop} {p : Prog Op Res ε α} (h : p.Only P) :
    p.Assures rely P fun _ => True := by
  induction p with
  | ret a => trivial
  | fail e => trivial
  | call op next ih => exact ⟨h.1, fun r _ => ih r (h.2 r)⟩

/-- Operations outside `P` need not be looked at. -/
theorem Assures.and_only {P : Op → Prop} {p : Prog Op Res ε α}
    (h : p.Assures rely guar post) (hOnly : p.Only P) :
    p.Assures rely (fun op => P op ∧ guar op) post := by
  induction p with
  | ret a => exact h
  | fail e => exact h
  | call op next ih =>
      exact ⟨⟨hOnly.1, h.1⟩, fun r hr => ih r (h.2 r hr) (hOnly.2 r)⟩

/-- With nothing asked of it every program assures what holds anyway. -/
theorem assures_of_forall (hPost : ∀ o, post o) (p : Prog Op Res ε α) :
    p.Assures rely (fun _ => True) post := by
  induction p with
  | ret a => exact hPost _
  | fail e => exact hPost _
  | call op next ih => exact ⟨trivial, fun r _ => ih r⟩

theorem Assures.of_ofExcept {outcome : Except ε α}
    (h : (ofExcept outcome : Prog Op Res ε α).Assures rely guar post) :
    post outcome := by
  cases outcome <;> exact h

/-- Alone, from a state in the invariant. -/
theorem Assures.run {σ : Type} {exec : (op : Op) → σ → Res op × σ}
    {I : σ → Prop} {p : Prog Op Res ε α} (h : p.Assures rely guar post)
    (hExec : ∀ op s, I s → guar op →
      rely op (exec op s).1 ∧ I (exec op s).2) {s : σ} (hInv : I s) :
    post (p.run exec s).1 ∧ I (p.run exec s).2 := by
  induction p generalizing s with
  | ret a => exact ⟨h, hInv⟩
  | fail e => exact ⟨h, hInv⟩
  | call op next ih =>
      obtain ⟨hAnswer, hNext⟩ := hExec op s hInv h.1
      exact ih _ (h.2 _ hAnswer) hNext

end Assures

end Prog

namespace Interleave

open GDPRuler.Verified.Transition

variable {Req σ : Type} (S : System Req Op Res ε α σ)
  (rely : Req → (op : Op) → Res op → Prop) (guar : Req → Op → Prop)
  (post : Req → Except ε α → Prop)

/-- The invariant of the rule: the requests still to come are in `P`, those in
flight assure what is asked of them, and the answered ones did. -/
structure Assured (P : Req → Prop) (I : σ → Prop)
    (c : Config Req Op Res ε α σ) : Prop where
  shared : I c.shared
  queued : ∀ i, ∀ req ∈ (c.clients i).queue, P req
  running : ∀ i t, (c.clients i).running = some t →
    t.prog.Assures (rely t.req) (guar t.req) (post t.req)
  done : ∀ d ∈ c.done, post d.req d.outcome

variable {S rely guar post}

/-- A step of client `i` touches no other client. -/
private theorem Assured.update {P : Req → Prop} {I : σ → Prop}
    {c c' : Config Req Op Res ε α σ} {i : Nat} {client : Client Req Op Res ε α}
    (h : Assured rely guar post P I c)
    (hClients : c'.clients = Function.update c.clients i client)
    (hShared : I c'.shared) (hQueue : ∀ req ∈ client.queue, P req)
    (hTask : ∀ t, client.running = some t →
      t.prog.Assures (rely t.req) (guar t.req) (post t.req))
    (hDone : ∀ d ∈ c'.done, post d.req d.outcome) :
    Assured rely guar post P I c' := by
  refine ⟨hShared, ?_, ?_, hDone⟩
  · rw [hClients]
    exact (Function.forall_update_iff c.clients (p := fun _ client =>
      ∀ req ∈ client.queue, P req)).mpr ⟨hQueue, fun j _ => h.queued j⟩
  · rw [hClients]
    exact (Function.forall_update_iff c.clients (p := fun _ client =>
      ∀ t, client.running = some t →
        t.prog.Assures (rely t.req) (guar t.req) (post t.req))).mpr
      ⟨hTask, fun j _ => h.running j⟩

/-- **The step lemma** of the rule. -/
theorem Assured.step {P : Req → Prop} {I : σ → Prop}
    (hExec : ∀ req op s, I s → guar req op →
      rely req op (S.exec req op s).1 ∧ I (S.exec req op s).2)
    (hBody : ∀ req, P req →
      (S.body req).Assures (rely req) (guar req) (post req))
    {c c' : Config Req Op Res ε α σ} {i : Nat}
    (h : Assured rely guar post P I c) (hStep : step S c i = some c') :
    Assured rely guar post P I c' := by
  rcases step_cases hStep with ⟨req, rest, -, hQueue, rfl⟩ |
    ⟨t, outcome, hRunning, hProg, rfl⟩ | ⟨t, op, next, hRunning, hProg, rfl⟩
  · have hQueued := h.queued i
    rw [hQueue, List.forall_mem_cons] at hQueued
    refine h.update rfl h.shared hQueued.2 ?_ h.done
    intro t hNew
    cases hNew
    exact hBody req hQueued.1
  · have hTask := h.running i t hRunning
    rw [hProg] at hTask
    refine h.update rfl h.shared (h.queued i) (fun t' hNew => nomatch hNew) ?_
    refine List.forall_mem_append.mpr ⟨h.done, ?_⟩
    rw [List.forall_mem_singleton]
    exact hTask.of_ofExcept
  · have hTask := h.running i t hRunning
    rw [hProg] at hTask
    obtain ⟨hAnswer, hShared⟩ := hExec t.req op c.shared h.shared hTask.1
    refine h.update rfl hShared (h.queued i) ?_ h.done
    intro t' hNew
    cases hNew
    exact hTask.2 _ hAnswer

variable (rely guar post) in
/-- The invariant of the rule holds in every interleaving. -/
theorem assured_of_reaches {P : Req → Prop} {I : σ → Prop}
    (hExec : ∀ req op s, I s → guar req op →
      rely req op (S.exec req op s).1 ∧ I (S.exec req op s).2)
    (hBody : ∀ req, P req →
      (S.body req).Assures (rely req) (guar req) (post req))
    {s : σ} (hInit : I s) {queues : Nat → List Req}
    (hQueues : ∀ i, ∀ req ∈ queues i, P req) {c : Config Req Op Res ε α σ}
    (hReaches : Reaches (step S) (Config.init s queues) c) :
    Assured rely guar post P I c := by
  have hFirst : Assured rely guar post P I
      (Config.init s queues : Config Req Op Res ε α σ) :=
    { shared := hInit
      queued := hQueues
      running := fun i t hRunning => nomatch hRunning
      done := fun d hMem => nomatch hMem }
  exact Reaches.invariant
    (fun c i c' h hStep => Assured.step hExec hBody h hStep) hFirst hReaches

variable (rely guar post) in
/-- **The rely-guarantee rule.** If the operations programs guarantee keep the
invariant and are answered as the programs rely on, the invariant holds in
every interleaving, and so do the postconditions of the answered requests. -/
theorem invariant_of_assures {P : Req → Prop} {I : σ → Prop}
    (hExec : ∀ req op s, I s → guar req op →
      rely req op (S.exec req op s).1 ∧ I (S.exec req op s).2)
    (hBody : ∀ req, P req →
      (S.body req).Assures (rely req) (guar req) (post req))
    {s : σ} (hInit : I s) {queues : Nat → List Req}
    (hQueues : ∀ i, ∀ req ∈ queues i, P req) {schedule : List Nat}
    {c : Config Req Op Res ε α σ}
    (hRun : run (step S) schedule (Config.init s queues) = some c) :
    I c.shared ∧ ∀ d ∈ c.done, post d.req d.outcome := by
  have hInv := assured_of_reaches rely guar post hExec hBody hInit hQueues
    ⟨schedule, hRun⟩
  exact ⟨hInv.shared, hInv.done⟩

/-- What is answered was asked. -/
theorem done_of_queues {P : Req → Prop} {s : σ} {queues : Nat → List Req}
    (hQueues : ∀ i, ∀ req ∈ queues i, P req) {schedule : List Nat}
    {c : Config Req Op Res ε α σ}
    (hRun : run (step S) schedule (Config.init s queues) = some c) :
    ∀ d ∈ c.done, P d.req :=
  (invariant_of_assures (fun _ _ _ => True) (fun _ _ => True)
    (fun req _ => P req) (I := fun _ => True)
    (fun _ _ _ _ _ => ⟨trivial, trivial⟩)
    (fun _ hReq => Prog.assures_of_forall (fun _ => hReq) _) trivial hQueues
    hRun).2

end Interleave

end GDPRuler.Verified
