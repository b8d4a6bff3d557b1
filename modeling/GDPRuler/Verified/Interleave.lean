import Mathlib.Data.List.Perm.Basic
import Mathlib.Data.List.Nodup
import Mathlib.Logic.Function.Basic
import GDPRuler.Verified.Prog
import GDPRuler.Verified.Transition

/-!
# Interleaved programs and linearizability

Any number of clients work through their own queues of requests.  A request
runs as a `Prog`, and the operations of different clients interleave freely
on one shared state: starting a request, performing one operation and
answering are separate steps.  The step counter stamps every request with the
moment it started and the moment it was answered, so step order is real-time
order.

`Linearizable` compares a finished run with executing the same requests one
after another: the same shared state and the same outcomes, in an order that
never contradicts real time.

## The commit-point theorem

`linearizable_of_commits` reduces linearizability to one condition on single
steps.  A program has *settled* when its outcome no longer depends on the
shared state and it will no longer change it (`Settles`).  If every step that
settles a request — the commit — does what running the whole request at that
moment would do, and no step before it changes the shared state, then the
commit order is a linearization.

The proof keeps the commit order as a list of slots (`Slot`); a slot is
appended when its request commits and filled in when it is answered.
-/

namespace GDPRuler.Verified.Interleave

open GDPRuler.Verified.Transition

/-- What the requests of a system do: the program of a request, and how the
shared state answers its operations. -/
structure System (Req Op : Type) (Res : Op → Type) (ε α σ : Type) where
  body : Req → Prog Op Res ε α
  exec : Req → (op : Op) → σ → Res op × σ

/-- A request in flight: when it started, what remains of its program, and
the answers it has seen. -/
structure Task (Req Op : Type) (Res : Op → Type) (ε α : Type) where
  req : Req
  start : Nat
  prog : Prog Op Res ε α
  seen : List (Sigma Res)

/-- A client: the requests still to be sent and the one in flight. -/
structure Client (Req Op : Type) (Res : Op → Type) (ε α : Type) where
  queue : List Req
  running : Option (Task Req Op Res ε α)

/-- An answered request with its lifetime. -/
structure Done (Req ε α : Type) where
  req : Req
  outcome : Except ε α
  start : Nat
  stop : Nat
  deriving DecidableEq

structure Config (Req Op : Type) (Res : Op → Type) (ε α σ : Type) where
  shared : σ
  clients : Nat → Client Req Op Res ε α
  done : List (Done Req ε α)
  time : Nat

variable {Req Op : Type} {Res : Op → Type} {ε α σ : Type}

/-! ## Steps -/

/-- All clients idle, with the given queues. -/
def Config.init (s : σ) (queues : Nat → List Req) : Config Req Op Res ε α σ :=
  { shared := s
    clients := fun i => ⟨queues i, none⟩
    done := []
    time := 0 }

/-- Client `i` sends its next request. -/
def Config.begin (S : System Req Op Res ε α σ) (c : Config Req Op Res ε α σ)
    (i : Nat) (r : Req) (rest : List Req) : Config Req Op Res ε α σ :=
  { c with
    clients := Function.update c.clients i
      ⟨rest, some ⟨r, c.time, S.body r, []⟩⟩
    time := c.time + 1 }

/-- Client `i` receives the outcome of its request. -/
def Config.answer (c : Config Req Op Res ε α σ) (i : Nat)
    (t : Task Req Op Res ε α) (outcome : Except ε α) :
    Config Req Op Res ε α σ :=
  { c with
    clients := Function.update c.clients i ⟨(c.clients i).queue, none⟩
    done := c.done ++ [⟨t.req, outcome, t.start, c.time⟩]
    time := c.time + 1 }

/-- The request of client `i` performs one operation on the shared state. -/
def Config.advance (S : System Req Op Res ε α σ)
    (c : Config Req Op Res ε α σ) (i : Nat) (t : Task Req Op Res ε α)
    (op : Op) (next : Res op → Prog Op Res ε α) : Config Req Op Res ε α σ :=
  { c with
    shared := (S.exec t.req op c.shared).2
    clients := Function.update c.clients i
      ⟨(c.clients i).queue,
        some ⟨t.req, t.start, next (S.exec t.req op c.shared).1,
          t.seen ++ [⟨op, (S.exec t.req op c.shared).1⟩]⟩⟩
    time := c.time + 1 }

/-- One step of client `i`, if it has anything left to do. -/
def step (S : System Req Op Res ε α σ) (c : Config Req Op Res ε α σ)
    (i : Nat) : Option (Config Req Op Res ε α σ) :=
  match (c.clients i).running with
  | none =>
      match (c.clients i).queue with
      | [] => none
      | r :: rest => some (c.begin S i r rest)
  | some t =>
      match t.prog with
      | .ret a => some (c.answer i t (.ok a))
      | .fail e => some (c.answer i t (.error e))
      | .call op next => some (c.advance S i t op next)

/-- A step changes its own client only. -/
theorem step_clients {S : System Req Op Res ε α σ}
    {c c' : Config Req Op Res ε α σ} {i : Nat} (h : step S c i = some c') :
    ∃ client, c'.clients = Function.update c.clients i client := by
  unfold step at h
  split at h
  · split at h
    · cases h
    · cases h
      exact ⟨_, rfl⟩
  · split at h <;> cases h <;> exact ⟨_, rfl⟩

theorem run_clients_of_not_mem {S : System Req Op Res ε α σ}
    {schedule : List Nat} {c c' : Config Req Op Res ε α σ}
    (h : run (step S) schedule c = some c') {i : Nat} (hi : i ∉ schedule) :
    c'.clients i = c.clients i := by
  induction schedule generalizing c with
  | nil => rw [Option.some.inj h]
  | cons j schedule ih =>
      simp only [List.mem_cons, not_or] at hi
      rw [run_cons] at h
      cases hStep : step S c j with
      | none =>
          rw [hStep] at h
          cases h
      | some next =>
          rw [hStep] at h
          obtain ⟨client, hClients⟩ := step_clients hStep
          rw [ih h hi.2, hClients, Function.update_of_ne hi.1]

/-- Every request of every client was answered. -/
def Config.Finished (c : Config Req Op Res ε α σ) : Prop :=
  ∀ i, c.clients i = ⟨[], none⟩

/-! ## Linearizability -/

/-- The requests executed one after another, each without interruption. -/
def System.sequential (S : System Req Op Res ε α σ) :
    List Req → σ → List (Except ε α) × σ
  | [], s => ([], s)
  | r :: rs, s =>
      ((((S.body r).run (S.exec r) s).1) ::
          (S.sequential rs ((S.body r).run (S.exec r) s).2).1,
        (S.sequential rs ((S.body r).run (S.exec r) s).2).2)

theorem System.sequential_append (S : System Req Op Res ε α σ)
    (rs rs' : List Req) (s : σ) :
    S.sequential (rs ++ rs') s =
      ((S.sequential rs s).1 ++ (S.sequential rs' (S.sequential rs s).2).1,
        (S.sequential rs' (S.sequential rs s).2).2) := by
  induction rs generalizing s with
  | nil => rfl
  | cons r rs ih => simp [System.sequential, ih]

/--
Some order of the answered requests explains the run: executed one after
another from `s` in that order they give the same outcomes and the same
shared state, and a request answered before another started comes first.
-/
def Linearizable (S : System Req Op Res ε α σ) (s : σ)
    (c : Config Req Op Res ε α σ) : Prop :=
  ∃ order : List (Done Req ε α), order.Perm c.done ∧
    order.Pairwise (fun a b => ¬ b.stop < a.start) ∧
    S.sequential (order.map Done.req) s = (order.map Done.outcome, c.shared)

/-! ## Settled programs -/

/-- The outcome `a` is fixed and the shared state will not be changed any
more, whatever the other clients do. -/
inductive Settles (exec : (op : Op) → σ → Res op × σ) :
    Prog Op Res ε α → Except ε α → Prop
  | ret (a : α) : Settles exec (.ret a) (.ok a)
  | fail (e : ε) : Settles exec (.fail e) (.error e)
  | call (op : Op) (next : Res op → Prog Op Res ε α) (a : Except ε α)
      (hKeep : ∀ s, (exec op s).2 = s)
      (hNext : ∀ s, Settles exec (next (exec op s).1) a) :
      Settles exec (.call op next) a

theorem Settles.run {exec : (op : Op) → σ → Res op × σ}
    {p : Prog Op Res ε α} {a : Except ε α} (h : Settles exec p a) (s : σ) :
    p.run exec s = (a, s) := by
  induction h generalizing s with
  | ret a => rfl
  | fail e => rfl
  | call op next a hKeep _ ih => rw [Prog.run_call, ih, hKeep]

theorem Settles.unique {exec : (op : Op) → σ → Res op × σ}
    {p : Prog Op Res ε α} {a b : Except ε α} (ha : Settles exec p a)
    (hb : Settles exec p b) (s : σ) : a = b := by
  have h := ha.run s
  rw [hb.run s] at h
  exact (Prod.mk.inj h).1.symm

/--
The step of client `i` keeps to its commit point: while its request is
unsettled, an operation either changes nothing and leaves it unsettled, or
settles it with the outcome and the effect that running the whole request in
the present state has.
-/
def Commits (S : System Req Op Res ε α σ) (c : Config Req Op Res ε α σ)
    (i : Nat) : Prop :=
  ∀ t op next, (c.clients i).running = some t → t.prog = .call op next →
    (∃ a, Settles (S.exec t.req) t.prog a) ∨
    ((∀ a, ¬ Settles (S.exec t.req) (next (S.exec t.req op c.shared).1) a) ∧
      (S.exec t.req op c.shared).2 = c.shared) ∨
    ∃ a, Settles (S.exec t.req) (next (S.exec t.req op c.shared).1) a ∧
      (S.body t.req).run (S.exec t.req) c.shared =
        (a, (S.exec t.req op c.shared).2)

/-! ## The commit order -/

/-- A place in the commit order: an answered request, or the settled request
of client `i` that is still to be answered. -/
inductive Slot (Req ε α : Type)
  | answered (d : Done Req ε α)
  | settled (i : Nat) (req : Req) (outcome : Except ε α) (start : Nat)

namespace Slot

def req : Slot Req ε α → Req
  | answered d => d.req
  | settled _ r _ _ => r

def outcome : Slot Req ε α → Except ε α
  | answered d => d.outcome
  | settled _ _ a _ => a

def start : Slot Req ε α → Nat
  | answered d => d.start
  | settled _ _ _ st => st

def done? : Slot Req ε α → Option (Done Req ε α)
  | answered d => some d
  | settled _ _ _ _ => none

def owner? : Slot Req ε α → Option Nat
  | answered _ => none
  | settled i _ _ _ => some i

/-- `a` may stand before `b` in real time. -/
def MayPrecede (a b : Slot Req ε α) : Prop :=
  ∀ d, b = answered d → ¬ d.stop < a.start

end Slot

theorem mem_owners {slots : List (Slot Req ε α)} {i : Nat} :
    i ∈ slots.filterMap Slot.owner? ↔
      ∃ r a st, Slot.settled i r a st ∈ slots := by
  rw [List.mem_filterMap]
  constructor
  · rintro ⟨slot, hMem, hOwner⟩
    cases slot with
    | answered d => cases hOwner
    | settled j r a st =>
        obtain rfl : j = i := Option.some.inj hOwner
        exact ⟨r, a, st, hMem⟩
  · rintro ⟨r, a, st, hMem⟩
    exact ⟨_, hMem, rfl⟩

/-- The slots list the requests that have settled so far, in the order in
which they did, and explain the shared state. -/
structure CommitOrder (S : System Req Op Res ε α σ) (s : σ)
    (c : Config Req Op Res ε α σ) (slots : List (Slot Req ε α)) : Prop where
  sequential : S.sequential (slots.map Slot.req) s =
    (slots.map Slot.outcome, c.shared)
  answered : (slots.filterMap Slot.done?).Perm c.done
  owners : (slots.filterMap Slot.owner?).Nodup
  sound : ∀ i r a st, Slot.settled i r a st ∈ slots →
    ∃ t, (c.clients i).running = some t ∧ t.req = r ∧ t.start = st ∧
      Settles (S.exec t.req) t.prog a
  complete : ∀ i t a, (c.clients i).running = some t →
    Settles (S.exec t.req) t.prog a →
    Slot.settled i t.req a t.start ∈ slots
  taskBefore : ∀ i t, (c.clients i).running = some t → t.start < c.time
  slotBefore : ∀ slot ∈ slots, slot.start < c.time
  realTime : slots.Pairwise Slot.MayPrecede

theorem commitOrder_init (S : System Req Op Res ε α σ) (s : σ)
    (queues : Nat → List Req) :
    CommitOrder S s (Config.init s queues) [] := by
  refine
    { sequential := rfl
      answered := List.Perm.refl _
      owners := List.nodup_nil
      sound := ?_
      complete := ?_
      taskBefore := ?_
      slotBefore := ?_
      realTime := List.Pairwise.nil }
  · intro i r a st hMem
    cases hMem
  · intro i t a hRunning
    cases hRunning
  · intro i t hRunning
    cases hRunning
  · intro slot hMem
    cases hMem

section Preservation

variable {S : System Req Op Res ε α σ} {s : σ}
  {c c' : Config Req Op Res ε α σ} {slots : List (Slot Req ε α)} {i : Nat}
  {queue : List Req} {t : Task Req Op Res ε α}

/-- After a step of client `i`, a request in flight is its own or was in
flight before. -/
private theorem running_update
    (hClients : c'.clients = Function.update c.clients i ⟨queue, some t⟩)
    {j : Nat} {t' : Task Req Op Res ε α}
    (hRunning : (c'.clients j).running = some t') :
    (j = i ∧ t' = t) ∨ (j ≠ i ∧ (c.clients j).running = some t') := by
  rw [hClients] at hRunning
  by_cases hj : j = i
  · rw [hj, Function.update_self] at hRunning
    exact .inl ⟨hj, (Option.some.inj hRunning).symm⟩
  · rw [Function.update_of_ne hj] at hRunning
    exact .inr ⟨hj, hRunning⟩

private theorem CommitOrder.taskBefore_update (h : CommitOrder S s c slots)
    (hTime : c'.time = c.time + 1)
    (hClients : c'.clients = Function.update c.clients i ⟨queue, some t⟩)
    (hStart : t.start < c'.time) (j : Nat) (t' : Task Req Op Res ε α)
    (hRunning : (c'.clients j).running = some t') : t'.start < c'.time := by
  rcases running_update hClients hRunning with ⟨_, rfl⟩ | ⟨_, hOld⟩
  · exact hStart
  · have := h.taskBefore j t' hOld
    omega

/-- A step of client `i` that settles nothing new keeps the order. -/
theorem CommitOrder.keep (h : CommitOrder S s c slots)
    (hShared : c'.shared = c.shared) (hDone : c'.done = c.done)
    (hTime : c'.time = c.time + 1)
    (hClients : c'.clients = Function.update c.clients i ⟨queue, some t⟩)
    (hStart : t.start < c'.time)
    (hSound : ∀ r a st, Slot.settled i r a st ∈ slots →
      t.req = r ∧ t.start = st ∧ Settles (S.exec t.req) t.prog a)
    (hComplete : ∀ a, Settles (S.exec t.req) t.prog a →
      Slot.settled i t.req a t.start ∈ slots) :
    CommitOrder S s c' slots := by
  refine
    { sequential := by rw [h.sequential, hShared]
      answered := by rw [hDone]; exact h.answered
      owners := h.owners
      sound := ?_
      complete := ?_
      taskBefore := h.taskBefore_update hTime hClients hStart
      slotBefore := ?_
      realTime := h.realTime }
  · intro j r a st hMem
    by_cases hj : j = i
    · subst hj
      exact ⟨t, by rw [hClients, Function.update_self], hSound r a st hMem⟩
    · rw [hClients, Function.update_of_ne hj]
      exact h.sound j r a st hMem
  · intro j t' a hRunning hSettles
    rcases running_update hClients hRunning with ⟨rfl, rfl⟩ | ⟨_, hOld⟩
    · exact hComplete a hSettles
    · exact h.complete j t' a hOld hSettles
  · intro slot hMem
    have := h.slotBefore slot hMem
    omega

/-- A step that settles the request of client `i` appends its slot. -/
theorem CommitOrder.commit (h : CommitOrder S s c slots)
    {a : Except ε α} (hFree : i ∉ slots.filterMap Slot.owner?)
    (hRun : (S.body t.req).run (S.exec t.req) c.shared = (a, c'.shared))
    (hDone : c'.done = c.done) (hTime : c'.time = c.time + 1)
    (hClients : c'.clients = Function.update c.clients i ⟨queue, some t⟩)
    (hStart : t.start < c'.time)
    (hSettles : Settles (S.exec t.req) t.prog a) :
    CommitOrder S s c' (slots ++ [Slot.settled i t.req a t.start]) := by
  refine
    { sequential := ?_
      answered := by
        simpa [List.filterMap_cons, Slot.done?, hDone] using h.answered
      owners := ?_
      sound := ?_
      complete := ?_
      taskBefore := h.taskBefore_update hTime hClients hStart
      slotBefore := ?_
      realTime := ?_ }
  · rw [List.map_append, S.sequential_append, h.sequential]
    simp [System.sequential, Slot.req, Slot.outcome, hRun]
  · rw [List.filterMap_append]
    refine List.nodup_append.mpr ⟨h.owners, by simp [Slot.owner?], ?_⟩
    intro j hj k hk hjk
    obtain rfl : k = i := by simpa [Slot.owner?] using hk
    exact hFree (hjk ▸ hj)
  · intro j r b st hMem
    rw [hClients]
    cases List.mem_append.mp hMem with
    | inl hOld =>
        have hj : j ≠ i := by
          rintro rfl
          exact hFree (mem_owners.mpr ⟨r, b, st, hOld⟩)
        rw [Function.update_of_ne hj]
        exact h.sound j r b st hOld
    | inr hNew =>
        simp only [List.mem_singleton, Slot.settled.injEq] at hNew
        obtain ⟨rfl, rfl, rfl, rfl⟩ := hNew
        rw [Function.update_self]
        exact ⟨t, rfl, rfl, rfl, hSettles⟩
  · intro j t' b hRunning hSettles'
    rcases running_update hClients hRunning with ⟨rfl, rfl⟩ | ⟨_, hOld⟩
    · have hab : b = a := hSettles'.unique hSettles c.shared
      simp [hab]
    · exact List.mem_append_left _ (h.complete j t' b hOld hSettles')
  · intro slot hMem
    cases List.mem_append.mp hMem with
    | inl hOld =>
        have := h.slotBefore slot hOld
        omega
    | inr hNew =>
        obtain rfl := List.mem_singleton.mp hNew
        exact hStart
  · refine List.pairwise_append.mpr
      ⟨h.realTime, List.pairwise_singleton _ _, ?_⟩
    intro slot _ last hLast d hd
    obtain rfl := List.mem_singleton.mp hLast
    cases hd

/-- The requests still to be answered when the slot of client `i` is filled
in are those of the others. -/
private theorem settled_of_answered {before after : List (Slot Req ε α)}
    {d : Done Req ε α} {r₀ : Req} {a₀ : Except ε α} {st₀ : Nat}
    (hOwners : (before.filterMap Slot.owner? ++
      i :: after.filterMap Slot.owner?).Nodup)
    {j : Nat} {r : Req} {b : Except ε α} {st : Nat}
    (hMem : Slot.settled j r b st ∈ before ++ Slot.answered d :: after) :
    j ≠ i ∧ Slot.settled j r b st ∈
      before ++ Slot.settled i r₀ a₀ st₀ :: after := by
  have hRest : Slot.settled j r b st ∈ before ++ after := by
    simpa using hMem
  constructor
  · rintro rfl
    have hIn : j ∈ before.filterMap Slot.owner? ++
        after.filterMap Slot.owner? := by
      rw [← List.filterMap_append]
      exact mem_owners.mpr ⟨r, b, st, hRest⟩
    exact (List.nodup_middle.mp hOwners).notMem hIn
  · simp only [List.mem_append, List.mem_cons] at hRest ⊢
    rcases hRest with hBefore | hAfter
    · exact Or.inl hBefore
    · exact Or.inr (Or.inr hAfter)

/-- After an answer to client `i` the others are in flight as before. -/
private theorem running_answer {a : Except ε α} {j : Nat}
    {t' : Task Req Op Res ε α}
    (hRunning : ((c.answer i t a).clients j).running = some t') :
    j ≠ i ∧ (c.clients j).running = some t' := by
  by_cases hj : j = i
  · subst hj
    simp [Config.answer] at hRunning
  · simp only [Config.answer, Function.update_of_ne hj] at hRunning
    exact ⟨hj, hRunning⟩

/-- A slot may be replaced by one with the same start. -/
private theorem start_lt_of_fill {before after : List (Slot Req ε α)}
    {old new : Slot Req ε α} {n : Nat}
    (h : ∀ slot ∈ before ++ old :: after, slot.start < n)
    (hStart : new.start = old.start) :
    ∀ slot ∈ before ++ new :: after, slot.start < n := by
  intro slot hMem
  simp only [List.mem_append, List.mem_cons] at hMem
  rcases hMem with hBefore | rfl | hAfter
  · exact h slot (by simp [hBefore])
  · rw [hStart]
    exact h old (by simp)
  · exact h slot (by simp [hAfter])

/-- A slot is filled in when every slot before it has started. -/
private theorem realTime_fill {before after : List (Slot Req ε α)}
    {old : Slot Req ε α} {d : Done Req ε α}
    (h : (before ++ old :: after).Pairwise Slot.MayPrecede)
    (hStart : d.start = old.start)
    (hStop : ∀ slot ∈ before, slot.start ≤ d.stop) :
    (before ++ Slot.answered d :: after).Pairwise Slot.MayPrecede := by
  obtain ⟨hBefore, hTail, hCross⟩ := List.pairwise_append.mp h
  obtain ⟨hHead, hAfter⟩ := List.pairwise_cons.mp hTail
  refine List.pairwise_append.mpr
    ⟨hBefore, List.pairwise_cons.mpr ⟨?_, hAfter⟩, ?_⟩
  · intro y hy d' hd'
    show ¬ d'.stop < d.start
    rw [hStart]
    exact hHead y hy d' hd'
  · intro x hx y hy
    rcases List.mem_cons.mp hy with rfl | hyAfter
    · rintro d' hd'
      obtain rfl : d = d' := Slot.answered.inj hd'
      have := hStop x hx
      omega
    · exact hCross x hx y (by simp [hyAfter])

/-- Answering the settled request of client `i` fills its slot in. -/
theorem CommitOrder.answer (h : CommitOrder S s c slots) {a : Except ε α}
    (hRunning : (c.clients i).running = some t)
    (hSettles : Settles (S.exec t.req) t.prog a) :
    ∃ slots', CommitOrder S s (c.answer i t a) slots' := by
  obtain ⟨before, after, rfl⟩ :=
    List.append_of_mem (h.complete i t a hRunning hSettles)
  let d : Done Req ε α := ⟨t.req, a, t.start, c.time⟩
  have hOwners : (before.filterMap Slot.owner? ++
      i :: after.filterMap Slot.owner?).Nodup := by
    simpa [Slot.owner?] using h.owners
  have hOther : ∀ j r b st,
      Slot.settled j r b st ∈ before ++ Slot.answered d :: after →
      j ≠ i ∧ Slot.settled j r b st ∈
        before ++ Slot.settled i t.req a t.start :: after :=
    fun j r b st hMem => settled_of_answered hOwners hMem
  refine ⟨before ++ Slot.answered d :: after, ?_⟩
  refine
    { sequential := ?_
      answered := ?_
      owners := ?_
      sound := ?_
      complete := ?_
      taskBefore := ?_
      slotBefore := ?_
      realTime := ?_ }
  · have hSeq := h.sequential
    simpa [Slot.req, Slot.outcome, d, Config.answer] using hSeq
  · have hDone : (before.filterMap Slot.done? ++
        after.filterMap Slot.done?).Perm c.done := by
      simpa [List.filterMap_cons, Slot.done?] using h.answered
    have hMiddle : (before.filterMap Slot.done? ++
        d :: after.filterMap Slot.done?).Perm (c.done ++ [d]) :=
      List.perm_middle.trans
        ((hDone.cons d).trans (List.perm_append_singleton d c.done).symm)
    simpa [List.filterMap_cons, Slot.done?, Config.answer, d] using hMiddle
  · have hDrop := (List.nodup_middle.mp hOwners).of_cons
    simpa [List.filterMap_cons, Slot.owner?] using hDrop
  · intro j r b st hMem
    obtain ⟨hj, hOld⟩ := hOther j r b st hMem
    simp only [Config.answer, Function.update_of_ne hj]
    exact h.sound j r b st hOld
  · intro j t' b hRunning' hSettles'
    obtain ⟨hj, hStill⟩ := running_answer hRunning'
    have hOld := h.complete j t' b hStill hSettles'
    simp only [List.mem_append, List.mem_cons, Slot.settled.injEq, hj,
      false_and, false_or] at hOld
    simpa using hOld
  · intro j t' hRunning'
    exact Nat.lt_succ_of_lt
      (h.taskBefore j t' (running_answer hRunning').2)
  · intro slot hMem
    refine Nat.lt_succ_of_lt (start_lt_of_fill h.slotBefore ?_ slot hMem)
    rfl
  · -- the new stamp is later than every start so far
    refine realTime_fill h.realTime rfl fun slot hMem => ?_
    exact Nat.le_of_lt (h.slotBefore slot (by simp [hMem]))

/-- The slot of the request in flight. -/
private theorem CommitOrder.slot (h : CommitOrder S s c slots)
    (hRunning : (c.clients i).running = some t) {r : Req} {a : Except ε α}
    {st : Nat} (hSlot : Slot.settled i r a st ∈ slots) :
    t.req = r ∧ t.start = st ∧ Settles (S.exec t.req) t.prog a := by
  obtain ⟨t', ht', hReq, hStart, hSettles⟩ := h.sound i r a st hSlot
  rw [hRunning] at ht'
  obtain rfl : t = t' := Option.some.inj ht'
  exact ⟨hReq, hStart, hSettles⟩

/-- Sending a request; one that is settled from the start commits here. -/
theorem CommitOrder.begin (h : CommitOrder S s c slots) {r : Req}
    {rest : List Req} (hIdle : (c.clients i).running = none) :
    ∃ slots', CommitOrder S s (c.begin S i r rest) slots' := by
  have hFree : i ∉ slots.filterMap Slot.owner? := by
    intro hMem
    obtain ⟨r, a, st, hSlot⟩ := mem_owners.mp hMem
    obtain ⟨t, ht, _⟩ := h.sound i r a st hSlot
    rw [hIdle] at ht
    cases ht
  by_cases hSettled : ∃ a, Settles (S.exec r) (S.body r) a
  · obtain ⟨a, ha⟩ := hSettled
    exact ⟨_, h.commit hFree (ha.run c.shared) rfl rfl rfl
      (Nat.lt_succ_self _) ha⟩
  · refine ⟨slots, h.keep rfl rfl rfl rfl (Nat.lt_succ_self _) ?_ ?_⟩
    · intro r' a st hMem
      exact absurd (mem_owners.mpr ⟨r', a, st, hMem⟩) hFree
    · intro a ha
      exact absurd ⟨a, ha⟩ hSettled

/-- An operation of a settled request changes nothing. -/
theorem CommitOrder.advance_settled (h : CommitOrder S s c slots)
    (hRunning : (c.clients i).running = some t) {op : Op}
    {next : Res op → Prog Op Res ε α} (hProg : t.prog = .call op next)
    {a : Except ε α} (ha : Settles (S.exec t.req) t.prog a) :
    CommitOrder S s (c.advance S i t op next) slots := by
  have hMem := h.complete i t a hRunning ha
  have hLater : t.start < c.time + 1 :=
    Nat.lt_succ_of_lt (h.taskBefore i t hRunning)
  have hAll := ha
  rw [hProg] at ha
  cases ha with
  | call _ _ _ hKeep hNext =>
      refine h.keep (hKeep c.shared) rfl rfl rfl hLater ?_ ?_
      · intro r b st hSlot
        obtain ⟨rfl, rfl, hb⟩ := h.slot hRunning hSlot
        have hab : b = a := hb.unique hAll c.shared
        exact ⟨rfl, rfl, hab ▸ hNext c.shared⟩
      · intro b hb
        have hab : b = a := hb.unique (hNext c.shared) c.shared
        exact hab ▸ hMem

/-- An operation of an unsettled request at or before its commit point. -/
theorem CommitOrder.advance (h : CommitOrder S s c slots)
    (hCommits : Commits S c i) (hRunning : (c.clients i).running = some t)
    {op : Op} {next : Res op → Prog Op Res ε α}
    (hProg : t.prog = .call op next)
    (hUnsettled : ¬ ∃ a, Settles (S.exec t.req) t.prog a) :
    ∃ slots', CommitOrder S s (c.advance S i t op next) slots' := by
  have hLater : t.start < c.time + 1 :=
    Nat.lt_succ_of_lt (h.taskBefore i t hRunning)
  have hNone : ∀ r a st, Slot.settled i r a st ∉ slots := fun r a st hSlot =>
    hUnsettled ⟨a, (h.slot hRunning hSlot).2.2⟩
  rcases hCommits t op next hRunning hProg with
    hYes | ⟨hStill, hKeep⟩ | ⟨a, ha, hRun⟩
  · exact absurd hYes hUnsettled
  · refine ⟨slots, h.keep hKeep rfl rfl rfl hLater ?_ ?_⟩
    · intro r a st hSlot
      exact absurd hSlot (hNone r a st)
    · intro a ha
      exact absurd ha (hStill a)
  · let t' : Task Req Op Res ε α :=
      ⟨t.req, t.start, next (S.exec t.req op c.shared).1,
        t.seen ++ [⟨op, (S.exec t.req op c.shared).1⟩]⟩
    refine ⟨_, h.commit (t := t') ?_ hRun rfl rfl rfl hLater ha⟩
    intro hMem
    obtain ⟨r, b, st, hSlot⟩ := mem_owners.mp hMem
    exact hNone r b st hSlot

/-- **The step lemma**: a step that keeps to its commit point extends some
commit order to the next configuration. -/
theorem CommitOrder.step (h : CommitOrder S s c slots)
    (hCommits : Commits S c i) (hStep : step S c i = some c') :
    ∃ slots', CommitOrder S s c' slots' := by
  cases hRunning : (c.clients i).running with
  | none =>
      cases hQueue : (c.clients i).queue with
      | nil => simp [Interleave.step, hRunning, hQueue] at hStep
      | cons r rest =>
          simp only [Interleave.step, hRunning, hQueue,
            Option.some.injEq] at hStep
          exact hStep ▸ h.begin hRunning
  | some t =>
      cases hProg : t.prog with
      | ret a =>
          simp only [Interleave.step, hRunning, hProg,
            Option.some.injEq] at hStep
          exact hStep ▸ h.answer hRunning (hProg ▸ Settles.ret a)
      | fail e =>
          simp only [Interleave.step, hRunning, hProg,
            Option.some.injEq] at hStep
          exact hStep ▸ h.answer hRunning (hProg ▸ Settles.fail e)
      | call op next =>
          simp only [Interleave.step, hRunning, hProg,
            Option.some.injEq] at hStep
          subst hStep
          by_cases hSettled : ∃ a, Settles (S.exec t.req) t.prog a
          · obtain ⟨a, ha⟩ := hSettled
            exact ⟨slots, h.advance_settled hRunning hProg ha⟩
          · exact h.advance hCommits hRunning hProg hSettled

end Preservation

private theorem answered_of_finished {S : System Req Op Res ε α σ} {s : σ}
    {c : Config Req Op Res ε α σ} {slots : List (Slot Req ε α)}
    (h : CommitOrder S s c slots) (hFinished : c.Finished) :
    slots = (slots.filterMap Slot.done?).map Slot.answered := by
  have hAll : ∀ slot ∈ slots, ∃ d, slot = Slot.answered d := by
    intro slot hMem
    cases slot with
    | answered d => exact ⟨d, rfl⟩
    | settled i r a st =>
        obtain ⟨t, ht, _⟩ := h.sound i r a st hMem
        rw [hFinished i] at ht
        cases ht
  clear h
  induction slots with
  | nil => rfl
  | cons slot slots ih =>
      obtain ⟨d, rfl⟩ := hAll slot (by simp)
      have hRest := ih fun x hx => hAll x (by simp [hx])
      simp only [List.filterMap_cons, Slot.done?, List.map_cons]
      rw [← hRest]

/-- When all requests are answered, a commit order is a linearization. -/
theorem CommitOrder.linearizable {S : System Req Op Res ε α σ} {s : σ}
    {c : Config Req Op Res ε α σ} {slots : List (Slot Req ε α)}
    (h : CommitOrder S s c slots) (hFinished : c.Finished) :
    Linearizable S s c := by
  have hSlots := answered_of_finished h hFinished
  refine ⟨slots.filterMap Slot.done?, h.answered, ?_, ?_⟩
  · have hReal := h.realTime
    rw [hSlots, List.pairwise_map] at hReal
    exact hReal.imp fun hab => hab _ rfl
  · have hSeq := h.sequential
    rw [hSlots, List.map_map, List.map_map] at hSeq
    exact hSeq

/-- **The commit-point theorem.** If every step of a run keeps to its commit
point, the finished run is linearizable. -/
theorem linearizable_of_commits (S : System Req Op Res ε α σ) (s : σ)
    (queues : Nat → List Req) (schedule : List Nat)
    {c : Config Req Op Res ε α σ}
    (hCommits : AllSteps (step S) (Commits S) schedule (Config.init s queues))
    (hRun : run (step S) schedule (Config.init s queues) = some c)
    (hFinished : c.Finished) : Linearizable S s c := by
  have hStep : ∀ (c : Config Req Op Res ε α σ) (i : Nat)
      (c' : Config Req Op Res ε α σ), (∃ slots, CommitOrder S s c slots) →
      Commits S c i → step S c i = some c' →
      ∃ slots, CommitOrder S s c' slots :=
    fun _ _ _ hInv hHere hNext => hInv.elim fun _ h => h.step hHere hNext
  obtain ⟨slots, h⟩ := run_invariant hStep hCommits
    ⟨[], commitOrder_init S s queues⟩ hRun
  exact h.linearizable hFinished

end GDPRuler.Verified.Interleave
