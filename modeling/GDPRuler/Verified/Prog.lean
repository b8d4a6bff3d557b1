/-!
# Programs over a signature of operations

A request handler is a finite program that talks to the outside through a
fixed set of operations and otherwise computes.  `Prog Op Res ε α` is that
program as a tree: it returns, raises, or performs an operation and goes on
with its answer.

Keeping the program apart from what answers it lets one handler be read three
ways without being written three times:

* `run` — executed alone, every operation answered by one state;
* `trace` — the operations it performed, with their answers, in order;
* one operation at a time between the operations of other programs
  (`GDPRuler.Verified.Interleave`).
-/

namespace GDPRuler.Verified

/-- Programs that perform operations `Op` with answers `Res`, raise `ε` or
return `α`. -/
inductive Prog (Op : Type) (Res : Op → Type) (ε α : Type) : Type
  | ret (a : α)
  | fail (e : ε)
  | call (op : Op) (next : Res op → Prog Op Res ε α)

namespace Prog

variable {Op : Type} {Res : Op → Type} {ε α β σ : Type}

/-- Sequential composition; a raised error skips the rest. -/
def bind : Prog Op Res ε α → (α → Prog Op Res ε β) → Prog Op Res ε β
  | ret a, f => f a
  | fail e, _ => fail e
  | call op next, f => call op fun r => (next r).bind f

instance : Monad (Prog Op Res ε) where
  pure := ret
  bind := bind

/-- Perform one operation and return its answer. -/
def perform (op : Op) : Prog Op Res ε (Res op) := call op ret

/-- A computed result: return it, or raise its error. -/
def ofExcept : Except ε α → Prog Op Res ε α
  | .ok a => ret a
  | .error e => fail e

@[simp] theorem pure_eq (a : α) : (pure a : Prog Op Res ε α) = ret a := rfl

@[simp] theorem ret_bind (a : α) (f : α → Prog Op Res ε β) :
    (ret a >>= f) = f a := rfl

@[simp] theorem perform_bind (op : Op) (f : Res op → Prog Op Res ε β) :
    (perform op >>= f) = call op f := rfl

@[simp] theorem ofExcept_ok (a : α) :
    (ofExcept (.ok a) : Prog Op Res ε α) = ret a := rfl

/-! ## Running alone -/

/-- Execute a program on a state that answers every operation. -/
def run (exec : (op : Op) → σ → Res op × σ) :
    Prog Op Res ε α → σ → Except ε α × σ
  | ret a, s => (.ok a, s)
  | fail e, s => (.error e, s)
  | call op next, s => (next (exec op s).1).run exec (exec op s).2

/-- The operations an execution performs, with their answers, in order. -/
def trace (exec : (op : Op) → σ → Res op × σ) :
    Prog Op Res ε α → σ → List (Sigma Res)
  | ret _, _ => []
  | fail _, _ => []
  | call op next, s =>
      ⟨op, (exec op s).1⟩ :: (next (exec op s).1).trace exec (exec op s).2

variable (exec : (op : Op) → σ → Res op × σ)

@[simp] theorem run_ret (a : α) (s : σ) :
    (ret a : Prog Op Res ε α).run exec s = (.ok a, s) := rfl

@[simp] theorem run_call (op : Op) (next : Res op → Prog Op Res ε α) (s : σ) :
    (call op next).run exec s =
      (next (exec op s).1).run exec (exec op s).2 := rfl

@[simp] theorem trace_ret (a : α) (s : σ) :
    (ret a : Prog Op Res ε α).trace exec s = [] := rfl

@[simp] theorem trace_call (op : Op) (next : Res op → Prog Op Res ε α)
    (s : σ) :
    (call op next).trace exec s =
      ⟨op, (exec op s).1⟩ :: (next (exec op s).1).trace exec (exec op s).2 :=
  rfl

/-! ## Programs restricted to some operations -/

/-- Whatever it is answered, the program performs only operations in `P`. -/
def Only (P : Op → Prop) : Prog Op Res ε α → Prop
  | ret _ => True
  | fail _ => True
  | call op next => P op ∧ ∀ r, (next r).Only P

omit exec in
theorem Only.bind {P : Op → Prop} {p : Prog Op Res ε α}
    {f : α → Prog Op Res ε β} (hp : p.Only P) (hf : ∀ a, (f a).Only P) :
    (p >>= f).Only P := by
  induction p with
  | ret a => exact hf a
  | fail e => trivial
  | call op next ih => exact ⟨hp.1, fun r => ih r (hp.2 r)⟩

omit exec in
theorem only_ofExcept (P : Op → Prop) (x : Except ε α) :
    (ofExcept x : Prog Op Res ε α).Only P := by
  cases x <;> trivial

/-- What the permitted operations keep, the program keeps. -/
theorem Only.run_keeps {τ : Type} {P : Op → Prop} (view : σ → τ)
    (hKeep : ∀ op s, P op → view (exec op s).2 = view s)
    {p : Prog Op Res ε α} (hp : p.Only P) (s : σ) :
    view (p.run exec s).2 = view s := by
  induction p generalizing s with
  | ret a => rfl
  | fail e => rfl
  | call op next ih =>
      rw [run_call, ih _ (hp.2 _), hKeep op s hp.1]

/-- Only permitted operations are performed. -/
theorem Only.trace {P : Op → Prop} {p : Prog Op Res ε α} (hp : p.Only P)
    (s : σ) : ∀ performed ∈ p.trace exec s, P performed.1 := by
  induction p generalizing s with
  | ret a => simp [Prog.trace]
  | fail e => simp [Prog.trace]
  | call op next ih =>
      intro performed hMem
      cases List.mem_cons.mp hMem with
      | inl hHead => exact hHead ▸ hp.1
      | inr hTail => exact ih _ (hp.2 _) _ performed hTail

/-- If the permitted operations see only part of the state, a program's
outcome depends on that part alone. -/
theorem Only.run_agree {τ : Type} {P : Op → Prop} (view : σ → τ)
    (hAgree : ∀ op s s', P op → view s = view s' →
      (exec op s).1 = (exec op s').1 ∧
        view (exec op s).2 = view (exec op s').2)
    {p : Prog Op Res ε α} (hp : p.Only P) {s s' : σ}
    (hView : view s = view s') : (p.run exec s).1 = (p.run exec s').1 := by
  induction p generalizing s s' with
  | ret a => rfl
  | fail e => rfl
  | call op next ih =>
      obtain ⟨hAnswer, hNext⟩ := hAgree op s s' hp.1 hView
      rw [run_call, run_call, hAnswer]
      exact ih _ (hp.2 _) hNext

/-- If `exec'` answers the permitted operations on the visible part of the
state as `exec` does on all of it, so do the programs. -/
theorem Only.run_view {τ : Type} {P : Op → Prop}
    {exec' : (op : Op) → τ → Res op × τ} (view : σ → τ)
    (hView : ∀ op s, P op →
      exec' op (view s) = ((exec op s).1, view (exec op s).2))
    {p : Prog Op Res ε α} (hp : p.Only P) (s : σ) :
    p.run exec' (view s) = ((p.run exec s).1, view (p.run exec s).2) := by
  induction p generalizing s with
  | ret a => rfl
  | fail e => rfl
  | call op next ih =>
      rw [run_call, run_call, hView op s hp.1]
      exact ih _ (hp.2 _) _

/-! ## Results -/

/-- Whatever it is answered, the program returns only results in `P`. -/
def Returns (P : α → Prop) : Prog Op Res ε α → Prop
  | ret a => P a
  | fail _ => True
  | call _ next => ∀ r, (next r).Returns P

omit exec in
theorem Returns.bind {P : β → Prop} (p : Prog Op Res ε α)
    {f : α → Prog Op Res ε β} (hf : ∀ a, (f a).Returns P) :
    (p >>= f).Returns P := by
  induction p with
  | ret a => exact hf a
  | fail e => trivial
  | call op next ih => exact ih

theorem Returns.run {P : α → Prop} {p : Prog Op Res ε α} (hp : p.Returns P)
    {s : σ} {a : α} (hRun : (p.run exec s).1 = .ok a) : P a := by
  induction p generalizing s with
  | ret b => exact Except.ok.inj hRun ▸ hp
  | fail e => cases hRun
  | call op next ih => exact ih _ (hp _) hRun

end Prog

end GDPRuler.Verified
