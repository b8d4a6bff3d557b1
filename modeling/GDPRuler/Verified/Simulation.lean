/-!
# Machines with outputs and their simulations

A machine answers each call with an output and a next state.  Two machines
agree on every sequence of calls if a relation between their states is kept by
every call and related states answer alike; that induction is here, once.

The calls may be restricted by `P`, since implementations usually agree only
on arguments of a certain form.
-/

namespace GDPRuler.Verified.Simulation

universe u v w x

variable {Call : Type u} {Out : Type v} {σ : Type w} {τ : Type x}

/-- The answers to a sequence of calls, and the state after it. -/
def outputs (step : Call → σ → Out × σ) : List Call → σ → List Out × σ
  | [], s => ([], s)
  | call :: calls, s =>
      ((step call s).1 :: (outputs step calls (step call s).2).1,
        (outputs step calls (step call s).2).2)

variable {step : Call → σ → Out × σ} {step' : Call → τ → Out × τ}

/-- **The state rule.** A relation kept by every call in `P` is kept by every
sequence of such calls. -/
theorem outputs_related {P : Call → Prop} {R : σ → τ → Prop}
    (hStep : ∀ call s t, P call → R s t →
      R (step call s).2 (step' call t).2)
    {calls : List Call} (hCalls : ∀ call ∈ calls, P call) {s : σ} {t : τ}
    (hInit : R s t) :
    R (outputs step calls s).2 (outputs step' calls t).2 := by
  induction calls generalizing s t with
  | nil => exact hInit
  | cons call calls ih =>
      have hHere : P call := hCalls call List.mem_cons_self
      have hLater : ∀ c ∈ calls, P c := fun c hc =>
        hCalls c (List.mem_cons_of_mem _ hc)
      exact ih hLater (hStep call s t hHere hInit)

/-- **The output rule.** If related states answer alike and stay related, the
answers to every sequence of calls are equal. -/
theorem outputs_eq {P : Call → Prop} {R : σ → τ → Prop}
    (hStep : ∀ call s t, P call → R s t →
      (step call s).1 = (step' call t).1 ∧
        R (step call s).2 (step' call t).2)
    {calls : List Call} (hCalls : ∀ call ∈ calls, P call) {s : σ} {t : τ}
    (hInit : R s t) :
    (outputs step calls s).1 = (outputs step' calls t).1 := by
  induction calls generalizing s t with
  | nil => rfl
  | cons call calls ih =>
      have hHere : P call := hCalls call List.mem_cons_self
      have hLater : ∀ c ∈ calls, P c := fun c hc =>
        hCalls c (List.mem_cons_of_mem _ hc)
      obtain ⟨hOut, hNext⟩ := hStep call s t hHere hInit
      rw [outputs, outputs, hOut, ih hLater hNext]

/-- A machine whose calls and answers are another's in other words. -/
theorem outputs_map {Call' : Type u} {Out' : Type v}
    (step : Call → σ → Out × σ) (f : Call' → Call) (g : Out → Out')
    (calls : List Call') (s : σ) :
    outputs (fun call s => (g (step (f call) s).1, (step (f call) s).2))
        calls s =
      ((outputs step (calls.map f) s).1.map g,
        (outputs step (calls.map f) s).2) := by
  induction calls generalizing s with
  | nil => rfl
  | cons call calls ih => simp only [outputs, List.map_cons, ih]

end GDPRuler.Verified.Simulation
