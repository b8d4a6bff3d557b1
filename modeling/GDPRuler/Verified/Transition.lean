/-!
# Runs of labelled transition systems

A system is a partial step function `step : State → Act → Option State`; a
schedule is a list of actions.  Every safety statement over "all
interleavings" in this package is an instance of one induction, packaged
here once: what holds initially and is kept by every step holds at the end of
every run.

The rule comes with a side condition `P` on the steps taken, so that it also
serves results about runs whose steps are known to be of a certain kind.
-/

namespace GDPRuler.Verified.Transition

universe u v

variable {State : Type u} {Act : Type v}

/-- The state after a schedule, if every action of it was enabled. -/
def run (step : State → Act → Option State) : List Act → State → Option State
  | [], s => some s
  | a :: as, s =>
      match step s a with
      | none => none
      | some s' => run step as s'

/-- Every step of the schedule satisfies `P` in the state it is taken from. -/
def AllSteps (step : State → Act → Option State) (P : State → Act → Prop) :
    List Act → State → Prop
  | [], _ => True
  | a :: as, s => P s a ∧ ∀ s', step s a = some s' → AllSteps step P as s'

/-- `s` is the end of some run from `init`. -/
def Reaches (step : State → Act → Option State) (init s : State) : Prop :=
  ∃ acts, run step acts init = some s

variable {step : State → Act → Option State}

@[simp] theorem run_nil (s : State) : run step [] s = some s := rfl

theorem run_cons (a : Act) (as : List Act) (s : State) :
    run step (a :: as) s = (step s a).bind (run step as) := by
  cases h : step s a <;> simp [run, h]

/-- What goes through went through so far. -/
theorem exists_run_take {acts : List Act} {s s' : State}
    (hRun : run step acts s = some s') (n : Nat) :
    ∃ before, run step (acts.take n) s = some before := by
  induction acts generalizing s n with
  | nil => exact ⟨s, by rw [List.take_nil, run_nil]⟩
  | cons a acts ih =>
      cases n with
      | zero => exact ⟨s, by rw [List.take_zero, run_nil]⟩
      | succ n =>
          rw [run_cons] at hRun
          obtain ⟨next, hNext, hRest⟩ := Option.bind_eq_some_iff.mp hRun
          obtain ⟨before, hBefore⟩ := ih hRest n
          exact ⟨before, by rw [List.take_succ_cons, run_cons, hNext]; exact hBefore⟩

theorem allSteps_of_forall {P : State → Act → Prop} (h : ∀ s a, P s a)
    (acts : List Act) (s : State) : AllSteps step P acts s := by
  induction acts generalizing s with
  | nil => trivial
  | cons a acts ih => exact ⟨h s a, fun s' _ => ih s'⟩

/-- A condition on the actions alone. -/
theorem allSteps_of_mem {P : Act → Prop} {acts : List Act}
    (h : ∀ a ∈ acts, P a) (s : State) :
    AllSteps step (fun _ a => P a) acts s := by
  induction acts generalizing s with
  | nil => trivial
  | cons a acts ih =>
      obtain ⟨hHere, hLater⟩ := List.forall_mem_cons.mp h
      exact ⟨hHere, fun s' _ => ih hLater s'⟩

/-- A side condition may be weakened along an invariant. -/
theorem AllSteps.of_invariant {P Q : State → Act → Prop}
    {Inv : State → Prop}
    (hStep : ∀ s a s', Inv s → step s a = some s' → Inv s')
    (hPQ : ∀ s a, Inv s → P s a → Q s a) {acts : List Act} {s : State}
    (hInit : Inv s) (hSteps : AllSteps step P acts s) :
    AllSteps step Q acts s := by
  induction acts generalizing s with
  | nil => trivial
  | cons a acts ih =>
      exact ⟨hPQ s a hInit hSteps.1, fun s' hNext =>
        ih (hStep s a s' hInit hNext) (hSteps.2 s' hNext)⟩

/-- What follows from a side condition in every state holds of the same steps. -/
theorem AllSteps.mono {P Q : State → Act → Prop} (hPQ : ∀ s a, P s a → Q s a)
    {acts : List Act} {s : State} (hSteps : AllSteps step P acts s) :
    AllSteps step Q acts s := by
  induction acts generalizing s with
  | nil => trivial
  | cons a acts ih =>
      exact ⟨hPQ s a hSteps.1, fun s' hNext => ih (hSteps.2 s' hNext)⟩

/-- Steps that satisfy `P` and keep an invariant while they do satisfy whatever
follows from both. -/
theorem AllSteps.along {P Q : State → Act → Prop} {Inv : State → Prop}
    (hStep : ∀ s a, Inv s → P s a →
      Q s a ∧ ∀ s', step s a = some s' → Inv s')
    {acts : List Act} {s : State} (hInit : Inv s)
    (hSteps : AllSteps step P acts s) : AllSteps step Q acts s := by
  induction acts generalizing s with
  | nil => trivial
  | cons a acts ih =>
      obtain ⟨hHere, hLater⟩ := hSteps
      obtain ⟨hHolds, hNext⟩ := hStep s a hInit hHere
      exact ⟨hHolds, fun s' h => ih (hNext s' h) (hLater s' h)⟩

/-- **The run rule.** A property kept by every step that satisfies `P` is
kept by every run all of whose steps satisfy `P`. -/
theorem run_invariant {P : State → Act → Prop} {Inv : State → Prop}
    (hStep : ∀ s a s', Inv s → P s a → step s a = some s' → Inv s')
    {acts : List Act} {s s' : State} (hSteps : AllSteps step P acts s)
    (hInit : Inv s) (hRun : run step acts s = some s') : Inv s' := by
  induction acts generalizing s with
  | nil =>
      simp only [run_nil, Option.some.injEq] at hRun
      exact hRun ▸ hInit
  | cons a acts ih =>
      obtain ⟨hHere, hLater⟩ := hSteps
      cases hNext : step s a with
      | none => simp [run, hNext] at hRun
      | some next =>
          simp only [run, hNext] at hRun
          exact ih (hLater next hNext) (hStep s a next hInit hHere hNext) hRun

/-- **The progress rule.** If every step that satisfies `P` is enabled and
keeps `Inv`, a run of such steps goes through and keeps `Inv`. -/
theorem run_progress {P : State → Act → Prop} {Inv : State → Prop}
    (hStep : ∀ s a, Inv s → P s a → ∃ s', step s a = some s' ∧ Inv s')
    {acts : List Act} {s : State} (hSteps : AllSteps step P acts s)
    (hInit : Inv s) : ∃ s', run step acts s = some s' ∧ Inv s' := by
  induction acts generalizing s with
  | nil => exact ⟨s, rfl, hInit⟩
  | cons a acts ih =>
      obtain ⟨hHere, hLater⟩ := hSteps
      obtain ⟨next, hNext, hInv⟩ := hStep s a hInit hHere
      obtain ⟨s', hRun, hEnd⟩ := ih (hLater next hNext) hInv
      exact ⟨s', by rw [run, hNext]; exact hRun, hEnd⟩

/-- **The run rule for what is lost for good.** Suppose a step leaves `Good`
behind exactly when it was there before and the step satisfies `P`.  Then it is
there after a run exactly when it was at the start and every step satisfies
`P`. -/
theorem run_iff_allSteps {P : State → Act → Prop} {Inv Good : State → Prop}
    (hStep : ∀ s a s', Inv s → step s a = some s' →
      Inv s' ∧ (Good s' ↔ Good s ∧ P s a))
    {acts : List Act} {s s' : State} (hInit : Inv s)
    (hRun : run step acts s = some s') :
    Good s' ↔ Good s ∧ AllSteps step P acts s := by
  induction acts generalizing s with
  | nil =>
      simp only [run_nil, Option.some.injEq] at hRun
      simp [AllSteps, hRun]
  | cons a acts ih =>
      cases hNext : step s a with
      | none => simp [run, hNext] at hRun
      | some next =>
          simp only [run, hNext] at hRun
          obtain ⟨hInv, hGood⟩ := hStep s a next hInit hNext
          rw [ih hInv hRun, hGood]
          simp [AllSteps, hNext, and_assoc]

/-- The run rule for properties kept by every step. -/
theorem Reaches.invariant {Inv : State → Prop}
    (hStep : ∀ s a s', Inv s → step s a = some s' → Inv s')
    {init s : State} (hInit : Inv init) (hReaches : Reaches step init s) :
    Inv s := by
  obtain ⟨acts, hRun⟩ := hReaches
  exact run_invariant (P := fun _ _ => True) (fun s a s' h _ => hStep s a s' h)
    (allSteps_of_forall (fun _ _ => trivial) acts init) hInit hRun

end GDPRuler.Verified.Transition
