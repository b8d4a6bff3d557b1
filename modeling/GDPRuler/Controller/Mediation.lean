import GDPRuler.Controller.Plans

/-!
# Complete mediation

No request touches or shows a record unless the filter grants it.  The
statement is about pairs of runs: a denied request leaves no trace in the
store, and its reply is the same whatever the record holds, so nothing of
the record can be learnt from it.  In the same way the logs can only be learnt
by the regulator: for everybody else a request answers the same whatever the
log files hold.
-/

namespace GDPRuler.Controller

open GDPRuler.Verified

/-- The record at the request's key is accepted, as `f`. -/
def Finds (cipher : Option Cipher) (req : Request) (w : World Store)
    (f : GdprFilter) : Prop :=
  ∃ value, KvClient.lookup cipher w.kv req.query.key = some value ∧
    GdprFilter.ofValue (some value) = .ok f

/-- The filter's verdict on a request. -/
def Validates (f : GdprFilter) (req : Request) : Prop :=
  f.validate req.query req.policy req.readings.validateTime = true

instance (f : GdprFilter) (req : Request) : Decidable (Validates f req) :=
  inferInstanceAs (Decidable (_ = true))

/-- What serving `req` may do and show. -/
structure Mediated (delAbsent : Bool) (cipher : Option Cipher)
    (log : LogConfig) (req : Request) : Prop where
  /-- A denied request leaves the store as it was. -/
  denied_store : ∀ w f, Finds cipher req w f → ¬ Validates f req →
    (World.serve (mapEnv delAbsent cipher log) req w).2.kv = w.kv
  /-- Its reply does not depend on the records. -/
  denied_reply : ∀ w w' f f', Finds cipher req w f → Finds cipher req w' f' →
    ¬ Validates f req → ¬ Validates f' req →
    (req.query.cmd = lit "getlogs" → w.logs = w'.logs) →
    (World.serve (mapEnv delAbsent cipher log) req w).1 =
      (World.serve (mapEnv delAbsent cipher log) req w').1
  /-- A record is changed or removed only by a granted request. -/
  changed : ∀ w f, Finds cipher req w f →
    (World.serve (mapEnv delAbsent cipher log) req w).2.kv req.query.key ≠
      w.kv req.query.key → Validates f req
  /-- Only a granted request is answered with more than the refusal of its
  command. -/
  returned : ∀ w f c, KeyCommand.ofText req.query.cmd = some c →
    Finds cipher req w f →
    (World.serve (mapEnv delAbsent cipher log) req w).1 ≠ .ok c.refused →
    Validates f req
  /-- No other key is written. -/
  other_keys : ∀ w key, key ≠ req.query.key →
    (World.serve (mapEnv delAbsent cipher log) req w).2.kv key = w.kv key
  /-- The logs show in no reply but the regulator's. -/
  logs : effectiveUserKey req.query req.policy ≠ regulatorKey →
    ∀ w w' : World Store, w.kv = w'.kv →
    (World.serve (mapEnv delAbsent cipher log) req w).1 =
      (World.serve (mapEnv delAbsent cipher log) req w').1

section Mediation

variable (delAbsent : Bool) (cipher : Option Cipher) (log : LogConfig)

/-- A denied keyed request: the refusal, and nothing written. -/
theorem serve_denied {c : KeyCommand} {req : Request}
    (hCommand : KeyCommand.ofText req.query.cmd = some c) {w : World Store}
    {f : GdprFilter} (hFinds : Finds cipher req w f)
    (hDenied : ¬ Validates f req) :
    (World.serve (mapEnv delAbsent cipher log) req w).1 = .ok c.refused ∧
      (World.serve (mapEnv delAbsent cipher log) req w).2.kv = w.kv := by
  obtain ⟨value, hLookup, hValue⟩ := hFinds
  have hFalse : f.validate req.query req.policy req.readings.validateTime =
      false := by
    simpa [Validates] using hDenied
  rw [World.serve_keyed delAbsent cipher log hCommand, hLookup,
    plan_denied hValue hFalse]
  exact ⟨rfl, rfl⟩

/-- The outcome of a keyed request depends on the store alone. -/
theorem serve_keyed_outcome {c : KeyCommand} {req : Request}
    (hCommand : KeyCommand.ofText req.query.cmd = some c)
    {w w' : World Store} (hKv : w.kv = w'.kv) :
    (World.serve (mapEnv delAbsent cipher log) req w).1 =
      (World.serve (mapEnv delAbsent cipher log) req w').1 := by
  rw [World.serve_keyed delAbsent cipher log hCommand,
    World.serve_keyed delAbsent cipher log hCommand, hKv]
  cases plan c req.query req.policy req.readings
      (KvClient.lookup cipher w'.kv req.query.key) with
  | error e => rfl
  | ok pl => rw [World.carryOut, World.carryOut, hKv]

/-- A request that is not keyed is answered from the logs alone. -/
theorem serve_other_outcome {req : Request}
    (hCommand : KeyCommand.ofText req.query.cmd = none) {w w' : World Store}
    (hLogs : req.query.cmd = lit "getlogs" → w.logs = w'.logs) :
    (World.serve (mapEnv delAbsent cipher log) req w).1 =
      (World.serve (mapEnv delAbsent cipher log) req w').1 := by
  unfold World.serve
  rw [respond_other _ _ hCommand]
  split
  · rename_i hCmd
    refine (only_handleGetLogs _ _ _).run_agree
      (World.exec (mapEnv delAbsent cipher log) req.readings) World.logs ?_
      (hLogs hCmd)
    intro op w w' hOp hEq
    cases op <;> first | exact hOp.elim | simp [World.exec, hEq]
  · rfl

/-- **Complete mediation.** -/
theorem mediated (req : Request) : Mediated delAbsent cipher log req := by
  have hStore : ∀ w f, Finds cipher req w f → ¬ Validates f req →
      (World.serve (mapEnv delAbsent cipher log) req w).2.kv = w.kv := by
    intro w f hFinds hDenied
    cases hCommand : KeyCommand.ofText req.query.cmd with
    | none => exact World.serve_other _ hCommand w
    | some c =>
        exact (serve_denied delAbsent cipher log hCommand hFinds hDenied).2
  refine {
    denied_store := hStore
    denied_reply := ?_
    changed := ?_
    returned := ?_
    other_keys := fun w key hKey =>
      World.serve_kv_of_not_onKey delAbsent cipher log req w
        fun h => hKey h.2.symm
    logs := ?_ }
  · intro w w' f f' hFinds hFinds' hDenied hDenied' hLogs
    cases hCommand : KeyCommand.ofText req.query.cmd with
    | none =>
        exact serve_other_outcome delAbsent cipher log hCommand hLogs
    | some c =>
        rw [(serve_denied delAbsent cipher log hCommand hFinds hDenied).1,
          (serve_denied delAbsent cipher log hCommand hFinds' hDenied').1]
  · intro w f hFinds hChanged
    by_contra hDenied
    exact hChanged (congrFun (hStore w f hFinds hDenied) _)
  · intro w f c hCommand hFinds hReturned
    by_contra hDenied
    exact hReturned
      (serve_denied delAbsent cipher log hCommand hFinds hDenied).1
  · intro hUser w w' hKv
    cases hCommand : KeyCommand.ofText req.query.cmd with
    | none =>
        unfold World.serve
        rw [respond_other_of_not_regulator _ _ hCommand hUser]
        rfl
    | some c =>
        exact serve_keyed_outcome delAbsent cipher log hCommand hKv

end Mediation

end GDPRuler.Controller
