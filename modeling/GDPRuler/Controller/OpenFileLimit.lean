import GDPRuler.Controller.LoggerThreads

/-!
# The limit on open log files

`get_or_open_log_stream` closes at most one stream before it opens one, and
`close_older_fd` passes over the keys whose mutexes are held.  So the number of
open streams never goes down, and it goes over the limit when a stream is opened
while the limit is reached and every key that has a stream is in use.  Once over
the limit it stays there, also after the last call has returned.

## Main results

* `Logger.WellFormed.within_iff` — when opening a stream keeps to the limit;
* `within_limit_iff` — when a run does.
-/

namespace GDPRuler.Controller

open GDPRuler.Verified.Transition

namespace Logger

/-! ## Counting streams -/

/-- The numbers of the open streams. -/
def openStreams (l : Logger) : List Nat :=
  (List.range l.opened).filter fun sid => (l.streams sid).isOpen

section Counting

variable {l : Logger}

theorem WellFormed.mem_openStreams (h : l.WellFormed) (sid : Nat) :
    sid ∈ l.openStreams ↔ (l.streams sid).isOpen = true := by
  unfold openStreams
  rw [List.mem_filter, List.mem_range]
  constructor
  · intro hMem
    exact hMem.2
  · intro hOpen
    exact ⟨h.numbered sid hOpen, hOpen⟩

/-- One key of the list for each open stream. -/
theorem WellFormed.keys_openStreams (h : l.WellFormed) :
    (l.openStreams.map fun sid => (l.streams sid).key).Perm l.usedKeys := by
  have hNodup : (l.openStreams.map fun sid => (l.streams sid).key).Nodup := by
    apply List.Nodup.map_on
    · intro sid hSid other hOther hKey
      rw [h.mem_openStreams] at hSid hOther
      have hSame := h.indexed sid hSid
      rw [hKey, h.indexed other hOther] at hSame
      exact (Option.some.inj hSame).symm
    · exact List.nodup_range.filter _
  rw [List.perm_ext_iff_of_nodup hNodup h.nodup]
  intro key
  rw [List.mem_map, h.used, Option.isSome_iff_exists]
  constructor
  · intro hMem
    rcases hMem with ⟨sid, hSid, hKey⟩
    exact ⟨sid, hKey ▸ h.indexed sid ((h.mem_openStreams sid).mp hSid)⟩
  · intro hSome
    rcases hSome with ⟨sid, hStream⟩
    exact ⟨sid, (h.mem_openStreams sid).mpr (h.isOpen hStream),
      h.key_eq hStream⟩

theorem WellFormed.length_openStreams (h : l.WellFormed) :
    l.openStreams.length = l.usedKeys.length := by
  rw [← h.keys_openStreams.length_eq, List.length_map]

/-- One key of the list for each entry of the map. -/
theorem WellFormed.length_entries (h : l.WellFormed) :
    l.keysToLogFiles.entries.length = l.usedKeys.length := by
  have hPerm : l.keysToLogFiles.keys.Perm l.usedKeys := by
    rw [List.perm_ext_iff_of_nodup l.keysToLogFiles.keys_nodup h.nodup]
    intro key
    rw [h.used, streamOf, AList.lookup_isSome, AList.mem_keys]
  rw [← hPerm.length_eq]
  exact (List.length_map _).symm

end Counting

/-! ## Opening one more -/

section Room

variable (cfg : LogConfig) (maxOpenLogFiles : Nat) {l : Logger}

/-- Some key with a stream is not in use, so `close_older_fd` closes one. -/
def CanEvict (l : Logger) : Prop :=
  ∃ key ∈ l.usedKeys, l.keysToMutexes key = none

/-- A stream for `key` can be had without going over the limit. -/
def HasRoom (l : Logger) (key : Str) : Prop :=
  (l.streamOf key).isSome = true ∨
    l.keysToLogFiles.entries.length < maxOpenLogFiles ∨ l.CanEvict

/-- Nothing is closed when every key is in use. -/
theorem closeOlderFd_of_held (keys : List Str)
    (hHeld : ∀ key ∈ keys, l.keysToMutexes key ≠ none) :
    (l.closeOlderFd cfg keys).2 = l := by
  induction keys with
  | nil => rfl
  | cons key keys ih =>
      have hRest := ih fun k hk => hHeld k (List.mem_cons_of_mem _ hk)
      cases hMutex : l.keysToMutexes key with
      | none => exact absurd hMutex (hHeld key (by simp))
      | some i => simp only [closeOlderFd, hMutex, hRest]

/-- One stream is closed when some key is not in use. -/
theorem closeOlderFd_of_free (keys : List Str)
    (hUsed : ∀ key ∈ keys, key ∈ l.usedKeys)
    (hFree : ∃ key ∈ keys, l.keysToMutexes key = none) :
    (l.closeOlderFd cfg keys).2.usedKeys.length + 1 = l.usedKeys.length := by
  induction keys with
  | nil =>
      rcases hFree with ⟨key, hMem, _⟩
      cases hMem
  | cons key keys ih =>
      cases hMutex : l.keysToMutexes key with
      | none =>
          have hMem := hUsed key (by simp)
          have hPos := List.length_pos_of_mem hMem
          have hErase := List.length_erase_of_mem hMem
          simp only [closeOlderFd, hMutex, evict]
          omega
      | some i =>
          simp only [closeOlderFd, hMutex]
          apply ih fun k hk => hUsed k (List.mem_cons_of_mem _ hk)
          rcases hFree with ⟨k, hMem, hNone⟩
          rcases List.mem_cons.mp hMem with hEq | hLater
          · rw [hEq, hMutex] at hNone
            cases hNone
          · exact ⟨k, hLater, hNone⟩

/-- **Opening and the limit.** Getting a stream leaves the limit kept exactly
when it was kept and there was room. -/
theorem WellFormed.within_iff (h : l.WellFormed) (key : Str) :
    (l.getOrOpenLogStream cfg maxOpenLogFiles key).logger.usedKeys.length ≤
        maxOpenLogFiles ↔
      l.usedKeys.length ≤ maxOpenLogFiles ∧ l.HasRoom maxOpenLogFiles key := by
  unfold getOrOpenLogStream HasRoom
  rw [h.length_entries]
  cases hStream : l.streamOf key with
  | some sid =>
      simp [Option.filter, h.isOpen hStream]
  | none =>
      simp only [Option.filter, Option.isSome_none, Bool.false_eq_true,
        false_or]
      by_cases hFull : maxOpenLogFiles ≤ l.usedKeys.length
      · rw [if_pos hFull]
        show (_ ++ [key]).length ≤ _ ↔ _
        rw [List.length_append, List.length_singleton]
        by_cases hEvict : l.CanEvict
        · have hLess := closeOlderFd_of_free cfg l.usedKeys
            (fun _ hk => hk) hEvict
          simp only [hEvict, or_true, and_true]
          omega
        · have hSame := closeOlderFd_of_held cfg l.usedKeys
            fun k hk hNone => hEvict ⟨k, hk, hNone⟩
          rw [hSame]
          simp only [hEvict, or_false]
          omega
      · rw [if_neg hFull]
        show (l.usedKeys ++ [key]).length ≤ _ ↔ _
        rw [List.length_append, List.length_singleton]
        simp only [Nat.not_le.mp hFull, true_or, and_true]
        omega

theorem usedKeys_write (l : Logger) (sid : Nat) (data : Str) :
    (l.write sid data).usedKeys = l.usedKeys := by
  unfold write
  split <;> rfl

theorem usedKeys_drain (l : Logger) (sid n : Nat) :
    (l.drain cfg sid n).usedKeys = l.usedKeys := by
  unfold drain
  split <;> rfl

end Room

end Logger

/-- The thread is in no call. -/
def Thread.isIdle : Thread → Bool
  | .idle => true
  | _ => false

theorem Thread.isIdle_iff (thread : Thread) :
    thread.isIdle = true ↔ thread = .idle := by
  cases thread <;> simp [isIdle]

namespace LoggerState

/-! ## Runs -/

variable (cfg : LogConfig) (maxOpenLogFiles : Nat)

/-- If the step gets a stream, there is room for it. -/
def FindsRoom (s : LoggerState) : Act → Prop
  | .next i => ∀ c, s.threads i = .opening c ∨ s.threads i = .reopening c →
      s.logger.HasRoom maxOpenLogFiles c.key
  | _ => True

section Steps

variable {cfg} {maxOpenLogFiles} {files : LogFiles} {s s' : LoggerState}
  {i : Nat}

/-- No step but one that gets a stream touches the list. -/
theorem usedKeys_next (hOpening : ∀ c, s.threads i ≠ .opening c)
    (hReopening : ∀ c, s.threads i ≠ .reopening c)
    (hNext : s.next cfg maxOpenLogFiles i = some s') :
    s'.logger.usedKeys = s.logger.usedKeys := by
  unfold LoggerState.next at hNext
  cases hThread : s.threads i with
  | idle =>
      rw [hThread] at hNext
      cases hNext
  | opening c => exact absurd hThread (hOpening c)
  | reopening c => exact absurd hThread (hReopening c)
  | locking c sid =>
      simp only [hThread] at hNext
      split at hNext <;> cases hNext
      rfl
  | checking c sid =>
      simp only [hThread] at hNext
      split at hNext <;> cases hNext <;> rfl
  | stamping c sid =>
      simp only [hThread] at hNext
      split at hNext <;> cases hNext <;> rfl
  | sizing c sid timestamp entry =>
      rw [hThread] at hNext
      cases hNext
      exact Logger.usedKeys_write _ _ _
  | entering c sid timestamp entry =>
      rw [hThread] at hNext
      cases hNext
      exact Logger.usedKeys_write _ _ _
  | unlocking c timestamp =>
      rw [hThread] at hNext
      cases hNext
      rfl

/-- The next step of a thread. -/
theorem Safe.within_next (h : Safe cfg files s)
    (hNext : s.next cfg maxOpenLogFiles i = some s') :
    s'.logger.usedKeys.length ≤ maxOpenLogFiles ↔
      s.logger.usedKeys.length ≤ maxOpenLogFiles ∧
        s.FindsRoom maxOpenLogFiles (.next i) := by
  by_cases hOpening : ∃ c, s.threads i = .opening c
  · rcases hOpening with ⟨c, hThread⟩
    simp only [LoggerState.next, hThread, Option.some.injEq] at hNext
    subst hNext
    simpa [FindsRoom, hThread] using
      h.logger.within_iff cfg maxOpenLogFiles c.key
  · by_cases hReopening : ∃ c, s.threads i = .reopening c
    · rcases hReopening with ⟨c, hThread⟩
      simp only [LoggerState.next, hThread, Option.some.injEq] at hNext
      subst hNext
      simpa [FindsRoom, hThread] using
        h.logger.within_iff cfg maxOpenLogFiles c.key
    · have hRoom : s.FindsRoom maxOpenLogFiles (.next i) := by
        intro c hThread
        rcases hThread with hThread | hThread
        · exact absurd ⟨c, hThread⟩ hOpening
        · exact absurd ⟨c, hThread⟩ hReopening
      rw [usedKeys_next (fun c hThread => hOpening ⟨c, hThread⟩)
        (fun c hThread => hReopening ⟨c, hThread⟩) hNext]
      simp [hRoom]

theorem Safe.within_step {act : Act} (h : Safe cfg files s)
    (hStep : LoggerState.step cfg maxOpenLogFiles s act = some s') :
    s'.logger.usedKeys.length ≤ maxOpenLogFiles ↔
      s.logger.usedKeys.length ≤ maxOpenLogFiles ∧
        s.FindsRoom maxOpenLogFiles act := by
  cases act with
  | call j c =>
      simp only [LoggerState.step] at hStep
      split at hStep <;> cases hStep
      simp [FindsRoom]
  | next j => exact h.within_next hStep
  | tick clock =>
      simp only [LoggerState.step] at hStep
      split at hStep <;> cases hStep
      simp [FindsRoom]
  | drain sid n =>
      cases hStep
      simp [FindsRoom, Logger.usedKeys_drain]

end Steps

/--
**The limit on open log files.** Start with no log open and let any threads make
any calls, in any order of steps, every file opening.  In the state reached, with
or without threads still in a call, no more streams are open than allowed exactly
when every step that got a stream found room for it: its key had one, or fewer
than the limit were in the map, or some key in the map was not in use.
-/
theorem within_limit_iff (files : LogFiles) (clock : Int64) {acts : List Act}
    {s : LoggerState}
    (hRun : run (step cfg maxOpenLogFiles) acts (init files clock) = some s) :
    s.logger.openStreams.length ≤ maxOpenLogFiles ↔
      AllSteps (step cfg maxOpenLogFiles) (FindsRoom maxOpenLogFiles) acts
        (init files clock) := by
  have hSafe : Safe cfg files s := safe_of_reaches ⟨acts, hRun⟩
  have hStart : (init files clock).logger.usedKeys.length ≤
      maxOpenLogFiles := Nat.zero_le _
  have hRuns := @run_iff_allSteps _ _ (step cfg maxOpenLogFiles)
    (FindsRoom maxOpenLogFiles) (Safe cfg files)
    (fun s => s.logger.usedKeys.length ≤ maxOpenLogFiles)
    (fun _ _ _ h hStep => ⟨h.step hStep, h.within_step hStep⟩)
    acts _ s (first_safe cfg files clock) hRun
  rw [hSafe.logger.length_openStreams]
  exact hRuns.trans (and_iff_right hStart)

/-- One stream may be open, and a call is made when the other has returned. -/
def oneByOne : List Act :=
  .call 0 callOnK :: List.replicate 7 (.next 0) ++
    .call 1 callOnL :: List.replicate 7 (.next 1)

/-- `within_limit_iff` when the calls do not overlap. -/
theorem within_limit_iff_oneByOne :
    AllSteps (step ⟨lit "logs", none⟩ 1) (FindsRoom 1) oneByOne
      (init [] 0) := by
  have hCount : (run (step ⟨lit "logs", none⟩ 1) oneByOne
      (init [] 0)).map (fun s => s.logger.openStreams) = some [1] := by
    decide +kernel
  cases hRun : run (step ⟨lit "logs", none⟩ 1) oneByOne (init [] 0) with
  | none =>
      rw [hRun] at hCount
      cases hCount
  | some s =>
      rw [hRun, Option.map_some, Option.some.injEq] at hCount
      apply (within_limit_iff ⟨lit "logs", none⟩ 1 [] 0 hRun).mp
      rw [hCount]
      decide

/-! ## Over the limit for good -/

/-- The thread that an action concerns. -/
def Act.thread : Act → Option Nat
  | .call i _ => some i
  | .next i => some i
  | .tick _ => none
  | .drain _ _ => none

/-- A step leaves the other threads where they are. -/
theorem threads_step {s s' : LoggerState} {act : Act}
    (hStep : step cfg maxOpenLogFiles s act = some s') {j : Nat}
    (hOther : act.thread ≠ some j) : s'.threads j = s.threads j := by
  have hMove : ∀ (i : Nat) (l : Logger) (thread : Thread), some i ≠ some j →
      (s.move i l thread).threads j = s.threads j := by
    intro i l thread hNe
    exact move_threads_of_ne s (fun hEq => hNe (congrArg some hEq.symm)) l thread
  cases act with
  | call i c =>
      simp only [LoggerState.step] at hStep
      split at hStep <;> cases hStep
      exact hMove i _ _ hOther
  | next i =>
      simp only [LoggerState.step, LoggerState.next] at hStep
      split at hStep <;> (try split at hStep) <;> cases hStep
      case h_9 c timestamp _ =>
        exact hMove i (s.logger.setMutex c.key none) .idle hOther
      all_goals exact hMove i _ _ hOther
  | tick clock =>
      simp only [LoggerState.step] at hStep
      split at hStep <;> cases hStep
      rfl
  | drain sid n =>
      cases hStep
      rfl

/-- A thread that no action of a run concerns stays where it is. -/
theorem threads_run {s s' : LoggerState} {acts : List Act} {j : Nat}
    (hOthers : ∀ act ∈ acts, act.thread ≠ some j)
    (hRun : run (step cfg maxOpenLogFiles) acts s = some s') :
    s'.threads j = s.threads j := by
  induction acts generalizing s with
  | nil =>
      cases hRun
      rfl
  | cons act acts ih =>
      cases hStep : step cfg maxOpenLogFiles s act with
      | none => simp [run, hStep] at hRun
      | some next =>
          simp only [run, hStep] at hRun
          rw [ih (fun act hMem => hOthers act (List.mem_cons_of_mem _ hMem)) hRun]
          exact threads_step cfg maxOpenLogFiles hStep (hOthers act (by simp))

/-- A put of `l` is logged while a thread logs a get of `k`. -/
def overlapping : List Act :=
  [.call 0 callOnK, .next 0, .next 0, .call 1 callOnL, .next 1] ++
    List.replicate 5 (.next 0) ++ List.replicate 6 (.next 1)

/-- **Two logs stay open although only one may be.** The key of the first is in
use when the second is opened; both calls return, and nothing is closed. -/
theorem over_limit_when_idle :
    ¬ ∀ s, Reaches (step ⟨lit "logs", none⟩ 1) (init [] 0) s →
      (∀ i, s.threads i = .idle) → s.logger.openStreams.length ≤ 1 := by
  intro hClaim
  have hEnd : (run (step ⟨lit "logs", none⟩ 1) overlapping (init [] 0)).map
      (fun s => (s.logger.openStreams, (s.threads 0).isIdle,
        (s.threads 1).isIdle)) = some ([0, 1], true, true) := by
    decide +kernel
  cases hRun : run (step ⟨lit "logs", none⟩ 1) overlapping (init [] 0) with
  | none =>
      rw [hRun] at hEnd
      cases hEnd
  | some s =>
      rw [hRun, Option.map_some, Option.some.injEq, Prod.mk.injEq,
        Prod.mk.injEq] at hEnd
      have hAll : ∀ i, s.threads i = .idle := by
        intro i
        match i with
        | 0 => exact (Thread.isIdle_iff _).mp hEnd.2.1
        | 1 => exact (Thread.isIdle_iff _).mp hEnd.2.2
        | i + 2 =>
            apply threads_run _ _ _ hRun
            intro act hMem
            simp only [overlapping, List.mem_append, List.mem_cons,
              List.not_mem_nil, or_false, List.mem_replicate] at hMem
            rcases hMem with ((h | h | h | h | h) | ⟨_, h⟩) | ⟨_, h⟩ <;>
              simp [h, Act.thread]
      have hLimit := hClaim s ⟨overlapping, hRun⟩ hAll
      rw [hEnd.1] at hLimit
      cases Nat.le_of_succ_le_succ hLimit

end LoggerState

end GDPRuler.Controller
