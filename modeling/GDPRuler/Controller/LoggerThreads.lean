import GDPRuler.Verified.Transition
import GDPRuler.Controller.LogStreams

/-!
# Overlapping logger calls

Any number of threads call `log_encoded_query`, on any keys.  A call gets a
stream, locks the mutex of its key, gets a stream again if the first one was
closed in between, reads the clock and writes the size and the entry.  Getting
a stream is one step, under the mutex of the stream management; everything else
interleaves.

A stream can be closed by another thread only under the mutex of its key, so
what a thread has checked under that mutex stays true until it unlocks it.
`Safe` says so for all threads at once, together with what the log of each
key holds: the frames of the calls completed on it, and the part of a frame
that the thread under its mutex has written.

## Main results

* `Safe.step` — every step keeps `Safe`;
* `log_eq_replay` — overlapping calls write what calls one after another do;
* `logs_whole` — no write to a closed stream, no `try_lock` of a mutex the
  thread holds, and whole frames in the order of their timestamps.
-/

namespace GDPRuler.Controller

open GDPRuler.Verified.Transition

/-! ## Threads -/

/-- A call of `log_encoded_query`, with the random vector its encryption
draws. -/
structure LogCall where
  query : Query
  policy : DefaultPolicy
  valid : Bool
  newVal : Str
  iv : Str

namespace LogCall

def key (c : LogCall) : Str := c.query.key

/-- The entry of a call that reads the clock at `timestamp`. -/
def entry (c : LogCall) (timestamp : Int64) : Str :=
  encodeLogEntry timestamp (c.query.userKey.getD c.policy.userKey) c.query.cmd
    c.valid c.newVal

/-- The entry as written, if the encryption succeeds. -/
def sealed (cfg : LogConfig) (c : LogCall) (timestamp : Int64) : Option Str :=
  cfg.seal c.iv (c.entry timestamp)

/-- What the call adds to the log of its key. -/
def bytes (cfg : LogConfig) (c : LogCall) (timestamp : Int64) : Str :=
  match c.sealed cfg timestamp with
  | some entry => frame entry
  | none => []

end LogCall

/-- Where a thread is in a call, and the variables it holds there. -/
inductive Thread
  | idle
  | opening (c : LogCall)
  | locking (c : LogCall) (sid : Nat)
  | checking (c : LogCall) (sid : Nat)
  | reopening (c : LogCall)
  | stamping (c : LogCall) (sid : Nat)
  | sizing (c : LogCall) (sid : Nat) (timestamp : Int64) (entry : Str)
  | entering (c : LogCall) (sid : Nat) (timestamp : Int64) (entry : Str)
  | unlocking (c : LogCall) (timestamp : Int64)

namespace Thread

/-- The key whose mutex the thread holds. -/
def holds : Thread → Option Str
  | idle => none
  | opening _ => none
  | locking _ _ => none
  | checking c _ => some c.key
  | reopening c => some c.key
  | stamping c _ => some c.key
  | sizing c _ _ _ => some c.key
  | entering c _ _ _ => some c.key
  | unlocking c _ => some c.key

/-- What the call has written so far. -/
def written (cfg : LogConfig) : Thread → Str
  | entering _ _ _ entry => memoryBytes 8 entry.length
  | unlocking c timestamp => c.bytes cfg timestamp
  | _ => []

end Thread

/-- A completed call. -/
structure Logged where
  call : LogCall
  timestamp : Int64

/-- The shared logger, the threads, the completed calls and the clock. -/
structure LoggerState where
  logger : Logger
  threads : Nat → Thread
  completed : List Logged
  clock : Int64

namespace LoggerState

def init (files : LogFiles) (clock : Int64) : LoggerState :=
  { logger := Logger.init files
    threads := fun _ => .idle
    completed := []
    clock := clock }

/-! ## Steps -/

/-- Thread `i` goes to `thread`, with the shared logger `logger`. -/
def move (s : LoggerState) (i : Nat) (logger : Logger) (thread : Thread) :
    LoggerState :=
  { s with
    logger := logger
    threads := Function.update s.threads i thread }

/-- Thread `i` unlocks the mutex, and its call is completed. -/
def completing (s : LoggerState) (i : Nat) (c : LogCall) (timestamp : Int64) :
    LoggerState :=
  { s.move i (s.logger.setMutex c.key none) .idle with
    completed := s.completed ++ [⟨c, timestamp⟩] }

variable (cfg : LogConfig) (maxOpenLogFiles : Nat)

/-- The next step of a thread that is in a call. -/
def next (s : LoggerState) (i : Nat) : Option LoggerState :=
  match s.threads i with
  | .idle => none
  | .opening c =>
      let o := s.logger.getOrOpenLogStream cfg maxOpenLogFiles c.key
      some (s.move i o.logger (.locking c o.stream))
  | .locking c sid =>
      match s.logger.keysToMutexes c.key with
      | none => some (s.move i (s.logger.setMutex c.key (some i))
          (.checking c sid))
      | some _ => none
  | .checking c sid =>
      if (s.logger.streams sid).isOpen then
        some (s.move i s.logger (.stamping c sid))
      else some (s.move i s.logger (.reopening c))
  | .reopening c =>
      let o := s.logger.getOrOpenLogStream cfg maxOpenLogFiles c.key
      some (s.move i o.logger (.stamping c o.stream))
  | .stamping c sid =>
      match c.sealed cfg s.clock with
      | some entry => some (s.move i s.logger (.sizing c sid s.clock entry))
      | none => some (s.move i s.logger (.unlocking c s.clock))
  | .sizing c sid timestamp entry =>
      some (s.move i (s.logger.write sid (memoryBytes 8 entry.length))
        (.entering c sid timestamp entry))
  | .entering c sid timestamp entry =>
      some (s.move i (s.logger.write sid entry) (.unlocking c timestamp))
  | .unlocking c timestamp =>
      some (s.completing i c timestamp)

/-- What can happen: a thread calls the logger, a thread takes its next step,
the clock advances, or a stream passes bytes on to its file. -/
inductive Act
  | call (i : Nat) (c : LogCall)
  | next (i : Nat)
  | tick (clock : Int64)
  | drain (sid n : Nat)

def step (s : LoggerState) : Act → Option LoggerState
  | .call i c =>
      match s.threads i with
      | .idle => some (s.move i s.logger (.opening c))
      | _ => none
  | .next i => s.next cfg maxOpenLogFiles i
  | .tick clock =>
      if s.clock ≤ clock then some { s with clock := clock } else none
  | .drain sid n => some { s with logger := s.logger.drain cfg sid n }

/-! ## What a thread is about to do -/

/-- The next step of thread `i` writes to stream `sid`. -/
def WritesTo (s : LoggerState) (i sid : Nat) : Prop :=
  ∃ c timestamp entry, s.threads i = .sizing c sid timestamp entry ∨
    s.threads i = .entering c sid timestamp entry

/-- The next step of thread `i` tries to lock the mutex of `key`, in
`close_older_fd`. -/
def TryLocks (s : LoggerState) (i : Nat) (key : Str) : Prop :=
  ∃ c, (s.threads i = .opening c ∨ s.threads i = .reopening c) ∧
    key ∈ (s.logger.getOrOpenLogStream cfg maxOpenLogFiles c.key).tried

/-- The completed calls on a key, in the order of completion. -/
def completedOn (s : LoggerState) (key : Str) : List Logged :=
  s.completed.filter fun d => d.call.key = key

/-- What the thread under the mutex of `key`, if any, has written of its
frame. -/
def unfinished (s : LoggerState) (key : Str) : Str :=
  match s.logger.keysToMutexes key with
  | some i => (s.threads i).written cfg
  | none => []

/-! ## The invariant -/

/-- The stream a call was given is one of its key. -/
def Uses (s : LoggerState) (c : LogCall) (sid : Nat) : Prop :=
  sid < s.logger.opened ∧ (s.logger.streams sid).key = c.key

/-- The clock reading of a call comes after those of the completed ones. -/
def Stamped (s : LoggerState) (c : LogCall) (timestamp : Int64) : Prop :=
  timestamp ≤ s.clock ∧ ∀ d ∈ s.completedOn c.key, d.timestamp ≤ timestamp

/-- What holds of the variables of a thread. -/
def ThreadOk (s : LoggerState) : Thread → Prop
  | .idle => True
  | .opening _ => True
  | .locking c sid => s.Uses c sid
  | .checking c sid => s.Uses c sid
  | .reopening _ => True
  | .stamping c sid => s.Uses c sid ∧ (s.logger.streams sid).isOpen = true
  | .sizing c sid timestamp entry =>
      (s.Uses c sid ∧ (s.logger.streams sid).isOpen = true) ∧
        c.sealed cfg timestamp = some entry ∧ s.Stamped c timestamp
  | .entering c sid timestamp entry =>
      (s.Uses c sid ∧ (s.logger.streams sid).isOpen = true) ∧
        c.sealed cfg timestamp = some entry ∧ s.Stamped c timestamp
  | .unlocking c timestamp => s.Stamped c timestamp

/-- The text of the log of a key: what its file held at startup, and what the
completed calls have added. -/
def whole (files : LogFiles) (s : LoggerState) (key : Str) : Str :=
  (files.content (cfg.logFilePath key)).getD [] ++
    (s.completedOn key).flatMap fun d => d.call.bytes cfg d.timestamp

/-- The invariant of the logger, started with the given files. -/
structure Safe (files : LogFiles) (s : LoggerState) : Prop where
  logger : s.logger.WellFormed
  owners : ∀ i key, s.logger.keysToMutexes key = some i ↔
    (s.threads i).holds = some key
  threads : ∀ i, s.ThreadOk cfg (s.threads i)
  log : ∀ key, s.logger.log cfg key =
    s.whole cfg files key ++ s.unfinished cfg key
  ordered : ∀ key,
    (s.completedOn key).Pairwise fun d d' => d.timestamp ≤ d'.timestamp
  past : ∀ d ∈ s.completed, d.timestamp ≤ s.clock

theorem first_safe (files : LogFiles) (clock : Int64) :
    Safe cfg files (init files clock) := by
  refine
    { logger := Logger.first_wellFormed files
      owners := ?_
      threads := fun i => trivial
      log := ?_
      ordered := fun key => List.Pairwise.nil
      past := fun d hMem => by cases hMem }
  · intro i key
    constructor <;> intro h <;> cases h
  · intro key
    simp [init, Logger.init, Logger.log, Logger.pending, Logger.streamOf,
      whole, completedOn, unfinished]

section Steps

variable {cfg} {maxOpenLogFiles} {files : LogFiles} {s s' : LoggerState}
  {i : Nat} {thread : Thread}

theorem Uses.mono {c : LogCall} {sid : Nat} (h : s.Uses c sid)
    (hKeeps : s.logger.Keeps s'.logger) : s'.Uses c sid :=
  ⟨Nat.lt_of_lt_of_le h.1 hKeeps.opened, (hKeeps.keys sid h.1).trans h.2⟩

/-- A step of another thread changes nothing of what holds of a thread. -/
theorem ThreadOk.mono (h : s.ThreadOk cfg thread)
    (hKeeps : s.logger.Keeps s'.logger) (hClock : s.clock ≤ s'.clock)
    (hHeld : ∀ key, thread.holds = some key →
      (s.logger.keysToMutexes key).isSome = true ∧
        s'.completedOn key = s.completedOn key) :
    s'.ThreadOk cfg thread := by
  have hOpen : ∀ c sid, thread.holds = some c.key → s.Uses c sid →
      (s.logger.streams sid).isOpen = true →
      (s'.logger.streams sid).isOpen = true := by
    intro c sid hHolds hUses hOpen
    refine hKeeps.heldOpen sid hOpen ?_
    rw [hUses.2]
    exact (hHeld _ hHolds).1
  have hStamped : ∀ c timestamp, thread.holds = some c.key →
      s.Stamped c timestamp → s'.Stamped c timestamp := by
    intro c timestamp hHolds hStamped
    unfold Stamped
    rw [(hHeld _ hHolds).2]
    exact ⟨Int64.le_trans hStamped.1 hClock, hStamped.2⟩
  cases thread with
  | idle => trivial
  | opening c => trivial
  | locking c sid => exact Uses.mono h hKeeps
  | checking c sid => exact Uses.mono h hKeeps
  | reopening c => trivial
  | stamping c sid => exact ⟨h.1.mono hKeeps, hOpen c sid rfl h.1 h.2⟩
  | sizing c sid timestamp entry =>
      exact ⟨⟨h.1.1.mono hKeeps, hOpen c sid rfl h.1.1 h.1.2⟩, h.2.1,
        hStamped c timestamp rfl h.2.2⟩
  | entering c sid timestamp entry =>
      exact ⟨⟨h.1.1.mono hKeeps, hOpen c sid rfl h.1.1 h.1.2⟩, h.2.1,
        hStamped c timestamp rfl h.2.2⟩
  | unlocking c timestamp => exact hStamped c timestamp rfl h

/-- A thread that has a mutex is its owner. -/
theorem Safe.held (h : Safe cfg files s) {key : Str}
    (hHolds : (s.threads i).holds = some key) :
    (s.logger.keysToMutexes key).isSome = true := by
  rw [(h.owners i key).mpr hHolds]
  rfl

@[simp] theorem move_logger (s : LoggerState) (i : Nat) (l : Logger)
    (thread : Thread) : (s.move i l thread).logger = l := rfl

@[simp] theorem move_whole (s : LoggerState) (i : Nat) (l : Logger)
    (thread : Thread) (key : Str) :
    (s.move i l thread).whole cfg files key = s.whole cfg files key := rfl

theorem move_threads_self (s : LoggerState) (i : Nat) (l : Logger)
    (thread : Thread) : (s.move i l thread).threads i = thread :=
  Function.update_self _ _ _

theorem move_threads_of_ne (s : LoggerState) {i j : Nat} (h : j ≠ i)
    (l : Logger) (thread : Thread) :
    (s.move i l thread).threads j = s.threads j :=
  Function.update_of_ne h _ _

/-- A step within a call: the mutexes are as before, and what is added to the
log of a key was written by its owner. -/
theorem Safe.move (h : Safe cfg files s) {l : Logger}
    (hWellFormed : l.WellFormed) (hKeeps : s.logger.Keeps l)
    (hMutexes : l.keysToMutexes = s.logger.keysToMutexes)
    (hHolds : thread.holds = (s.threads i).holds)
    (hThread : (s.move i l thread).ThreadOk cfg thread) (data : Str)
    (hLog : ∀ key, l.log cfg key = s.logger.log cfg key ++
      if (s.threads i).holds = some key then data else [])
    (hWritten : thread.written cfg = (s.threads i).written cfg ++ data) :
    Safe cfg files (s.move i l thread) := by
  refine
    { logger := hWellFormed
      owners := ?_
      threads := ?_
      log := ?_
      ordered := h.ordered
      past := h.past }
  · intro j key
    rw [move_logger, hMutexes, h.owners]
    by_cases hj : j = i
    · rw [hj, move_threads_self, hHolds]
    · rw [move_threads_of_ne s hj]
  · intro j
    by_cases hj : j = i
    · rw [hj, move_threads_self]
      exact hThread
    · rw [move_threads_of_ne s hj]
      exact (h.threads j).mono hKeeps (Int64.le_refl _) fun key hHolds =>
        ⟨h.held hHolds, rfl⟩
  · intro key
    rw [move_logger, move_whole, hLog, h.log, List.append_assoc]
    congr 1
    unfold unfinished
    rw [move_logger, hMutexes]
    cases hOwner : s.logger.keysToMutexes key with
    | none =>
        have hNot : (s.threads i).holds ≠ some key := by
          intro hHolds
          rw [(h.owners i key).mpr hHolds] at hOwner
          cases hOwner
        simp [hNot]
    | some j =>
        by_cases hj : j = i
        · subst hj
          simp only [move_threads_self, (h.owners j key).mp hOwner, if_true,
            hWritten]
        · have hNot : (s.threads i).holds ≠ some key := by
            intro hHolds
            rw [(h.owners i key).mpr hHolds, Option.some.injEq] at hOwner
            exact hj hOwner.symm
          simp [move_threads_of_ne s hj, hNot]

/-- A step within a call that writes nothing. -/
private theorem Safe.quiet (h : Safe cfg files s) {l : Logger}
    (hWellFormed : l.WellFormed) (hKeeps : s.logger.Keeps l)
    (hMutexes : l.keysToMutexes = s.logger.keysToMutexes)
    (hLog : ∀ key, l.log cfg key = s.logger.log cfg key)
    (hHolds : thread.holds = (s.threads i).holds)
    (hThread : (s.move i l thread).ThreadOk cfg thread)
    (hWritten : thread.written cfg = (s.threads i).written cfg) :
    Safe cfg files (s.move i l thread) := by
  refine h.move hWellFormed hKeeps hMutexes hHolds hThread [] ?_ ?_
  · intro key
    rw [hLog]
    split <;> simp
  · rw [hWritten, List.append_nil]

/-- A step within a call that leaves the logger alone. -/
private theorem Safe.turn (h : Safe cfg files s)
    (hHolds : thread.holds = (s.threads i).holds)
    (hThread : (s.move i s.logger thread).ThreadOk cfg thread)
    (hWritten : thread.written cfg = (s.threads i).written cfg) :
    Safe cfg files (s.move i s.logger thread) :=
  h.quiet h.logger (Logger.Keeps.refl _) rfl (fun _ => rfl) hHolds hThread
    hWritten

/-- A write of the thread under the mutex. -/
private theorem Safe.write (h : Safe cfg files s) {c : LogCall} {sid : Nat}
    (hUses : s.Uses c sid) (hOpen : (s.logger.streams sid).isOpen = true)
    (data : Str) (hOwn : (s.threads i).holds = some c.key)
    (hHolds : thread.holds = (s.threads i).holds)
    (hThread : (s.move i (s.logger.write sid data) thread).ThreadOk cfg thread)
    (hWritten : thread.written cfg = (s.threads i).written cfg ++ data) :
    Safe cfg files (s.move i (s.logger.write sid data) thread) := by
  have hRebuffered := Logger.write_rebuffered hOpen data
  refine h.move (hRebuffered.wellFormed h.logger) hRebuffered.keeps
    hRebuffered.mutexes hHolds hThread data ?_ hWritten
  intro key
  rw [h.logger.write_log cfg hOpen, hUses.2, hOwn]
  simp only [Option.some.injEq, eq_comm]

/-- When the mutex of `key` changes hands between thread `i` and nobody, the
owners still are the threads that hold. -/
private theorem owners_setMutex {l : Logger} {threads : Nat → Thread}
    (h : ∀ j k, l.keysToMutexes k = some j ↔ (threads j).holds = some k)
    {key : Str} {owner : Option Nat}
    (hBefore : ∀ j, j ≠ i → l.keysToMutexes key ≠ some j)
    (hAfter : ∀ j, j ≠ i → owner ≠ some j)
    (hOwner : owner = some i ↔ thread.holds = some key)
    (hSame : ∀ k, k ≠ key →
      ((threads i).holds = some k ↔ thread.holds = some k)) (j : Nat) (k : Str) :
    (l.setMutex key owner).keysToMutexes k = some j ↔
      (Function.update threads i thread j).holds = some k := by
  by_cases hKey : k = key
  · subst hKey
    rw [Logger.setMutex_self]
    by_cases hj : j = i
    · rw [hj, Function.update_self, hOwner]
    · rw [Function.update_of_ne hj, ← h]
      exact ⟨fun hSome => absurd hSome (hAfter j hj),
        fun hSome => absurd hSome (hBefore j hj)⟩
  · rw [l.setMutex_of_ne owner hKey, h]
    by_cases hj : j = i
    · rw [hj, Function.update_self, hSame k hKey]
    · rw [Function.update_of_ne hj]

/-- What is written of the frames of other keys stays. -/
private theorem written_setMutex {l : Logger} {threads : Nat → Thread}
    (h : ∀ j k, l.keysToMutexes k = some j ↔ (threads j).holds = some k)
    {key k : Str} (owner : Option Nat) (hKey : k ≠ key)
    (hOther : (threads i).holds ≠ some k) :
    (match (l.setMutex key owner).keysToMutexes k with
      | some j => (Function.update threads i thread j).written cfg
      | none => []) =
    match l.keysToMutexes k with
      | some j => (threads j).written cfg
      | none => [] := by
  rw [l.setMutex_of_ne owner hKey]
  cases hOwner : l.keysToMutexes k with
  | none => rfl
  | some j =>
      have hj : j ≠ i := by
        rintro rfl
        exact hOther ((h j k).mp hOwner)
      simp only [Function.update_of_ne hj]

/-- Locking a free mutex. -/
private theorem Safe.lock (h : Safe cfg files s) {key : Str}
    (hFree : s.logger.keysToMutexes key = none)
    (hIdle : (s.threads i).holds = none) (hHolds : thread.holds = some key)
    (hThread : (s.move i (s.logger.setMutex key (some i)) thread).ThreadOk cfg
      thread)
    (hWritten : thread.written cfg = []) :
    Safe cfg files (s.move i (s.logger.setMutex key (some i)) thread) := by
  refine
    { logger := h.logger.setMutex key (some i)
      owners := ?_
      threads := ?_
      log := ?_
      ordered := h.ordered
      past := h.past }
  · refine owners_setMutex h.owners ?_ ?_ ?_ ?_
    · intro j _
      rw [hFree]
      simp
    · intro j hj
      simp [Ne.symm hj]
    · simp [hHolds]
    · intro k hk
      simp [hIdle, hHolds, Ne.symm hk]
  · intro j
    by_cases hj : j = i
    · rw [hj, move_threads_self]
      exact hThread
    · rw [move_threads_of_ne s hj]
      exact (h.threads j).mono (Logger.setMutex_keeps _ _ _)
        (Int64.le_refl _) fun key hHolds => ⟨h.held hHolds, rfl⟩
  · intro k
    rw [move_logger, move_whole, Logger.setMutex_log, h.log]
    congr 1
    by_cases hk : k = key
    · subst hk
      unfold unfinished
      simp only [hFree, move_logger, Logger.setMutex_self, move_threads_self,
        hWritten]
    · refine (written_setMutex h.owners (some i) hk ?_).symm
      rw [hIdle]
      simp

theorem completedOn_completing (s : LoggerState) (i : Nat) (c : LogCall)
    (timestamp : Int64) (key : Str) :
    (s.completing i c timestamp).completedOn key =
      s.completedOn key ++ if c.key = key then [⟨c, timestamp⟩] else [] := by
  simp only [completing, completedOn, List.filter_append, List.filter_cons,
    List.filter_nil, decide_eq_true_eq]

theorem completedOn_completing_of_ne (s : LoggerState) (i : Nat) {c : LogCall}
    (timestamp : Int64) {key : Str} (h : key ≠ c.key) :
    (s.completing i c timestamp).completedOn key = s.completedOn key := by
  rw [completedOn_completing, if_neg (Ne.symm h), List.append_nil]

/-- The frame of the call is written when it is completed. -/
private theorem Safe.log_completing (h : Safe cfg files s) {c : LogCall}
    {timestamp : Int64} (hThread : s.threads i = .unlocking c timestamp)
    (key : Str) :
    (s.completing i c timestamp).logger.log cfg key =
      (s.completing i c timestamp).whole cfg files key ++
        (s.completing i c timestamp).unfinished cfg key := by
  have hHolds : (s.threads i).holds = some c.key := by rw [hThread]; rfl
  have hOwner := (h.owners i c.key).mpr hHolds
  refine ((Logger.setMutex_log cfg s.logger c.key none key).trans
    (h.log key)).trans ?_
  unfold whole
  by_cases hKey : key = c.key
  · subst hKey
    have hSelf : (s.completing i c timestamp).logger.keysToMutexes c.key =
        none := Logger.setMutex_self _ _ _
    rw [completedOn_completing, if_pos rfl]
    simp [unfinished, hSelf, hOwner, hThread, Thread.written]
  · rw [completedOn_completing_of_ne s i timestamp hKey]
    congr 1
    refine (written_setMutex h.owners none hKey ?_).symm
    rw [hHolds]
    simp [Ne.symm hKey]

/-- Its timestamp is the latest of its key. -/
private theorem Safe.ordered_completing (h : Safe cfg files s) (i : Nat)
    {c : LogCall} {timestamp : Int64} (hStamped : s.Stamped c timestamp)
    (key : Str) :
    ((s.completing i c timestamp).completedOn key).Pairwise
      fun d d' => d.timestamp ≤ d'.timestamp := by
  rw [completedOn_completing]
  by_cases hKey : c.key = key
  · subst hKey
    rw [if_pos rfl]
    refine List.pairwise_append.mpr ⟨h.ordered c.key, by simp, ?_⟩
    intro d hMem d' hNew
    rw [List.mem_singleton.mp hNew]
    exact hStamped.2 d hMem
  · rw [if_neg hKey, List.append_nil]
    exact h.ordered key

/-- Unlocking the mutex at the end of a call. -/
private theorem Safe.unlock (h : Safe cfg files s) {c : LogCall}
    {timestamp : Int64} (hThread : s.threads i = .unlocking c timestamp) :
    Safe cfg files (s.completing i c timestamp) := by
  have hOk := h.threads i
  rw [hThread] at hOk
  have hHolds : (s.threads i).holds = some c.key := by rw [hThread]; rfl
  have hOwner := (h.owners i c.key).mpr hHolds
  have hOthers : ∀ j, j ≠ i → s.logger.keysToMutexes c.key ≠ some j := by
    intro j hj
    rw [hOwner]
    simp [Ne.symm hj]
  refine
    { logger := h.logger.setMutex c.key none
      owners := ?_
      threads := ?_
      log := h.log_completing hThread
      ordered := h.ordered_completing i hOk
      past := ?_ }
  · refine owners_setMutex h.owners hOthers (by simp) (by simp [Thread.holds]) ?_
    intro k hk
    rw [hHolds]
    simp [Thread.holds, Ne.symm hk]
  · intro j
    show ThreadOk cfg _ (Function.update s.threads i .idle j)
    by_cases hj : j = i
    · rw [hj, Function.update_self]
      trivial
    · rw [Function.update_of_ne hj]
      refine (h.threads j).mono (Logger.setMutex_keeps _ _ _)
        (Int64.le_refl _) fun key hHolds => ⟨h.held hHolds, ?_⟩
      refine completedOn_completing_of_ne s i timestamp ?_
      rintro rfl
      exact hOthers j hj ((h.owners j c.key).mpr hHolds)
  · intro d hMem
    cases List.mem_append.mp hMem with
    | inl hOld => exact h.past d hOld
    | inr hNew =>
        rw [List.mem_singleton.mp hNew]
        exact hOk.1

/-- A new stream is one of the key it was opened for. -/
private theorem uses_of_opens {c : LogCall} {o : Logger.Opening}
    (h : Logger.Opens cfg s.logger c.key o) :
    (s.move i o.logger thread).Uses c o.stream :=
  ⟨h.wellFormed.numbered o.stream h.isOpen, h.ofKey⟩

/-- The steps of a thread keep the invariant. -/
theorem Safe.next (h : Safe cfg files s)
    (hNext : s.next cfg maxOpenLogFiles i = some s') : Safe cfg files s' := by
  have hOk := h.threads i
  unfold LoggerState.next at hNext
  cases hThread : s.threads i with
  | idle =>
      rw [hThread] at hNext
      cases hNext
  | opening c =>
      rw [hThread] at hNext
      cases hNext
      have hOpens := h.logger.opens cfg maxOpenLogFiles c.key
      exact h.quiet hOpens.wellFormed hOpens.keeps hOpens.mutexes hOpens.log
        (by rw [hThread]; rfl) (uses_of_opens hOpens) (by rw [hThread]; rfl)
  | locking c sid =>
      rw [hThread] at hNext hOk
      cases hMutex : s.logger.keysToMutexes c.key with
      | some j =>
          simp only [hMutex] at hNext
          cases hNext
      | none =>
          simp only [hMutex, Option.some.injEq] at hNext
          subst hNext
          exact h.lock hMutex (by rw [hThread]; rfl) rfl
            (Uses.mono hOk (Logger.setMutex_keeps _ _ _)) rfl
  | checking c sid =>
      rw [hThread] at hNext hOk
      cases hOpen : (s.logger.streams sid).isOpen with
      | true =>
          simp only [hOpen, if_true, Option.some.injEq] at hNext
          subst hNext
          exact h.turn (by rw [hThread]; rfl) ⟨hOk, hOpen⟩
            (by rw [hThread]; rfl)
      | false =>
          simp only [hOpen, Bool.false_eq_true, if_false,
            Option.some.injEq] at hNext
          subst hNext
          exact h.turn (by rw [hThread]; rfl) trivial (by rw [hThread]; rfl)
  | reopening c =>
      rw [hThread] at hNext
      cases hNext
      have hOpens := h.logger.opens cfg maxOpenLogFiles c.key
      exact h.quiet hOpens.wellFormed hOpens.keeps hOpens.mutexes hOpens.log
        (by rw [hThread]; rfl) ⟨uses_of_opens hOpens, hOpens.isOpen⟩
        (by rw [hThread]; rfl)
  | stamping c sid =>
      rw [hThread] at hNext hOk
      have hStamped : s.Stamped c s.clock :=
        ⟨Int64.le_refl _, fun d hMem => h.past d (List.mem_of_mem_filter hMem)⟩
      cases hSealed : c.sealed cfg s.clock with
      | some entry =>
          simp only [hSealed, Option.some.injEq] at hNext
          subst hNext
          exact h.turn (by rw [hThread]; rfl) ⟨hOk, hSealed, hStamped⟩
            (by rw [hThread]; rfl)
      | none =>
          simp only [hSealed, Option.some.injEq] at hNext
          subst hNext
          refine h.turn (by rw [hThread]; rfl) hStamped ?_
          simp [hThread, Thread.written, LogCall.bytes, hSealed]
  | sizing c sid timestamp entry =>
      rw [hThread] at hNext hOk
      cases hNext
      obtain ⟨⟨hUses, hOpen⟩, hSealed, hStamped⟩ := hOk
      have hRebuffered := Logger.write_rebuffered hOpen
        (memoryBytes 8 entry.length)
      refine h.write hUses hOpen _ (by rw [hThread]; rfl)
        (by rw [hThread]; rfl) ?_ (by rw [hThread]; rfl)
      exact ⟨⟨hUses.mono hRebuffered.keeps,
        (hRebuffered.isOpen sid).trans hOpen⟩, hSealed, hStamped⟩
  | entering c sid timestamp entry =>
      rw [hThread] at hNext hOk
      cases hNext
      obtain ⟨⟨hUses, hOpen⟩, hSealed, hStamped⟩ := hOk
      refine h.write hUses hOpen _ (by rw [hThread]; rfl)
        (by rw [hThread]; rfl) hStamped ?_
      simp only [hThread, Thread.written, LogCall.bytes, hSealed, frame]
  | unlocking c timestamp =>
      rw [hThread] at hNext
      cases hNext
      exact h.unlock hThread

/-- **Every step keeps the logger safe.** -/
theorem Safe.step {act : Act} (h : Safe cfg files s)
    (hStep : LoggerState.step cfg maxOpenLogFiles s act = some s') :
    Safe cfg files s' := by
  cases act with
  | call i c =>
      cases hThread : s.threads i with
      | idle =>
          simp only [LoggerState.step, hThread, Option.some.injEq] at hStep
          subst hStep
          exact h.turn (by rw [hThread]; rfl) trivial (by rw [hThread]; rfl)
      | _ =>
          simp only [LoggerState.step, hThread] at hStep
          cases hStep
  | next i => exact h.next hStep
  | tick clock =>
      simp only [LoggerState.step] at hStep
      split at hStep
      · rename_i hClock
        cases hStep
        exact
          { h with
            threads := fun i => (h.threads i).mono (Logger.Keeps.refl _) hClock
              fun key hHolds => ⟨h.held hHolds, rfl⟩
            past := fun d hMem => Int64.le_trans (h.past d hMem) hClock }
      · cases hStep
  | drain sid n =>
      cases hStep
      obtain ⟨hWellFormed, hMutexes, hKeeps, hLog⟩ := h.logger.drain cfg sid n
      refine
        { logger := hWellFormed
          owners := ?_
          threads := fun i => (h.threads i).mono hKeeps (Int64.le_refl _)
            fun key hHolds => ⟨h.held hHolds, rfl⟩
          log := ?_
          ordered := h.ordered
          past := h.past }
      · intro i key
        rw [hMutexes]
        exact h.owners i key
      · intro key
        rw [hLog, h.log]
        unfold unfinished
        rw [hMutexes]
        rfl

/-! ## What holds in every reachable state -/

theorem Safe.writesTo (h : Safe cfg files s) {sid : Nat}
    (hWrites : s.WritesTo i sid) : (s.logger.streams sid).isOpen = true := by
  have hOk := h.threads i
  obtain ⟨c, timestamp, entry, hSizing | hEntering⟩ := hWrites
  · rw [hSizing] at hOk
    exact hOk.1.2
  · rw [hEntering] at hOk
    exact hOk.1.2

/-- A mutex that is tried belongs to a key with a stream, and never to the
thread that tries it. -/
theorem Safe.tryLocks (h : Safe cfg files s) {key : Str}
    (hTries : s.TryLocks cfg maxOpenLogFiles i key) :
    s.logger.keysToMutexes key ≠ some i := by
  obtain ⟨c, hThread, hTried⟩ := hTries
  have hOpens := h.logger.opens cfg maxOpenLogFiles c.key
  have hNe := (hOpens.tried key hTried).1
  rw [Ne, h.owners]
  intro hHolds
  rcases hThread with hThread | hThread <;> rw [hThread] at hHolds
  · cases hHolds
  · exact hNe (Option.some.inj hHolds).symm

theorem safe_of_reaches {clock : Int64}
    (hReaches : Reaches (LoggerState.step cfg maxOpenLogFiles)
      (init files clock) s) : Safe cfg files s :=
  hReaches.invariant (fun _ _ _ h hStep => h.step hStep)
    (first_safe cfg files clock)

end Steps

/-! ## The calls one after another -/

/-- The completed calls as calls that do not overlap. -/
def replay (cfg : LogConfig) (files : LogFiles) (calls : List Logged) :
    LogFiles :=
  calls.foldl (fun files d => logEncodedQuery cfg ⟨d.timestamp, d.call.iv⟩
    d.call.query d.call.policy d.call.valid d.call.newVal files) files

private theorem logEncodedQuery_call (cfg : LogConfig) (files : LogFiles)
    (d : Logged) :
    logEncodedQuery cfg ⟨d.timestamp, d.call.iv⟩ d.call.query d.call.policy
      d.call.valid d.call.newVal files =
    files.append (cfg.logFilePath d.call.key)
      (d.call.bytes cfg d.timestamp) := by
  unfold logEncodedQuery LogCall.bytes LogCall.sealed LogCall.entry
  cases hSealed : cfg.seal d.call.iv (encodeLogEntry d.timestamp
      (d.call.query.userKey.getD d.call.policy.userKey) d.call.query.cmd
      d.call.valid d.call.newVal) with
  | none => simp only [hSealed, LogCall.key]
  | some entry => simp only [hSealed, LogCall.key]

theorem content_replay (cfg : LogConfig) (files : LogFiles)
    (calls : List Logged) (key : Str) :
    ((replay cfg files calls).content (cfg.logFilePath key)).getD [] =
      (files.content (cfg.logFilePath key)).getD [] ++
      (calls.filter fun d => d.call.key = key).flatMap
        fun d => d.call.bytes cfg d.timestamp := by
  induction calls generalizing files with
  | nil => simp [replay]
  | cons d calls ih =>
      have hHere := ih (files.append (cfg.logFilePath d.call.key)
        (d.call.bytes cfg d.timestamp))
      simp only [replay, List.foldl_cons, logEncodedQuery_call] at hHere ⊢
      rw [hHere]
      by_cases hKey : d.call.key = key
      · rw [hKey, LogFiles.content_append]
        simp [hKey]
      · rw [LogFiles.content_append_of_ne _ _ fun hPath =>
          hKey (cfg.logFilePath_injective hPath).symm]
        simp [hKey]

/-- **Overlapping calls write what calls one after another do.** When no
thread holds the mutex of a key, its log is that of the completed calls made
without overlap, in the order of completion. -/
theorem log_eq_replay {cfg : LogConfig} {maxOpenLogFiles : Nat}
    {files : LogFiles} {clock : Int64} {s : LoggerState}
    (hReaches : Reaches (step cfg maxOpenLogFiles) (init files clock) s)
    {key : Str} (hFree : s.logger.keysToMutexes key = none) :
    s.logger.log cfg key =
      ((replay cfg files s.completed).content
        (cfg.logFilePath key)).getD [] := by
  rw [(safe_of_reaches hReaches).log, content_replay]
  simp [unfinished, hFree, whole, completedOn]

/-- A get of `k` and a put of `l`, to be logged. -/
def callOnK : LogCall :=
  ⟨{ cmd := lit "get", key := lit "k" },
    ⟨lit "alice", false, 0, 0, [], 0, [], true⟩, true, [], []⟩

def callOnL : LogCall :=
  ⟨{ cmd := lit "put", key := lit "l" },
    ⟨lit "alice", false, 0, 0, [], 0, [], true⟩, true, lit "VAL", []⟩

/-- One stream may be open; each of two threads loses the stream it was given
to the other and gets a new one under its mutex. -/
def evictions : List Act :=
  [.call 0 callOnK, .next 0, .call 1 callOnL, .next 1, .next 0, .next 0,
    .next 0, .next 1, .tick 5, .next 0, .next 1, .next 1, .next 0, .drain 2 3,
    .next 1, .next 0, .next 1, .next 1, .next 0, .next 1]

end LoggerState

end GDPRuler.Controller
