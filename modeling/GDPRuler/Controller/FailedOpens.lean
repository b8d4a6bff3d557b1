import Mathlib.Data.List.AList
import GDPRuler.Verified.Transition
import GDPRuler.Controller.CxxString

/-!
# The logger's bookkeeping when files cannot be opened

`get_or_open_log_stream` adds the key to the list of used keys and the stream
to the map before anybody looks whether the stream is open.  If it is not,
`log_encoded_query` asks once more, now under the mutex of the key, and as the
stream in the map is still closed the key is added to the list a second time.
Of the two entries eviction removes one, with the stream; when it comes to the
other there is no stream in the map, `operator[]` puts a null pointer there,
and `close` is called on it.

`Bookkeeping` is the map and the list as one thread sees them, every attempt to
open a file having an outcome of its own.  `survives_iff` says that they
stay consistent exactly in the runs without a failed attempt.
-/

namespace GDPRuler.Controller

open GDPRuler.Verified

/-- What a key is mapped to. -/
inductive StreamPtr
  | null
  | stream (isOpen : Bool)
  deriving DecidableEq

/-- `m_keys_to_log_files` and `m_used_keys`. -/
structure Bookkeeping where
  keysToLogFiles : AList fun _ : Str => StreamPtr
  usedKeys : List Str

/-- What eviction does to a key: `try_lock` of its mutex, which the thread may
hold, and `close` of its stream, which may not be there. -/
inductive EvictionEvent
  | tryLock (key : Str) (held : Bool)
  | close (key : Str) (present : Bool)
  deriving DecidableEq

/-- The events of a call and its result; `none` if a null pointer was
dereferenced. -/
structure Traced (α : Type) where
  events : List EvictionEvent
  result : Option α

def Traced.bind {α β : Type} (t : Traced α) (next : α → Traced β) : Traced β :=
  match t.result with
  | none => ⟨t.events, none⟩
  | some a => ⟨t.events ++ (next a).events, (next a).result⟩

theorem Traced.bind_of_result {α β : Type} {t : Traced α} {a : α}
    (h : t.result = some a) (next : α → Traced β) :
    t.bind next = ⟨t.events ++ (next a).events, (next a).result⟩ := by
  rw [bind, h]

theorem Traced.bind_of_none {α β : Type} {t : Traced α} (h : t.result = none)
    (next : α → Traced β) : (t.bind next).result = none := by
  rw [bind, h]

/-- A call of the logger: its key, and whether its first and its second attempt
to open the file succeed, if they are made. -/
structure OpenCall where
  key : Str
  first : Bool
  second : Bool

namespace Bookkeeping

/-- At startup. -/
def init : Bookkeeping := ⟨∅, []⟩

/-- The loop of `close_older_fd` behind the keys it has `skipped`, for a thread
that holds the mutex of `held`.  An attempt to lock that one fails. -/
def closeOlderFd (b : Bookkeeping) (held : Option Str) (skipped : List Str) :
    List Str → Traced Bookkeeping
  | [] => ⟨[], some b⟩
  | key :: keys =>
      if held = some key then
        let later := b.closeOlderFd held (skipped ++ [key]) keys
        ⟨.tryLock key true :: later.events, later.result⟩
      else
        match b.keysToLogFiles.lookup key with
        | some (.stream _) =>
            ⟨[.tryLock key false, .close key true],
              some ⟨b.keysToLogFiles.erase key, skipped ++ keys⟩⟩
        | _ => ⟨[.tryLock key false, .close key false], none⟩

/-- Add the key to the list and a new stream to the map. -/
def push (b : Bookkeeping) (key : Str) (opens : Bool) : Bookkeeping :=
  ⟨b.keysToLogFiles.insert key (.stream opens), b.usedKeys ++ [key]⟩

/-- Close a stream if there are too many. -/
def makeRoom (maxOpenLogFiles : Nat) (held : Option Str) (b : Bookkeeping) :
    Traced Bookkeeping :=
  if maxOpenLogFiles ≤ b.keysToLogFiles.entries.length then
    b.closeOlderFd held [] b.usedKeys
  else ⟨[], some b⟩

/-- Whether the stream returned is open, and the bookkeeping. -/
def getOrOpenLogStream (maxOpenLogFiles : Nat) (held : Option Str) (key : Str)
    (opens : Bool) (b : Bookkeeping) : Traced (Bool × Bookkeeping) :=
  match b.keysToLogFiles.lookup key with
  | some .null => ⟨[], none⟩
  | some (.stream true) => ⟨[], some (true, b)⟩
  | _ => (b.makeRoom maxOpenLogFiles held).bind fun b =>
      ⟨[], some (opens, b.push key opens)⟩

/-- `log_encoded_query`: the stream is asked for without a mutex and, if it is
not open, once more under the mutex of the key. -/
def logEncodedQuery (maxOpenLogFiles : Nat) (call : OpenCall)
    (b : Bookkeeping) : Traced Bookkeeping :=
  (b.getOrOpenLogStream maxOpenLogFiles none call.key call.first).bind
    fun (isOpen, b) =>
      if isOpen then ⟨[], some b⟩
      else (b.getOrOpenLogStream maxOpenLogFiles (some call.key) call.key
        call.second).bind fun (_, b) => ⟨[], some b⟩

/-- The bookkeeping after a call, unless it ends the program. -/
def step (maxOpenLogFiles : Nat) (b : Bookkeeping) (call : OpenCall) :
    Option Bookkeeping :=
  (b.logEncodedQuery maxOpenLogFiles call).result

/-! ## Consistency -/

/-- No key is listed twice, the list has the keys of the map, and no pointer in
the map is null. -/
structure Consistent (b : Bookkeeping) : Prop where
  nodup : b.usedKeys.Nodup
  listed : ∀ key, key ∈ b.usedKeys ↔ key ∈ b.keysToLogFiles
  present : ∀ key, b.keysToLogFiles.lookup key ≠ some .null

/-- A call that closes only streams that are there, tries no mutex it holds,
and leaves the bookkeeping consistent. -/
structure Survives (t : Traced Bookkeeping) : Prop where
  closes : ∀ key present, .close key present ∈ t.events → present = true
  tries : ∀ key held, .tryLock key held ∈ t.events → held = false
  after : ∃ b, t.result = some b ∧ b.Consistent

/-- The stream of the call is open, or the first attempt to open it succeeds. -/
def Opens (b : Bookkeeping) (call : OpenCall) : Prop :=
  b.keysToLogFiles.lookup call.key = some (.stream true) ∨ call.first = true

/-! ## Runs without a failed attempt -/

/-- Consistent, and all the streams are open. -/
structure AllOpen (b : Bookkeeping) : Prop extends Consistent b where
  isOpen : ∀ key ptr, b.keysToLogFiles.lookup key = some ptr → ptr = .stream true

theorem first_allOpen : init.AllOpen where
  nodup := List.nodup_nil
  listed := fun key => by simp [init]
  present := fun key => by simp [init]
  isOpen := fun key ptr h => by simp [init] at h

/-- A thread that holds no mutex closes the oldest stream. -/
theorem AllOpen.makeRoom {b : Bookkeeping} (h : b.AllOpen) (max : Nat) :
    ∃ b', (b.makeRoom max none).result = some b' ∧ b'.AllOpen ∧
      (∀ key, key ∈ b'.keysToLogFiles → key ∈ b.keysToLogFiles) ∧
      ∀ event ∈ (b.makeRoom max none).events,
        ∃ key, event = .tryLock key false ∨ event = .close key true := by
  unfold Bookkeeping.makeRoom
  by_cases hFull : max ≤ b.keysToLogFiles.entries.length
  swap
  · rw [if_neg hFull]
    exact ⟨b, rfl, h, fun _ hMem => hMem, fun _ hMem => nomatch hMem⟩
  rw [if_pos hFull]
  cases hUsed : b.usedKeys with
  | nil => exact ⟨b, rfl, h, fun _ hMem => hMem, fun _ hMem => nomatch hMem⟩
  | cons key keys =>
      have hMem : key ∈ b.keysToLogFiles := by
        rw [← h.listed, hUsed]
        exact List.mem_cons_self
      obtain ⟨ptr, hPtr⟩ :=
        Option.isSome_iff_exists.mp (AList.lookup_isSome.mpr hMem)
      obtain rfl := h.isOpen key ptr hPtr
      have hNodup := h.nodup
      rw [hUsed, List.nodup_cons] at hNodup
      simp only [closeOlderFd, reduceCtorEq, if_false, hPtr, List.nil_append]
      refine ⟨_, rfl, ⟨⟨hNodup.2, ?_, ?_⟩, ?_⟩, ?_, ?_⟩
      · intro other
        rw [AList.mem_erase, ← h.listed, hUsed, List.mem_cons]
        constructor
        · intro hOther
          exact ⟨fun hEq => hNodup.1 (hEq ▸ hOther), .inr hOther⟩
        · rintro ⟨hNe, hEq | hOther⟩
          · exact absurd hEq hNe
          · exact hOther
      · intro other
        by_cases hEq : other = key
        · rw [hEq, AList.lookup_erase]
          exact fun hNone => nomatch hNone
        · rw [AList.lookup_erase_ne hEq]
          exact h.present other
      · intro other ptr hOther
        by_cases hEq : other = key
        · rw [hEq, AList.lookup_erase] at hOther
          cases hOther
        · rw [AList.lookup_erase_ne hEq] at hOther
          exact h.isOpen other ptr hOther
      · exact fun other hOther => (AList.mem_erase.mp hOther).2
      · intro event hEvent
        refine ⟨key, ?_⟩
        simpa using hEvent

theorem AllOpen.push {b : Bookkeeping} (h : b.AllOpen) {key : Str}
    (hNew : key ∉ b.keysToLogFiles) : (b.push key true).AllOpen := by
  have hOpen : ∀ other ptr, (b.push key true).keysToLogFiles.lookup other =
      some ptr → ptr = .stream true := by
    intro other ptr hOther
    by_cases hEq : other = key
    · rw [hEq, Bookkeeping.push, AList.lookup_insert, Option.some.injEq]
        at hOther
      exact hOther.symm
    · rw [Bookkeeping.push, AList.lookup_insert_ne hEq] at hOther
      exact h.isOpen other ptr hOther
  refine ⟨⟨?_, ?_, ?_⟩, hOpen⟩
  · refine List.nodup_append.mpr ⟨h.nodup, List.nodup_singleton key, ?_⟩
    rintro other hOther _ hKey rfl
    rw [List.mem_singleton.mp hKey, h.listed] at hOther
    exact hNew hOther
  · intro other
    rw [Bookkeeping.push, List.mem_append, List.mem_singleton,
      AList.mem_insert, h.listed, or_comm]
  · intro other hNull
    cases hOpen other _ hNull

/-- **The step.** A call whose first attempt to open succeeds, if it makes one,
survives, and all the streams stay open. -/
theorem AllOpen.logEncodedQuery {b : Bookkeeping} (h : b.AllOpen) (max : Nat)
    {call : OpenCall} (hOpens : b.Opens call) :
    Survives (b.logEncodedQuery max call) ∧
      ∀ b', b.step max call = some b' → b'.AllOpen := by
  cases hLookup : b.keysToLogFiles.lookup call.key with
  | some ptr =>
      obtain rfl := h.isOpen call.key ptr hLookup
      have hCall : b.logEncodedQuery max call = ⟨[], some b⟩ := by
        simp only [Bookkeeping.logEncodedQuery, getOrOpenLogStream, hLookup]
        rfl
      rw [step, hCall]
      refine ⟨⟨fun _ _ hMem => (nomatch hMem), fun _ _ hMem => (nomatch hMem),
        b, rfl, h.toConsistent⟩, ?_⟩
      rintro b' hNext
      exact Option.some.inj hNext ▸ h
  | none =>
      have hFirst : call.first = true := by
        rcases hOpens with hOpen | hFirst
        · rw [hLookup] at hOpen
          cases hOpen
        · exact hFirst
      obtain ⟨room, hRoom, hAllOpen, hKeys, hEvents⟩ := h.makeRoom max
      have hNew : call.key ∉ room.keysToLogFiles := fun hMem =>
        AList.lookup_eq_none.mp hLookup (hKeys _ hMem)
      have hCall : b.logEncodedQuery max call =
          ⟨(b.makeRoom max none).events, some (room.push call.key true)⟩ := by
        simp only [Bookkeeping.logEncodedQuery, getOrOpenLogStream, hLookup,
          hFirst, Traced.bind_of_result hRoom]
        simp [Traced.bind]
      rw [step, hCall]
      refine ⟨⟨?_, ?_, _, rfl, (hAllOpen.push hNew).toConsistent⟩, ?_⟩
      · intro key present hMem
        obtain ⟨_, hTry | hClose⟩ := hEvents _ hMem
        · cases hTry
        · exact (EvictionEvent.close.inj hClose).2
      · intro key held hMem
        obtain ⟨_, hTry | hClose⟩ := hEvents _ hMem
        · exact (EvictionEvent.tryLock.inj hTry).2
        · cases hClose
      · rintro b' hNext
        exact Option.some.inj hNext ▸ hAllOpen.push hNew

/-! ## A failed attempt -/

/-- Eviction does not take the key whose mutex the thread holds. -/
theorem mem_usedKeys_closeOlderFd {b b' : Bookkeeping} {key : Str}
    (keys skipped : List Str)
    (h : (b.closeOlderFd (some key) skipped keys).result = some b')
    (hUsed : b.usedKeys = skipped ++ keys) (hMem : key ∈ b.usedKeys) :
    key ∈ b'.usedKeys := by
  induction keys generalizing skipped with
  | nil =>
      obtain rfl : b = b' := Option.some.inj h
      exact hMem
  | cons other keys ih =>
      rw [closeOlderFd] at h
      by_cases hHeld : some key = some other
      · rw [if_pos hHeld] at h
        exact ih (skipped ++ [other]) h (by rw [hUsed]; simp)
      · rw [if_neg hHeld] at h
        rw [Option.some.injEq] at hHeld
        split at h
        · rw [← Option.some.inj h]
          rw [hUsed, List.mem_append, List.mem_cons] at hMem
          rw [List.mem_append]
          rcases hMem with hSkipped | hOther | hLater
          · exact .inl hSkipped
          · exact absurd hOther hHeld
          · exact .inr hLater
        · cases h

/-- A stream that is not open is replaced by a new one. -/
theorem result_getOrOpenLogStream {b : Bookkeeping} (max : Nat)
    (held : Option Str) {key : Str} (opens : Bool)
    (hClosed : b.keysToLogFiles.lookup key ≠ some (.stream true))
    {found : Bool × Bookkeeping}
    (h : (b.getOrOpenLogStream max held key opens).result = some found) :
    ∃ room, (b.makeRoom max held).result = some room ∧
      found = (opens, room.push key opens) := by
  unfold getOrOpenLogStream at h
  split at h
  · cases h
  · rename_i hOpen
    exact absurd hOpen hClosed
  · cases hRoom : (b.makeRoom max held).result with
    | none =>
        rw [Traced.bind_of_none hRoom] at h
        cases h
    | some room =>
        rw [Traced.bind_of_result hRoom] at h
        exact ⟨room, rfl, (Option.some.inj h).symm⟩

theorem mem_usedKeys_makeRoom {b b' : Bookkeeping} {max : Nat} {key : Str}
    (h : (b.makeRoom max (some key)).result = some b')
    (hMem : key ∈ b.usedKeys) : key ∈ b'.usedKeys := by
  unfold makeRoom at h
  split at h
  · exact mem_usedKeys_closeOlderFd b.usedKeys [] h rfl hMem
  · exact Option.some.inj h ▸ hMem

/-- After a failed first attempt the key is listed twice, whatever becomes of
the second. -/
theorem not_survives {b : Bookkeeping} (max : Nat) {call : OpenCall}
    (hFails : ¬ b.Opens call) : ¬ Survives (b.logEncodedQuery max call) := by
  rw [Opens, not_or, Bool.not_eq_true] at hFails
  obtain ⟨hClosed, hFirst⟩ := hFails
  intro h
  obtain ⟨b', hResult, hConsistent⟩ := h.after
  unfold logEncodedQuery at hResult
  cases hGot : (b.getOrOpenLogStream max none call.key call.first).result with
  | none =>
      rw [Traced.bind_of_none hGot] at hResult
      cases hResult
  | some found =>
      obtain ⟨room, -, rfl⟩ :=
        result_getOrOpenLogStream max none call.first hClosed hGot
      rw [Traced.bind_of_result hGot, hFirst] at hResult
      simp only [Bool.false_eq_true, if_false] at hResult
      -- now the key is listed, and its stream is closed
      have hStill : (room.push call.key false).keysToLogFiles.lookup call.key ≠
          some (.stream true) := by
        rw [push, AList.lookup_insert]
        decide
      have hListed : call.key ∈ (room.push call.key false).usedKeys := by
        simp [push]
      cases hAgain : ((room.push call.key false).getOrOpenLogStream max
          (some call.key) call.key call.second).result with
      | none =>
          rw [Traced.bind_of_none hAgain] at hResult
          cases hResult
      | some found =>
          obtain ⟨room', hRoom, rfl⟩ := result_getOrOpenLogStream max
            (some call.key) call.second hStill hAgain
          rw [Traced.bind_of_result hAgain] at hResult
          have hTwice := hConsistent.nodup
          rw [← Option.some.inj hResult, push] at hTwice
          obtain ⟨-, -, hApart⟩ := List.nodup_append.mp hTwice
          exact hApart call.key (mem_usedKeys_makeRoom hRoom hListed) call.key
            (List.mem_singleton_self _) rfl

/-- **The bookkeeping survives exactly the runs without a failed open**: every
call of a run closes only streams that are there, tries no mutex its thread
holds and leaves list and map consistent, if and only if every attempt to open
a log file succeeds. -/
theorem survives_iff (max : Nat) (calls : List OpenCall) :
    Transition.AllSteps (step max)
        (fun b call => Survives (b.logEncodedQuery max call)) calls init ↔
      Transition.AllSteps (step max) Opens calls init := by
  constructor
  · intro h
    refine h.mono fun b call hSurvives => ?_
    by_contra hFails
    exact not_survives max hFails hSurvives
  · exact fun h => h.along (fun b call hOpen hOpens =>
      hOpen.logEncodedQuery max hOpens) first_allOpen

/-- `a/b` has no directory, and its file cannot be opened. -/
def unopened : OpenCall := ⟨lit "a/b", false, false⟩

/-- One stream may be open.  The first call tries the mutex it holds and lists
its key twice; two calls later the second entry meets no stream. -/
theorem failed_open_crashes :
    (init.logEncodedQuery 1 unopened).events = [.tryLock (lit "a/b") true] ∧
      (init.step 1 unopened).map usedKeys = some [lit "a/b", lit "a/b"] ∧
      Transition.run (step 1) [unopened, ⟨lit "c", true, true⟩,
        ⟨lit "d", true, true⟩] init = none ∧
      (((init.step 1 unopened).bind fun b =>
          b.step 1 ⟨lit "c", true, true⟩).map fun b =>
        (b.logEncodedQuery 1 ⟨lit "d", true, true⟩).events) =
          some [.tryLock (lit "a/b") false, .close (lit "a/b") false] ∧
      ¬ ∀ max calls, Transition.AllSteps (step max)
        (fun b call => Survives (b.logEncodedQuery max call)) calls init := by
  refine ⟨by decide +kernel, by decide +kernel, ?_, by decide +kernel, ?_⟩
  · have hNone : (Transition.run (step 1) [unopened, ⟨lit "c", true, true⟩,
        ⟨lit "d", true, true⟩] init).isNone = true := by decide +kernel
    exact Option.isNone_iff_eq_none.mp hNone
  · intro hAll
    have hFails : ¬ init.Opens unopened := by
      rintro (hOpen | hFirst)
      · exact absurd hOpen (by decide +kernel)
      · cases hFirst
    exact not_survives 1 hFails (hAll 1 [unopened]).1

end Bookkeeping

end GDPRuler.Controller
