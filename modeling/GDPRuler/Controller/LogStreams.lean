import Mathlib.Data.List.AList
import GDPRuler.Controller.LogFiles

/-!
# Open log streams

The logger keeps the streams of recently used keys open and closes older ones
when there are too many.  `Logger` is what its threads share: the mutexes of
the keys, the map of open streams with the list of their keys, and the files.

A stream is a shared pointer: a thread may keep one that was closed in the
meantime, so streams have numbers and are never reused.  A stream passes what
is written to it on to its file in pieces of its own choosing (`drain`), and
the rest when it is closed.  `Logger.log` is the text of a log with what is
still in its stream; no operation but a write changes it.

`Logger.WellFormed` links the map, the list and the streams.  Each operation
has one lemma that says what it does to it (`opens`, `close`, `write`).
-/

namespace GDPRuler.Controller

/-- A file stream with the bytes it has not yet passed on. -/
structure LogStream where
  key : Str
  isOpen : Bool
  buffer : Str

/-- What the threads of the logger share.  Opened streams are numbered. -/
structure Logger where
  /-- The thread that holds the mutex of a key. -/
  keysToMutexes : Str → Option Nat
  keysToLogFiles : AList fun _ : Str => Nat
  usedKeys : List Str
  streams : Nat → LogStream
  opened : Nat
  files : LogFiles

namespace Logger

/-- The logger at startup. -/
def init (files : LogFiles) : Logger :=
  { keysToMutexes := fun _ => none
    keysToLogFiles := ∅
    usedKeys := []
    streams := fun _ => ⟨[], false, []⟩
    opened := 0
    files := files }

/-- The stream in the map. -/
def streamOf (l : Logger) (key : Str) : Option Nat := l.keysToLogFiles.lookup key

/-! ## Operations -/

section Operations

variable (cfg : LogConfig) (maxOpenLogFiles : Nat)

/-- `close`: the stream passes on all it has. -/
def close (l : Logger) (sid : Nat) : Logger :=
  { l with
    files := l.files.append (cfg.logFilePath (l.streams sid).key)
      (l.streams sid).buffer
    streams := Function.update l.streams sid ⟨(l.streams sid).key, false, []⟩ }

/-- The body of the loop of `close_older_fd`, under the mutex of `key`. -/
def evict (l : Logger) (key : Str) : Logger :=
  let closed := match l.streamOf key with
    | some sid => l.close cfg sid
    | none => l
  { closed with
    usedKeys := l.usedKeys.erase key
    keysToLogFiles := l.keysToLogFiles.erase key }

/-- The loop of `close_older_fd` over the used keys: the keys whose mutexes it
tries to lock, and the logger after it. -/
def closeOlderFd (l : Logger) : List Str → List Str × Logger
  | [] => ([], l)
  | key :: keys =>
      match l.keysToMutexes key with
      | none => ([key], l.evict cfg key)
      | some _ =>
          (key :: (closeOlderFd l keys).1, (closeOlderFd l keys).2)

/-- Open a stream, add it to the map and its key to the list. -/
def openStream (l : Logger) (key : Str) : Logger :=
  { l with
    usedKeys := l.usedKeys ++ [key]
    keysToLogFiles := l.keysToLogFiles.insert key l.opened
    streams := Function.update l.streams l.opened ⟨key, true, []⟩
    opened := l.opened + 1
    files := l.files.append (cfg.logFilePath key) [] }

/-- The outcome of `get_or_open_log_stream`: the stream, the keys whose mutexes
were tried, and the logger after it. -/
structure Opening where
  stream : Nat
  tried : List Str
  logger : Logger

def getOrOpenLogStream (l : Logger) (key : Str) : Opening :=
  match (l.streamOf key).filter fun sid => (l.streams sid).isOpen with
  | some sid => ⟨sid, [], l⟩
  | none =>
      let (tried, room) :=
        if maxOpenLogFiles ≤ l.keysToLogFiles.entries.length then
          l.closeOlderFd cfg l.usedKeys
        else ([], l)
      ⟨room.opened, tried, room.openStream cfg key⟩

/-- `write` fails on a closed stream. -/
def write (l : Logger) (sid : Nat) (data : Str) : Logger :=
  if (l.streams sid).isOpen then
    { l with
      streams := Function.update l.streams sid
        { l.streams sid with buffer := (l.streams sid).buffer ++ data } }
  else l

/-- The stream passes on its first `n` bytes. -/
def drain (l : Logger) (sid n : Nat) : Logger :=
  if (l.streams sid).isOpen then
    { l with
      files := l.files.append (cfg.logFilePath (l.streams sid).key)
        ((l.streams sid).buffer.take n)
      streams := Function.update l.streams sid
        { l.streams sid with buffer := (l.streams sid).buffer.drop n } }
  else l

/-- Lock (`some i`) or unlock (`none`) the mutex of a key. -/
def setMutex (l : Logger) (key : Str) (owner : Option Nat) : Logger :=
  { l with keysToMutexes := Function.update l.keysToMutexes key owner }

/-- What the open stream of a key has not passed on. -/
def pending (l : Logger) (key : Str) : Str :=
  match l.streamOf key with
  | some sid => (l.streams sid).buffer
  | none => []

/-- The log of a key: its file, and what its stream will add to it. -/
def log (l : Logger) (key : Str) : Str :=
  (l.files.content (cfg.logFilePath key)).getD [] ++ l.pending key

end Operations

/-! ## Well-formed loggers -/

/-- The list holds the keys of the map, once each, and the map the open
streams, each under its key. -/
structure WellFormed (l : Logger) : Prop where
  nodup : l.usedKeys.Nodup
  used : ∀ key, key ∈ l.usedKeys ↔ (l.streamOf key).isSome = true
  mapped : ∀ key sid, l.streamOf key = some sid →
    (l.streams sid).isOpen = true ∧ (l.streams sid).key = key
  indexed : ∀ sid, (l.streams sid).isOpen = true →
    l.streamOf (l.streams sid).key = some sid
  numbered : ∀ sid, (l.streams sid).isOpen = true → sid < l.opened

theorem first_wellFormed (files : LogFiles) : (init files).WellFormed := by
  refine
    { nodup := List.nodup_nil
      used := ?_
      mapped := ?_
      indexed := ?_
      numbered := ?_ }
  · intro key
    simp [init, streamOf]
  · intro key sid hStream
    simp [init, streamOf] at hStream
  · intro sid hOpen
    cases hOpen
  · intro sid hOpen
    cases hOpen

/-- What an operation of one thread leaves to the others: numbers keep their
keys, and a stream is not closed while the mutex of its key is held. -/
structure Keeps (l l' : Logger) : Prop where
  keys : ∀ sid < l.opened, (l'.streams sid).key = (l.streams sid).key
  opened : l.opened ≤ l'.opened
  heldOpen : ∀ sid, (l.streams sid).isOpen = true →
    (l.keysToMutexes (l.streams sid).key).isSome = true →
    (l'.streams sid).isOpen = true

theorem Keeps.refl (l : Logger) : l.Keeps l :=
  ⟨fun _ _ => rfl, Nat.le_refl _, fun _ hOpen _ => hOpen⟩

theorem Keeps.trans {l l' l'' : Logger} (h : l.Keeps l') (h' : l'.Keeps l'')
    (hMutexes : l'.keysToMutexes = l.keysToMutexes)
    (hNumbered : ∀ sid, (l.streams sid).isOpen = true → sid < l.opened) :
    l.Keeps l'' := by
  refine
    { keys := ?_
      opened := Nat.le_trans h.opened h'.opened
      heldOpen := ?_ }
  · intro sid hSid
    rw [h'.keys sid (Nat.lt_of_lt_of_le hSid h.opened), h.keys sid hSid]
  · intro sid hOpen hHeld
    refine h'.heldOpen sid (h.heldOpen sid hOpen hHeld) ?_
    rw [hMutexes, h.keys sid (hNumbered sid hOpen)]
    exact hHeld

theorem WellFormed.isOpen {l : Logger} (h : l.WellFormed) {key : Str} {sid : Nat}
    (hStream : l.streamOf key = some sid) : (l.streams sid).isOpen = true :=
  (h.mapped key sid hStream).1

theorem WellFormed.key_eq {l : Logger} (h : l.WellFormed) {key : Str} {sid : Nat}
    (hStream : l.streamOf key = some sid) : (l.streams sid).key = key :=
  (h.mapped key sid hStream).2

/-! ## Closing -/

section Evict

variable (cfg : LogConfig) {l : Logger} {key : Str} {sid : Nat}

/-- The parts of a logger after the eviction of `key`. -/
structure Evicted (l : Logger) (key : Str) (sid : Nat) (l' : Logger) :
    Prop where
  mutexes : l'.keysToMutexes = l.keysToMutexes
  used : l'.usedKeys = l.usedKeys.erase key
  gone : l'.streamOf key = none
  others : ∀ other, other ≠ key → l'.streamOf other = l.streamOf other
  streams : l'.streams = Function.update l.streams sid ⟨key, false, []⟩
  opened : l'.opened = l.opened
  files : l'.files = l.files.append (cfg.logFilePath key)
    (l.streams sid).buffer

theorem WellFormed.evicted (h : l.WellFormed)
    (hStream : l.streamOf key = some sid) :
    Evicted cfg l key sid (l.evict cfg key) := by
  have hEvict : l.evict cfg key =
      { l.close cfg sid with
        usedKeys := l.usedKeys.erase key
        keysToLogFiles := l.keysToLogFiles.erase key } := by
    simp only [evict, hStream]
  rw [hEvict]
  refine
    { mutexes := rfl
      used := rfl
      gone := AList.lookup_erase key _
      others := fun other hNe => AList.lookup_erase_ne hNe
      streams := ?_
      opened := rfl
      files := ?_ }
  · simp only [close, h.key_eq hStream]
  · simp only [close, h.key_eq hStream]

/-- Only the stream of `key` is closed. -/
theorem Evicted.of_isOpen {l' : Logger} (hEvicted : Evicted cfg l key sid l')
    {other : Nat} (hOpen : (l'.streams other).isOpen = true) :
    other ≠ sid ∧ l'.streams other = l.streams other := by
  by_cases hSid : other = sid
  · rw [hEvicted.streams, hSid, Function.update_self] at hOpen
    cases hOpen
  · rw [hEvicted.streams, Function.update_of_ne hSid]
    exact ⟨hSid, rfl⟩

theorem Evicted.wellFormed {l' : Logger} (hEvicted : Evicted cfg l key sid l')
    (h : l.WellFormed) (hStream : l.streamOf key = some sid) :
    l'.WellFormed := by
  have hMapped : ∀ other sid', l'.streamOf other = some sid' →
      other ≠ key ∧ sid' ≠ sid ∧ l.streamOf other = some sid' := by
    intro other sid' hOther
    have hNe : other ≠ key := by
      rintro rfl
      rw [hEvicted.gone] at hOther
      cases hOther
    rw [hEvicted.others other hNe] at hOther
    refine ⟨hNe, ?_, hOther⟩
    rintro rfl
    exact hNe ((h.key_eq hOther).symm.trans (h.key_eq hStream))
  refine
    { nodup := ?_
      used := ?_
      mapped := ?_
      indexed := ?_
      numbered := ?_ }
  · rw [hEvicted.used]
    exact h.nodup.erase key
  · intro other
    rw [hEvicted.used, h.nodup.mem_erase_iff, h.used]
    by_cases hNe : other = key
    · simp [hNe, hEvicted.gone]
    · simp [hNe, hEvicted.others other hNe]
  · intro other sid' hOther
    obtain ⟨_, hSid, hOld⟩ := hMapped other sid' hOther
    rw [hEvicted.streams, Function.update_of_ne hSid]
    exact h.mapped other sid' hOld
  · intro other hOpen
    obtain ⟨hSid, hSame⟩ := hEvicted.of_isOpen cfg hOpen
    rw [hSame] at hOpen ⊢
    have hIndexed := h.indexed other hOpen
    rw [hEvicted.others, hIndexed]
    intro hKey
    rw [hKey, hStream] at hIndexed
    exact hSid (Option.some.inj hIndexed).symm
  · intro other hOpen
    rw [hEvicted.opened]
    rw [(hEvicted.of_isOpen cfg hOpen).2] at hOpen
    exact h.numbered other hOpen

theorem Evicted.keeps {l' : Logger} (hEvicted : Evicted cfg l key sid l')
    (h : l.WellFormed) (hStream : l.streamOf key = some sid)
    (hFree : l.keysToMutexes key = none) : l.Keeps l' := by
  refine
    { keys := ?_
      opened := by rw [hEvicted.opened]
      heldOpen := ?_ }
  · intro other _
    rw [hEvicted.streams]
    by_cases hSid : other = sid
    · rw [hSid, Function.update_self, h.key_eq hStream]
    · rw [Function.update_of_ne hSid]
  · intro other hOpen hHeld
    have hSid : other ≠ sid := by
      rintro rfl
      rw [h.key_eq hStream, hFree] at hHeld
      cases hHeld
    rw [hEvicted.streams, Function.update_of_ne hSid]
    exact hOpen

theorem Evicted.log {l' : Logger} (hEvicted : Evicted cfg l key sid l')
    (h : l.WellFormed) (hStream : l.streamOf key = some sid) (other : Str) :
    l'.log cfg other = l.log cfg other := by
  unfold Logger.log pending
  rw [hEvicted.files, hEvicted.streams]
  by_cases hNe : other = key
  · rw [hNe, LogFiles.content_append, hEvicted.gone, hStream]
    simp
  · rw [LogFiles.content_append_of_ne _ _ fun hPath =>
      hNe (cfg.logFilePath_injective hPath), hEvicted.others other hNe]
    cases hOther : l.streamOf other with
    | none => rfl
    | some sid' =>
        have hSid : sid' ≠ sid := by
          rintro rfl
          exact hNe ((h.key_eq hOther).symm.trans (h.key_eq hStream))
        simp only [Function.update_of_ne hSid]

end Evict

/-! ## Opening -/

section Opening

variable (cfg : LogConfig) (maxOpenLogFiles : Nat) {l : Logger}

/-- What is kept when streams are closed to make room. -/
structure Room (l l' : Logger) : Prop where
  wellFormed : l'.WellFormed
  mutexes : l'.keysToMutexes = l.keysToMutexes
  keeps : l.Keeps l'
  log : ∀ key, l'.log cfg key = l.log cfg key
  unmapped : ∀ key, l.streamOf key = none → l'.streamOf key = none

theorem WellFormed.room (h : l.WellFormed) : Room cfg l l :=
  ⟨h, rfl, Keeps.refl l, fun _ => rfl, fun _ hNone => hNone⟩

theorem WellFormed.evict_room (h : l.WellFormed) {key : Str}
    (hUsed : key ∈ l.usedKeys) (hFree : l.keysToMutexes key = none) :
    Room cfg l (l.evict cfg key) := by
  obtain ⟨sid, hStream⟩ := Option.isSome_iff_exists.mp ((h.used key).mp hUsed)
  have hEvicted := h.evicted cfg hStream
  refine
    { wellFormed := hEvicted.wellFormed cfg h hStream
      mutexes := hEvicted.mutexes
      keeps := hEvicted.keeps cfg h hStream hFree
      log := hEvicted.log cfg h hStream
      unmapped := ?_ }
  intro other hNone
  by_cases hNe : other = key
  · rw [hNe, hEvicted.gone]
  · rw [hEvicted.others other hNe, hNone]

/-- The loop closes at most one stream, whose mutex is free, and tries the
mutexes of used keys only. -/
theorem WellFormed.closeOlderFd (h : l.WellFormed) (keys : List Str)
    (hUsed : ∀ key ∈ keys, key ∈ l.usedKeys) :
    Room cfg l (l.closeOlderFd cfg keys).2 ∧
      ∀ key ∈ (l.closeOlderFd cfg keys).1, key ∈ l.usedKeys := by
  induction keys with
  | nil => exact ⟨h.room cfg, fun key hMem => by cases hMem⟩
  | cons key keys ih =>
      have hKey := hUsed key (by simp)
      obtain ⟨hRoom, hTried⟩ := ih fun k hk => hUsed k (by simp [hk])
      cases hMutex : l.keysToMutexes key with
      | none =>
          simp only [Logger.closeOlderFd, hMutex, List.mem_singleton,
            forall_eq]
          exact ⟨h.evict_room cfg hKey hMutex, hKey⟩
      | some i =>
          simp only [Logger.closeOlderFd, hMutex, List.mem_cons]
          refine ⟨hRoom, ?_⟩
          rintro other (rfl | hMem)
          · exact hKey
          · exact hTried other hMem

/-- What `get_or_open_log_stream` does. -/
structure Opens (l : Logger) (key : Str) (o : Opening) : Prop where
  wellFormed : o.logger.WellFormed
  mutexes : o.logger.keysToMutexes = l.keysToMutexes
  keeps : l.Keeps o.logger
  log : ∀ other, o.logger.log cfg other = l.log cfg other
  isOpen : (o.logger.streams o.stream).isOpen = true
  ofKey : (o.logger.streams o.stream).key = key
  /-- Only the mutexes of other keys, which have a stream, are tried. -/
  tried : ∀ other ∈ o.tried, other ≠ key ∧ (l.streamOf other).isSome = true

theorem openStream_used (l : Logger) (key : Str) :
    (l.openStream cfg key).usedKeys = l.usedKeys ++ [key] := rfl

theorem openStream_self (l : Logger) (key : Str) :
    (l.openStream cfg key).streamOf key = some l.opened :=
  AList.lookup_insert _

theorem openStream_other (l : Logger) {key other : Str} (h : other ≠ key) :
    (l.openStream cfg key).streamOf other = l.streamOf other :=
  AList.lookup_insert_ne h

theorem openStream_new (l : Logger) (key : Str) :
    (l.openStream cfg key).streams l.opened = ⟨key, true, []⟩ :=
  Function.update_self _ _ _

theorem openStream_old (l : Logger) (key : Str) {sid : Nat}
    (h : sid ≠ l.opened) :
    (l.openStream cfg key).streams sid = l.streams sid :=
  Function.update_of_ne h _ _

/-- A new stream has a new number. -/
theorem WellFormed.ne_opened (h : l.WellFormed) {sid : Nat}
    (hOpen : (l.streams sid).isOpen = true) : sid ≠ l.opened :=
  Nat.ne_of_lt (h.numbered sid hOpen)

theorem WellFormed.openStream (h : l.WellFormed) {key : Str}
    (hNone : l.streamOf key = none) : (l.openStream cfg key).WellFormed := by
  refine
    { nodup := ?_
      used := ?_
      mapped := ?_
      indexed := ?_
      numbered := ?_ }
  · have hNot : key ∉ l.usedKeys := by
      rw [h.used, hNone]
      simp
    rw [openStream_used, ← List.concat_eq_append]
    exact h.nodup.concat hNot
  · intro other
    rw [openStream_used]
    by_cases hNe : other = key
    · simp [hNe, openStream_self]
    · rw [openStream_other cfg l hNe, ← h.used]
      simp [hNe]
  · intro other sid hStream
    by_cases hNe : other = key
    · rw [hNe, openStream_self, Option.some.injEq] at hStream
      rw [← hStream, openStream_new]
      exact ⟨rfl, hNe.symm⟩
    · rw [openStream_other cfg l hNe] at hStream
      rw [openStream_old cfg l key (h.ne_opened (h.isOpen hStream))]
      exact h.mapped other sid hStream
  · intro sid hOpen
    by_cases hSid : sid = l.opened
    · rw [hSid, openStream_new, openStream_self]
    · rw [openStream_old cfg l key hSid] at hOpen ⊢
      have hIndexed := h.indexed sid hOpen
      rw [openStream_other, hIndexed]
      intro hKey
      rw [hKey, hNone] at hIndexed
      cases hIndexed
  · intro sid hOpen
    show sid < l.opened + 1
    by_cases hSid : sid = l.opened
    · omega
    · rw [openStream_old cfg l key hSid] at hOpen
      have := h.numbered sid hOpen
      omega

theorem WellFormed.openStream_keeps (h : l.WellFormed) (key : Str) :
    l.Keeps (l.openStream cfg key) := by
  refine
    { keys := ?_
      opened := Nat.le_succ _
      heldOpen := ?_ }
  · intro sid hSid
    rw [openStream_old cfg l key (Nat.ne_of_lt hSid)]
  · intro sid hOpen _
    rw [openStream_old cfg l key (h.ne_opened hOpen)]
    exact hOpen

theorem WellFormed.openStream_log (h : l.WellFormed) {key : Str}
    (hNone : l.streamOf key = none) (other : Str) :
    (l.openStream cfg key).log cfg other = l.log cfg other := by
  have hFiles : (l.openStream cfg key).files =
      l.files.append (cfg.logFilePath key) [] := rfl
  unfold Logger.log pending
  rw [hFiles]
  by_cases hNe : other = key
  · rw [hNe, openStream_self, hNone, LogFiles.content_append]
    simp [openStream_new]
  · rw [LogFiles.content_append_of_ne _ _ fun hPath =>
      hNe (cfg.logFilePath_injective hPath), openStream_other cfg l hNe]
    cases hStream : l.streamOf other with
    | none => rfl
    | some sid =>
        simp only [openStream_old cfg l key (h.ne_opened (h.isOpen hStream))]

/-- **Getting a stream.** -/
theorem WellFormed.opens (h : l.WellFormed) (key : Str) :
    Opens cfg l key (l.getOrOpenLogStream cfg maxOpenLogFiles key) := by
  unfold getOrOpenLogStream
  cases hStream : l.streamOf key with
  | some sid =>
      have hOpen := h.isOpen hStream
      simp only [Option.filter, hOpen, if_true]
      exact ⟨h, rfl, Keeps.refl l, fun _ => rfl, hOpen, h.key_eq hStream,
        fun other hMem => by cases hMem⟩
  | none =>
      simp only [Option.filter]
      have hNew : ∀ (tried : List Str) (room : Logger), Room cfg l room →
          (∀ other ∈ tried, other ∈ l.usedKeys) →
          Opens cfg l key ⟨room.opened, tried, room.openStream cfg key⟩ := by
        intro tried room hRoom hTried
        have hNone := hRoom.unmapped key hStream
        have hRoomy := hRoom.wellFormed
        refine
          { wellFormed := hRoomy.openStream cfg hNone
            mutexes := hRoom.mutexes
            keeps := hRoom.keeps.trans (hRoomy.openStream_keeps cfg key)
              hRoom.mutexes h.numbered
            log := fun other =>
              (hRoomy.openStream_log cfg hNone other).trans (hRoom.log other)
            isOpen := by rw [openStream_new]
            ofKey := by rw [openStream_new]
            tried := ?_ }
        intro other hMem
        have hSome := (h.used other).mp (hTried other hMem)
        refine ⟨?_, hSome⟩
        rintro rfl
        rw [hStream] at hSome
        cases hSome
      split
      · obtain ⟨hRoom, hTried⟩ := h.closeOlderFd cfg l.usedKeys fun _ hk => hk
        exact hNew _ _ hRoom hTried
      · exact hNew [] l (h.room cfg) fun other hMem => by cases hMem

end Opening

/-! ## Writing -/

section Writing

variable (cfg : LogConfig) {l l' : Logger} {sid : Nat}

/-- An operation that concerns the contents of one stream only. -/
structure Rebuffered (l : Logger) (sid : Nat) (buffer : Str) (l' : Logger) :
    Prop where
  mutexes : l'.keysToMutexes = l.keysToMutexes
  used : l'.usedKeys = l.usedKeys
  streamOf : l'.streamOf = l.streamOf
  opened : l'.opened = l.opened
  streams : l'.streams =
    Function.update l.streams sid { l.streams sid with buffer := buffer }

theorem Rebuffered.isOpen {buffer : Str} (h : Rebuffered l sid buffer l')
    (other : Nat) : (l'.streams other).isOpen = (l.streams other).isOpen := by
  rw [h.streams]
  by_cases hSid : other = sid
  · rw [hSid, Function.update_self]
  · rw [Function.update_of_ne hSid]

theorem Rebuffered.key {buffer : Str} (h : Rebuffered l sid buffer l')
    (other : Nat) : (l'.streams other).key = (l.streams other).key := by
  rw [h.streams]
  by_cases hSid : other = sid
  · rw [hSid, Function.update_self]
  · rw [Function.update_of_ne hSid]

theorem Rebuffered.wellFormed {buffer : Str} (h : Rebuffered l sid buffer l')
    (hWellFormed : l.WellFormed) : l'.WellFormed := by
  refine
    { nodup := by rw [h.used]; exact hWellFormed.nodup
      used := ?_
      mapped := ?_
      indexed := ?_
      numbered := ?_ }
  · intro key
    rw [h.used, h.streamOf]
    exact hWellFormed.used key
  · intro key other hStream
    rw [h.isOpen, h.key]
    rw [h.streamOf] at hStream
    exact hWellFormed.mapped key other hStream
  · intro other hOpen
    rw [h.isOpen] at hOpen
    rw [h.key, h.streamOf]
    exact hWellFormed.indexed other hOpen
  · intro other hOpen
    rw [h.isOpen] at hOpen
    rw [h.opened]
    exact hWellFormed.numbered other hOpen

theorem Rebuffered.keeps {buffer : Str} (h : Rebuffered l sid buffer l') :
    l.Keeps l' := by
  refine
    { keys := fun other _ => h.key other
      opened := by rw [h.opened]
      heldOpen := ?_ }
  intro other hOpen _
  rw [h.isOpen]
  exact hOpen

/-- The buffers of the other keys are untouched. -/
theorem Rebuffered.pending_other {buffer : Str}
    (h : Rebuffered l sid buffer l') (hWellFormed : l.WellFormed) {key : Str}
    (hNe : key ≠ (l.streams sid).key) : l'.pending key = l.pending key := by
  unfold pending
  rw [h.streamOf]
  cases hStream : l.streamOf key with
  | none => rfl
  | some other =>
      have hSid : other ≠ sid := by
        rintro rfl
        exact hNe (hWellFormed.key_eq hStream).symm
      simp only [h.streams, Function.update_of_ne hSid]

theorem Rebuffered.pending_self {buffer : Str}
    (h : Rebuffered l sid buffer l') (hWellFormed : l.WellFormed)
    (hOpen : (l.streams sid).isOpen = true) :
    l'.pending (l.streams sid).key = buffer := by
  unfold pending
  rw [h.streamOf, hWellFormed.indexed sid hOpen, h.streams]
  simp only [Function.update_self]

theorem pending_of_isOpen (hWellFormed : l.WellFormed)
    (hOpen : (l.streams sid).isOpen = true) :
    l.pending (l.streams sid).key = (l.streams sid).buffer := by
  unfold pending
  rw [hWellFormed.indexed sid hOpen]

theorem write_rebuffered (hOpen : (l.streams sid).isOpen = true) (data : Str) :
    Rebuffered l sid ((l.streams sid).buffer ++ data) (l.write sid data) := by
  unfold write
  rw [if_pos hOpen]
  exact ⟨rfl, rfl, rfl, rfl, rfl⟩

/-- **Writing.** A write to an open stream appends to the log of its key. -/
theorem WellFormed.write_log (h : l.WellFormed)
    (hOpen : (l.streams sid).isOpen = true) (data key : Str) :
    (l.write sid data).log cfg key =
      l.log cfg key ++ if key = (l.streams sid).key then data else [] := by
  have hRebuffered := write_rebuffered hOpen data
  have hFiles : (l.write sid data).files = l.files := by
    unfold write
    rw [if_pos hOpen]
  unfold log
  rw [hFiles]
  by_cases hKey : key = (l.streams sid).key
  · rw [if_pos hKey, hKey, hRebuffered.pending_self h hOpen,
      pending_of_isOpen h hOpen, List.append_assoc]
  · rw [if_neg hKey, hRebuffered.pending_other h hKey, List.append_nil]

/-- A stream that passes bytes on changes no log. -/
theorem WellFormed.drain (h : l.WellFormed) (sid n : Nat) :
    (l.drain cfg sid n).WellFormed ∧
      (l.drain cfg sid n).keysToMutexes = l.keysToMutexes ∧
      l.Keeps (l.drain cfg sid n) ∧
      ∀ key, (l.drain cfg sid n).log cfg key = l.log cfg key := by
  by_cases hOpen : (l.streams sid).isOpen = true
  · have hRebuffered : Rebuffered l sid ((l.streams sid).buffer.drop n)
        (l.drain cfg sid n) := by
      unfold Logger.drain
      rw [if_pos hOpen]
      exact ⟨rfl, rfl, rfl, rfl, rfl⟩
    have hFiles : (l.drain cfg sid n).files =
        l.files.append (cfg.logFilePath (l.streams sid).key)
          ((l.streams sid).buffer.take n) := by
      unfold Logger.drain
      rw [if_pos hOpen]
    refine ⟨hRebuffered.wellFormed h, hRebuffered.mutexes, hRebuffered.keeps,
      ?_⟩
    intro key
    unfold log
    rw [hFiles]
    by_cases hKey : key = (l.streams sid).key
    · rw [hKey, LogFiles.content_append, hRebuffered.pending_self h hOpen,
        pending_of_isOpen h hOpen]
      simp
    · rw [hRebuffered.pending_other h hKey, LogFiles.content_append_of_ne _ _
        fun hPath => hKey (cfg.logFilePath_injective hPath)]
  · have hSame : l.drain cfg sid n = l := by
      unfold Logger.drain
      rw [if_neg hOpen]
    rw [hSame]
    exact ⟨h, rfl, Keeps.refl l, fun _ => rfl⟩

end Writing

/-! ## Mutexes -/

section Mutexes

variable {l : Logger}

theorem WellFormed.setMutex (h : l.WellFormed) (key : Str)
    (owner : Option Nat) : (l.setMutex key owner).WellFormed :=
  ⟨h.nodup, h.used, h.mapped, h.indexed, h.numbered⟩

@[simp] theorem setMutex_self (l : Logger) (key : Str) (owner : Option Nat) :
    (l.setMutex key owner).keysToMutexes key = owner :=
  Function.update_self _ _ _

theorem setMutex_of_ne (l : Logger) {key other : Str} (owner : Option Nat)
    (h : other ≠ key) :
    (l.setMutex key owner).keysToMutexes other = l.keysToMutexes other :=
  Function.update_of_ne h _ _

theorem setMutex_keeps (l : Logger) (key : Str) (owner : Option Nat) :
    l.Keeps (l.setMutex key owner) :=
  ⟨fun _ _ => rfl, Nat.le_refl _, fun _ hOpen _ => hOpen⟩

theorem setMutex_log (cfg : LogConfig) (l : Logger) (key : Str)
    (owner : Option Nat) (other : Str) :
    (l.setMutex key owner).log cfg other = l.log cfg other := rfl

end Mutexes

end Logger

end GDPRuler.Controller
