import GDPRuler.Controller.BrokenLogs
import GDPRuler.Controller.LogNames

/-!
# One key's log, appended and read through one stream

The stream of a key is opened once, for reading and for appending, and stays
open from call to call.  `log_decode` flushes it, puts it back to the beginning
and reads until a read fails, which leaves the stream failed at the end of the
file; `clear` and `seekp` then prepare it for the next entries.

`KeyLog` is that stream with its file, and `KeyLog.run` a run of appends,
readings and whatever may close or drain the stream in between.  Every reading
finds all the entries appended before it (`run_eq`), so only the threshold
decides what it returns.  It is applied by `decode_log_entry`, whose empty text
for a later entry the loop keeps: `snapshots_iff`.
-/

namespace GDPRuler.Controller

open GDPRuler.Verified

/-! ## Streams -/

/-- A `std::fstream` opened with `in | out | app`, and its file. -/
structure FileStream where
  /-- The file. -/
  text : Str
  /-- Written, and not yet in the file. -/
  buffer : Str
  /-- Where the next read begins. -/
  position : Nat
  /-- `eofbit` or `failbit` is set. -/
  failed : Bool
  deriving DecidableEq

namespace FileStream

/-- Opening does not empty the file. -/
def ofText (text : Str) : FileStream := ⟨text, [], 0, false⟩

/-- In append mode everything goes to the end. -/
def write (s : FileStream) (data : Str) : FileStream :=
  if s.failed then s else { s with buffer := s.buffer ++ data }

/-- The first `n` bytes written reach the file. -/
def drain (s : FileStream) (n : Nat) : FileStream :=
  { s with
    text := s.text ++ s.buffer.take n
    buffer := s.buffer.drop n }

def flush (s : FileStream) : FileStream :=
  if s.failed then s else s.drain s.buffer.length

/-- `seekg(0, beg)`: a stream that is not failed writes out what it has. -/
def seekBegin (s : FileStream) : FileStream :=
  if s.failed then s else { s.flush with position := 0 }

/-- `seekp(0, end)` -/
def seekEnd (s : FileStream) : FileStream :=
  if s.failed then s else { s.flush with position := s.flush.text.length }

def clear (s : FileStream) : FileStream := { s with failed := false }

/-- `read`: a stream that ends early gives what it has, and fails. -/
def read (s : FileStream) (n : Nat) : Str × FileStream :=
  if s.failed then ([], s)
  else
    let data := (s.text.drop s.position).take n
    (data, { s with
      position := s.position + data.length
      failed := decide (data.length < n) })

/-- A vector of the announced size; its loop ends after the first `read`,
which gives all that is asked for or fails. -/
def readLogEntry (s : FileStream) (entrySize : Nat) : Str × FileStream :=
  if entrySize = 0 then ([], s)
  else
    let (data, s) := s.read entrySize
    (data ++ List.replicate (entrySize - data.length) 0, s)

/-- The loop, for at most `n` sizes, and the stream behind it. -/
def readAndDecodeLogEntries (cfg : LogConfig) (thres : Int64) :
    Nat → FileStream → Except Exn (List Str) × FileStream
  | 0, s => (.ok [], s)
  | n + 1, s =>
      let (size, s) := s.read 8
      if s.failed then (.ok [], s)
      else
        let (entry, s) := s.readLogEntry (memoryValue size)
        match Controller.decodeLogEntry (cfg.decryptLogEntry entry) thres with
        | .error e => (.error e, s)
        | .ok decoded =>
            let (entries, s) := readAndDecodeLogEntries cfg thres n s
            (entries.map (decoded :: ·), s)

end FileStream

/-- The log of a key: no file, a file, or a file with an open stream. -/
inductive KeyLog
  | absent
  | closed (text : Str)
  | opened (s : FileStream)
  deriving DecidableEq

namespace KeyLog

/-- `get_or_open_log_stream` -/
def stream : KeyLog → FileStream
  | absent => .ofText []
  | closed text => .ofText text
  | opened s => s

/-- What `log_encoded_query` does with the entry it has encoded. -/
def append (l : KeyLog) (entry : Str) : KeyLog :=
  .opened ((l.stream.write (memoryBytes 8 entry.length)).write entry)

/-- `log_decode`; an exception leaves the stream where it is. -/
def decode (cfg : LogConfig) (thres : Int64) (l : KeyLog) :
    Except Exn (List Str) × KeyLog :=
  match l with
  | absent => (.ok [], absent)
  | l =>
      let s := l.stream.flush.seekBegin
      match s.readAndDecodeLogEntries cfg thres (s.text.length + 1) with
      | (.error e, s) => (.error e, .opened s)
      | (.ok entries, s) => (.ok entries, .opened s.clear.seekEnd)

/-- `close_older_fd`, for a key opened later. -/
def evict : KeyLog → KeyLog
  | opened s => closed (s.text ++ s.buffer)
  | l => l

/-- The stream writes some of its buffer out. -/
def drain (n : Nat) : KeyLog → KeyLog
  | opened s => .opened (s.drain n)
  | l => l

end KeyLog

/-! ## Runs -/

/-- What happens to the log of one key. -/
inductive LogStep (b : LogBuild)
  | append (w : WrittenEntry b)
  | decode (thres : Int64)
  | evict
  | drain (n : Nat)

/-- The log after a run, and what each `decode` of it returned. -/
def KeyLog.run {b : LogBuild} :
    List (LogStep b) → KeyLog → List (Except Exn (List Str)) × KeyLog
  | [], l => ([], l)
  | .append w :: steps, l => run steps (l.append w.sealed)
  | .decode thres :: steps, l =>
      let (entries, l) := l.decode b.config thres
      let (answers, l) := run steps l
      (entries :: answers, l)
  | .evict :: steps, l => run steps l.evict
  | .drain n :: steps, l => run steps (l.drain n)

/-! ## The loop on a stream and on its text -/

theorem readAndDecodeLogEntries_nil (cfg : LogConfig) (thres : Int64) (n : Nat) :
    readAndDecodeLogEntries cfg thres n [] = .ok [] := by
  cases n with
  | zero => rfl
  | succ n => rfl

/-- The first entry of a text, and the others. -/
private theorem readAndDecodeLogEntries_succ (cfg : LogConfig) (thres : Int64)
    (n : Nat) {text : Str} (hSize : ¬ text.length < 8) :
    readAndDecodeLogEntries cfg thres (n + 1) text =
      decodeLogEntry (cfg.decryptLogEntry
        (readLogEntry (text.drop 8) (memoryValue (text.take 8)))) thres >>=
      fun decoded =>
        (readAndDecodeLogEntries cfg thres n ((text.drop 8).drop
          (memoryValue (text.take 8)))).map (decoded :: ·) := by
  rw [readAndDecodeLogEntries, if_neg hSize]
  rfl

namespace FileStream

variable (cfg : LogConfig) (thres : Int64) {s : FileStream}

/-- What the next reads find. -/
def rest (s : FileStream) : Str := s.text.drop s.position

/-- `s'` is `s` behind a read of `n` bytes. -/
structure Consumed (s : FileStream) (n : Nat) (s' : FileStream) : Prop where
  text : s'.text = s.text
  buffer : s'.buffer = s.buffer
  rest : s'.rest = s.rest.drop n
  failed : s'.failed = decide (s.rest.length < n)

theorem read_consumed (hGood : s.failed = false) (n : Nat) :
    (s.read n).1 = s.rest.take n ∧ s.Consumed n (s.read n).2 := by
  have hRead : s.read n = (s.rest.take n, { s with
      position := s.position + (s.rest.take n).length
      failed := decide ((s.rest.take n).length < n) }) := by
    simp [read, hGood, rest]
  rw [hRead]
  refine ⟨rfl, rfl, rfl, ?_, ?_⟩
  · show s.text.drop (s.position + (s.rest.take n).length) = s.rest.drop n
    rw [← List.drop_drop]
    show s.rest.drop (s.rest.take n).length = s.rest.drop n
    rw [List.length_take]
    by_cases hShort : s.rest.length ≤ n
    · rw [Nat.min_eq_right hShort, List.drop_length,
        List.drop_eq_nil_of_le hShort]
    · rw [Nat.min_eq_left (by omega)]
  · show decide ((s.rest.take n).length < n) = decide (s.rest.length < n)
    rw [List.length_take]
    exact decide_eq_decide.mpr (by omega)

/-- An entry is read as from the text, zeros in the place of what is missing. -/
theorem readLogEntry_consumed (hGood : s.failed = false) (entrySize : Nat) :
    (s.readLogEntry entrySize).1 =
        Controller.readLogEntry s.rest entrySize ∧
      s.Consumed entrySize (s.readLogEntry entrySize).2 := by
  by_cases hZero : entrySize = 0
  · subst hZero
    refine ⟨by simp [readLogEntry, Controller.readLogEntry], rfl, rfl, rfl, ?_⟩
    simpa [readLogEntry] using hGood
  · obtain ⟨hData, hConsumed⟩ := read_consumed hGood entrySize
    rw [readLogEntry, if_neg hZero]
    refine ⟨?_, hConsumed⟩
    have hZeros : entrySize - (s.rest.take entrySize).length =
        entrySize - s.rest.length := by
      rw [List.length_take]
      omega
    show (s.read entrySize).1 ++
        List.replicate (entrySize - (s.read entrySize).1.length) 0 = _
    rw [hData, hZeros, Controller.readLogEntry]

/-- A failed stream gives no size. -/
theorem readAndDecodeLogEntries_of_failed (h : s.failed = true) (n : Nat) :
    s.readAndDecodeLogEntries cfg thres n = (.ok [], s) := by
  cases n with
  | zero => rfl
  | succ n => simp [readAndDecodeLogEntries, read, h]

/-- The loop returns what it returns on the text that is left, and keeps the
file. -/
structure ReadAsText (n : Nat) (s : FileStream) : Prop where
  entries : (s.readAndDecodeLogEntries cfg thres n).1 =
    Controller.readAndDecodeLogEntries cfg thres n s.rest
  text : (s.readAndDecodeLogEntries cfg thres n).2.text = s.text
  buffer : (s.readAndDecodeLogEntries cfg thres n).2.buffer = s.buffer

variable {cfg thres} in
/-- A read that fails is followed by none, and leaves no text. -/
private theorem readAsText_behind {s' : FileStream} {m n : Nat}
    (hBehind : s.Consumed m s')
    (h : s'.failed = false → s'.ReadAsText cfg thres n) :
    s'.ReadAsText cfg thres n := by
  cases hFailed : s'.failed with
  | false => exact h hFailed
  | true =>
      have hLoop := readAndDecodeLogEntries_of_failed cfg thres hFailed n
      have hNone : s'.rest = [] := by
        rw [hBehind.failed, decide_eq_true_eq] at hFailed
        rw [hBehind.rest, List.drop_eq_nil_of_le (Nat.le_of_lt hFailed)]
      refine ⟨?_, by rw [hLoop], by rw [hLoop]⟩
      rw [hLoop, hNone, readAndDecodeLogEntries_nil]

/-- The loop ends where no size is left to read. -/
private theorem readAsText_short (hGood : s.failed = false)
    (hShort : s.rest.length < 8) (n : Nat) :
    s.ReadAsText cfg thres (n + 1) := by
  obtain ⟨-, hHeader⟩ := read_consumed hGood 8
  have hFailed : (s.read 8).2.failed = true := by
    rw [hHeader.failed]
    exact decide_eq_true hShort
  have hLoop : s.readAndDecodeLogEntries cfg thres (n + 1) =
      (.ok [], (s.read 8).2) := by
    rw [readAndDecodeLogEntries]
    simp only [if_pos hFailed]
  refine ⟨?_, by rw [hLoop, hHeader.text], by rw [hLoop, hHeader.buffer]⟩
  rw [hLoop, Controller.readAndDecodeLogEntries, if_pos hShort]

/-- **The stream is read as its text is**, and keeps it. -/
theorem readAndDecodeLogEntries_eq (hGood : s.failed = false) (n : Nat) :
    s.ReadAsText cfg thres n := by
  induction n generalizing s with
  | zero => exact ⟨rfl, rfl, rfl⟩
  | succ n ih =>
      by_cases hShort : s.rest.length < 8
      · exact readAsText_short cfg thres hGood hShort n
      obtain ⟨hSize, hHeader⟩ := read_consumed hGood 8
      have hStill : (s.read 8).2.failed = false := by
        rw [hHeader.failed]
        exact decide_eq_false hShort
      generalize hLength : memoryValue (s.rest.take 8) = size
      obtain ⟨hEntry, hBody⟩ := readLogEntry_consumed hStill size
      rw [hHeader.rest] at hEntry
      have hLoop := readAsText_behind hBody fun hFailed => ih hFailed
      have hText := hBody.text.trans hHeader.text
      have hBuffer := hBody.buffer.trans hHeader.buffer
      have hEntries := hLoop.entries
      rw [hBody.rest, hHeader.rest] at hEntries
      have hStep := readAndDecodeLogEntries_succ cfg thres n hShort
      rw [hLength] at hStep
      generalize hBehind : (s.read 8).2.readLogEntry size = behind at *
      cases hDecoded : Controller.decodeLogEntry (cfg.decryptLogEntry
          (Controller.readLogEntry (s.rest.drop 8) size)) thres with
      | error e =>
          have hStream : s.readAndDecodeLogEntries cfg thres (n + 1) =
              (.error e, behind.2) := by
            rw [readAndDecodeLogEntries]
            simp only [hStill, hSize, hLength, hBehind, hEntry, hDecoded,
              Bool.false_eq_true, if_false]
          refine ⟨?_, by rw [hStream, hText], by rw [hStream, hBuffer]⟩
          rw [hStream, hStep, hDecoded]
          rfl
      | ok decoded =>
          have hStream : s.readAndDecodeLogEntries cfg thres (n + 1) =
              ((behind.2.readAndDecodeLogEntries cfg thres n).1.map (decoded :: ·),
                (behind.2.readAndDecodeLogEntries cfg thres n).2) := by
            rw [readAndDecodeLogEntries]
            simp only [hStill, hSize, hLength, hBehind, hEntry, hDecoded,
              Bool.false_eq_true, if_false]
          refine ⟨?_, ?_, ?_⟩
          · rw [hStream, hStep, hDecoded]
            exact congrArg (Except.map _) hEntries
          · rw [hStream]
            exact hLoop.text.trans hText
          · rw [hStream]
            exact hLoop.buffer.trans hBuffer

end FileStream

/-- A size for every byte is more than a text can hold. -/
theorem readAndDecodeLogEntries_fuel (cfg : LogConfig) (thres : Int64)
    {n m : Nat} {text : Str} (hn : text.length ≤ n) (hm : text.length ≤ m) :
    readAndDecodeLogEntries cfg thres n text =
      readAndDecodeLogEntries cfg thres m text := by
  induction n generalizing m text with
  | zero =>
      obtain rfl : text = [] := List.eq_nil_of_length_eq_zero (by omega)
      rw [readAndDecodeLogEntries_nil, readAndDecodeLogEntries_nil]
  | succ n ih =>
      cases m with
      | zero =>
          obtain rfl : text = [] := List.eq_nil_of_length_eq_zero (by omega)
          rw [readAndDecodeLogEntries_nil, readAndDecodeLogEntries_nil]
      | succ m =>
          rw [readAndDecodeLogEntries, readAndDecodeLogEntries]
          by_cases hShort : text.length < 8
          · rw [if_pos hShort, if_pos hShort]
          · have hRest : ((text.drop 8).drop (memoryValue (text.take 8))).length =
                text.length - 8 - memoryValue (text.take 8) := by
              rw [List.length_drop, List.length_drop]
            have hSame : readAndDecodeLogEntries cfg thres n
                ((text.drop 8).drop (memoryValue (text.take 8))) =
                  readAndDecodeLogEntries cfg thres m
                    ((text.drop 8).drop (memoryValue (text.take 8))) :=
              ih (by omega) (by omega)
            rw [if_neg hShort, if_neg hShort]
            simp only [hSame]

/-- Flushed and put back, a stream is as if just opened. -/
theorem FileStream.rewind_eq {s : FileStream} (hGood : s.failed = false) :
    s.flush.seekBegin = .ofText (s.text ++ s.buffer) := by
  simp [flush, seekBegin, drain, ofText, hGood]

/-- A reading of a stream that is not failed reads all of its file. -/
theorem KeyLog.decode_eq (cfg : LogConfig) (thres : Int64) {l : KeyLog}
    {text : Str} (hFile : l ≠ .absent) (hGood : l.stream.failed = false)
    (hText : l.stream.text ++ l.stream.buffer = text) :
    l.decode cfg thres =
      match (FileStream.ofText text).readAndDecodeLogEntries cfg thres
          (text.length + 1) with
      | (.error e, s) => (.error e, .opened s)
      | (.ok entries, s) => (.ok entries, .opened s.clear.seekEnd) := by
  have hRewound := FileStream.rewind_eq hGood
  rw [hText] at hRewound
  cases l with
  | absent => exact absurd rfl hFile
  | closed text => simp only [decode, hRewound, FileStream.ofText]
  | opened s => simp only [decode, hRewound, FileStream.ofText]

/-- What is read through a stream is what `logDecode` reads from the files. -/
theorem KeyLog.decode_closed (cfg : LogConfig) (thres : Int64) {key text : Str}
    {files : LogFiles} (hKey : NamesItsLog key)
    (hFile : files.content (cfg.logFilePath key) = some text) :
    ((closed text).decode cfg thres).1 =
      (logDecode cfg (cfg.logFilePath key) thres files).1 := by
  have hPath := (extractKeyFromFilename_logFilePath_iff cfg key).mpr hKey
  have hLoop := ((FileStream.ofText text).readAndDecodeLogEntries_eq
    cfg thres rfl (text.length + 1)).1
  have hFuel := readAndDecodeLogEntries_fuel cfg thres
    (Nat.le_succ text.length) (Nat.le_refl text.length)
  have hDecode : ((closed text).decode cfg thres).1 =
      ((FileStream.ofText text).readAndDecodeLogEntries cfg thres
        (text.length + 1)).1 := by
    rw [decode_eq (l := closed text) cfg thres (by simp) rfl
      (List.append_nil text)]
    cases (FileStream.ofText text).readAndDecodeLogEntries cfg thres
        (text.length + 1) with
    | mk result s => cases result <;> rfl
  have hOpened : (files.append (cfg.logFilePath key) []).content
      (cfg.logFilePath key) = some text := by
    rw [LogFiles.content_append, hFile, Option.getD_some, List.append_nil]
  rw [hDecode, hLoop, logDecode, hFile, hPath]
  simp only [hOpened, Option.getD_some]
  exact hFuel

/-! ## What an entry is decoded to -/

/-- The name of the operation that is stored for a command. -/
def operationName (cmd : Str) : Str :=
  convertEnumToOperation (convertOperationToEnum cmd).code

private theorem operationName_decoded (cmd : Str) (valid : Bool) :
    convertEnumToOperation ((operationResult cmd valid >>> 1) &&&
        operationMask) = operationName cmd ∧
      (operationResult cmd valid &&& 1 ≠ 0 ↔ valid = true) := by
  unfold operationName operationResult
  cases convertOperationToEnum cmd <;> cases valid <;> decide

/-- The decoding of a call without a new value. -/
def LoggedCall.report (call : LoggedCall) : Str :=
  logReport call.readings.timestamp call.userKey (operationName call.cmd)
    call.valid

/-- No new value, and no comma in the user key. -/
structure LoggedCall.Plain (call : LoggedCall) : Prop where
  newVal : call.newVal = []
  userKey : comma ∉ call.userKey

/-- A plain entry is decoded to its report, or to the empty text if it is
later than the threshold. -/
theorem LoggedCall.Plain.decodeLogEntry_entry {call : LoggedCall}
    (h : call.Plain) (thres : Int64) :
    decodeLogEntry call.entry thres =
      .ok (if thres < call.readings.timestamp then [] else call.report) := by
  obtain ⟨hOper, hValid⟩ := operationName_decoded call.cmd call.valid
  have hOp : comma ∉ [operationResult call.cmd call.valid] := by
    simpa using (operationResult_ne_comma call.cmd call.valid).symm
  rw [LoggedCall.entry, h.newVal, decodeLogEntry_eq, readInt64_encodeLogEntry,
    drop_encodeLogEntry]
  by_cases hLate : thres < call.readings.timestamp
  · rw [if_pos hLate, if_pos hLate]
  · rw [if_neg hLate, if_neg hLate, decodeFields, splitEntry_append h.userKey]
    simp only
    rw [splitEntry_append hOp]
    simp only [List.headD_cons, hOper, hValid, Bool.decide_eq_true, if_true]
    rfl

/-- What `log_decode` returns for the entries of a log. -/
def decodedAll {b : LogBuild} (thres : Int64) (written : List (WrittenEntry b)) :
    List Str :=
  written.map fun w =>
    if thres < w.call.readings.timestamp then [] else w.call.report

/-- What the regulator asks for: the reports of the entries that are not later
than the threshold. -/
def snapshot {b : LogBuild} (thres : Int64) (written : List (WrittenEntry b)) :
    List Str :=
  (written.filter fun w => w.call.readings.timestamp ≤ thres).map fun w =>
    w.call.report

/-- No entry is later than the threshold. -/
def NoneLater {b : LogBuild} (thres : Int64) (written : List (WrittenEntry b)) :
    Prop :=
  ∀ w ∈ written, w.call.readings.timestamp ≤ thres

/-- One text too many for every later entry. -/
theorem decodedAll_eq_snapshot_iff {b : LogBuild} (thres : Int64)
    (written : List (WrittenEntry b)) :
    decodedAll thres written = snapshot thres written ↔
      NoneLater thres written := by
  constructor
  · intro h w hMem
    have hLength := congrArg List.length h
    rw [decodedAll, snapshot, List.length_map, List.length_map] at hLength
    have hAll := List.length_filter_eq_length_iff.mp hLength.symm w hMem
    simpa using hAll
  · intro h
    have hAll : (written.filter fun w =>
        decide (w.call.readings.timestamp ≤ thres)) = written :=
      List.filter_eq_self.mpr fun w hMem => decide_eq_true (h w hMem)
    rw [decodedAll, snapshot, hAll]
    refine List.map_congr_left fun w hMem => if_neg ?_
    exact Int64.not_lt.mpr (h w hMem)

/-! ## What a log holds -/

section Holds

variable {b : LogBuild} {written : List (WrittenEntry b)} {thres : Int64}

/-- The entries written so far are in the file or in the stream's buffer, and
the stream is ready for more. -/
def KeyLog.Holds (written : List (WrittenEntry b)) : KeyLog → Prop
  | .absent => written = []
  | .closed text => text = writtenFrames written
  | .opened s => s.text ++ s.buffer = writtenFrames written ∧ s.failed = false

theorem KeyLog.Holds.stream {l : KeyLog} (h : l.Holds written) :
    l.stream.text ++ l.stream.buffer = writtenFrames written ∧
      l.stream.failed = false := by
  cases l with
  | absent =>
      obtain rfl : written = [] := h
      exact ⟨rfl, rfl⟩
  | closed text =>
      obtain rfl : text = writtenFrames written := h
      exact ⟨List.append_nil _, rfl⟩
  | opened s => exact h

private theorem writtenFrames_concat (w : WrittenEntry b) :
    writtenFrames (written ++ [w]) =
      writtenFrames written ++ frame w.sealed := by
  simp [writtenFrames]

/-- An entry goes behind the others. -/
theorem KeyLog.Holds.append {l : KeyLog} (h : l.Holds written)
    (w : WrittenEntry b) : (l.append w.sealed).Holds (written ++ [w]) := by
  obtain ⟨hText, hGood⟩ := h.stream
  refine ⟨?_, by simp [FileStream.write, hGood]⟩
  rw [writtenFrames_concat, ← hText]
  simp [FileStream.write, hGood, frame]

theorem KeyLog.Holds.evict {l : KeyLog} (h : l.Holds written) :
    l.evict.Holds written := by
  cases l with
  | absent => exact h
  | closed text => exact h
  | opened s => exact h.1

theorem KeyLog.Holds.drain {l : KeyLog} (h : l.Holds written) (n : Nat) :
    (l.drain n).Holds written := by
  cases l with
  | absent => exact h
  | closed text => exact h
  | opened s =>
      obtain ⟨hText, hGood⟩ := h
      refine ⟨?_, hGood⟩
      show (s.text ++ s.buffer.take n) ++ s.buffer.drop n = _
      rw [List.append_assoc, List.take_append_drop, hText]

/-- The frames of plain entries, read from the beginning. -/
theorem readAndDecodeLogEntries_writtenFrames
    (hPlain : ∀ w ∈ written, w.call.Plain) :
    readAndDecodeLogEntries b.config thres ((writtenFrames written).length + 1)
        (writtenFrames written) = .ok (decodedAll thres written) := by
  have hPrintable : ∀ w ∈ written, Printable thres w.call.entry := by
    intro w hMem
    exact exists_decodeLogEntry_iff.mp
      ⟨_, (hPlain w hMem).decodeLogEntry_entry thres⟩
  have hWritten := length_le_length_writtenFrames written
  obtain ⟨fuel, hFuel⟩ : ∃ fuel,
      (writtenFrames written).length + 1 = written.length + fuel :=
    ⟨(writtenFrames written).length + 1 - written.length, by omega⟩
  obtain ⟨decodings, hDecodings, hTrace⟩ :=
    readTrace_writtenFrames written hPrintable fuel []
  have hAll : decodings = decodedAll thres written := by
    clear hTrace hFuel hWritten hPrintable
    induction hDecodings with
    | nil => rfl
    | @cons w text written decodings hText _ ih =>
        rw [List.forall_mem_cons] at hPlain
        rw [hPlain.1.decodeLogEntry_entry thres, Except.ok.injEq] at hText
        rw [decodedAll, List.map_cons, ← hText, ih hPlain.2, decodedAll]
  rw [List.append_nil] at hTrace
  rw [← readTrace_result, hFuel, hTrace, readTrace_of_short _ (by simp), hAll]
  simp [Except.map]

/-- **A reading finds every entry**, and leaves the log as it was. -/
theorem KeyLog.Holds.decode {l : KeyLog} (h : l.Holds written)
    (hPlain : ∀ w ∈ written, w.call.Plain) (thres : Int64) :
    (l.decode b.config thres).1 = .ok (decodedAll thres written) ∧
      (l.decode b.config thres).2.Holds written := by
  by_cases hAbsent : l = .absent
  · subst hAbsent
    obtain rfl : written = [] := h
    exact ⟨rfl, rfl⟩
  obtain ⟨hText, hGood⟩ := h.stream
  obtain ⟨hEntries, hKept, hBuffer⟩ :=
    (FileStream.ofText (writtenFrames written)).readAndDecodeLogEntries_eq
      b.config thres rfl
      ((writtenFrames written).length + 1)
  have hAll : ((FileStream.ofText (writtenFrames written)).readAndDecodeLogEntries
      b.config thres ((writtenFrames written).length + 1)).1 =
        .ok (decodedAll thres written) :=
    hEntries.trans (readAndDecodeLogEntries_writtenFrames hPlain)
  rw [KeyLog.decode_eq b.config thres hAbsent hGood hText]
  cases hLoop : (FileStream.ofText (writtenFrames written)).readAndDecodeLogEntries
      b.config thres ((writtenFrames written).length + 1) with
  | mk result s =>
      rw [hLoop] at hAll hKept hBuffer
      obtain rfl : result = .ok (decodedAll thres written) := hAll
      have hStream : s.text ++ s.buffer = writtenFrames written := by
        rw [hKept, hBuffer]
        exact List.append_nil _
      refine ⟨rfl, ?_, ?_⟩
      · show s.clear.seekEnd.text ++ s.clear.seekEnd.buffer = _
        simp [FileStream.clear, FileStream.seekEnd, FileStream.flush,
          FileStream.drain, hStream]
      · simp [FileStream.clear, FileStream.seekEnd, FileStream.flush,
          FileStream.drain]

/-! ## Every run -/

/-- The readings of a run: the threshold, and the entries appended before. -/
def readingsOf : List (WrittenEntry b) → List (LogStep b) →
    List (Int64 × List (WrittenEntry b))
  | _, [] => []
  | written, .append w :: steps => readingsOf (written ++ [w]) steps
  | written, .decode thres :: steps => (thres, written) :: readingsOf written steps
  | written, .evict :: steps => readingsOf written steps
  | written, .drain _ :: steps => readingsOf written steps

/-- **Nothing is lost between the readings**: each returns a decoding for every
entry appended before it. -/
theorem KeyLog.Holds.run_eq {steps : List (LogStep b)} {l : KeyLog}
    (h : l.Holds written) (hWritten : ∀ w ∈ written, w.call.Plain)
    (hPlain : ∀ w, .append w ∈ steps → w.call.Plain) :
    (l.run steps).1 = (readingsOf written steps).map fun reading =>
      .ok (decodedAll reading.1 reading.2) := by
  induction steps generalizing l written with
  | nil => rfl
  | cons step steps ih =>
      have hLater : ∀ w, .append w ∈ steps → w.call.Plain := fun w hMem =>
        hPlain w (List.mem_cons_of_mem _ hMem)
      cases step with
      | append w =>
          refine ih (h.append w) ?_ hLater
          intro w' hMem
          rcases List.mem_append.mp hMem with hOld | hNew
          · exact hWritten w' hOld
          · rw [List.mem_singleton.mp hNew]
            exact hPlain w List.mem_cons_self
      | decode thres =>
          obtain ⟨hEntries, hHolds⟩ := h.decode hWritten thres
          show (l.decode b.config thres).1 ::
              ((l.decode b.config thres).2.run steps).1 = _
          rw [hEntries, ih hHolds hWritten hLater]
          rfl
      | evict => exact ih h.evict hWritten hLater
      | drain n => exact ih (h.drain n) hWritten hLater

/-- **Log snapshots.** In a run from a key without a log, every reading returns
the reports of the entries up to its threshold exactly if no reading finds a
later entry. -/
theorem snapshots_iff (steps : List (LogStep b))
    (hPlain : ∀ w, .append w ∈ steps → w.call.Plain) :
    ((KeyLog.absent.run steps).1 = (readingsOf [] steps).map fun reading =>
        .ok (snapshot reading.1 reading.2)) ↔
      ∀ reading ∈ readingsOf [] steps, NoneLater reading.1 reading.2 := by
  have hFirst : KeyLog.absent.Holds ([] : List (WrittenEntry b)) := rfl
  rw [hFirst.run_eq (by simp) hPlain, List.map_inj_left]
  refine forall₂_congr fun reading _ => ?_
  rw [Except.ok.injEq]
  exact decodedAll_eq_snapshot_iff reading.1 reading.2

end Holds

/-- A get by bob, a little later than alice's. -/
def gotByBob : WrittenEntry plainBuild :=
  .plain ⟨⟨5, []⟩, lit "bob", lit "get", false, []⟩ (by decide +kernel)

private theorem plain_gots : ∀ w ∈ [gotByAlice, gotByBob], w.call.Plain := by
  intro w hMem
  rcases List.mem_cons.mp hMem with rfl | hMem
  · exact ⟨rfl, by decide⟩
  · rw [List.mem_singleton.mp hMem]
    exact ⟨rfl, by decide⟩

/-- `snapshots_iff` at two readings, the stream being closed between them. -/
theorem snapshots_iff_gots :
    let steps : List (LogStep plainBuild) :=
      [.append gotByAlice, .decode 3, .drain 7, .evict, .append gotByBob,
        .decode 9]
    ((KeyLog.absent.run steps).1 = (readingsOf [] steps).map fun reading =>
        .ok (snapshot reading.1 reading.2)) ↔
      ∀ reading ∈ readingsOf [] steps, NoneLater reading.1 reading.2 :=
  snapshots_iff _ fun w hMem => plain_gots w (by simpa using hMem)

/-- The log of both gets, read at a threshold between them: for bob's there is
an empty string. -/
theorem later_entry_returned :
    (KeyLog.absent.run (b := plainBuild)
        [.append gotByAlice, .append gotByBob, .decode 3]).1 =
      [.ok [gotByAlice.call.report, []]] ∧
    ¬ ∀ steps : List (LogStep plainBuild),
      (∀ w, .append w ∈ steps → w.call.Plain) →
        (KeyLog.absent.run steps).1 = (readingsOf [] steps).map fun reading =>
          .ok (snapshot reading.1 reading.2) := by
  have hFirst : KeyLog.absent.Holds ([] : List (WrittenEntry plainBuild)) := rfl
  have hPlain : ∀ w, .append w ∈ [LogStep.append gotByAlice,
      .append gotByBob, .decode 3] → w.call.Plain :=
    fun w hMem => plain_gots w (by simpa using hMem)
  have hRun := hFirst.run_eq (by simp) hPlain
  refine ⟨hRun.trans ?_, fun hAll => ?_⟩
  · show [Except.ok (decodedAll 3 [gotByAlice, gotByBob])] = _
    rfl
  · have hReturned := (hAll _ hPlain).symm.trans hRun
    have hSame : decodedAll 3 [gotByAlice, gotByBob] =
        snapshot 3 [gotByAlice, gotByBob] :=
      (Except.ok.inj (List.cons.inj hReturned).1).symm
    have hNone := (decodedAll_eq_snapshot_iff 3 _).mp hSame
    exact absurd (hNone gotByBob (by simp)) (by decide)

end GDPRuler.Controller
