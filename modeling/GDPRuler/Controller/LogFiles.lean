import GDPRuler.Controller.LogEntry
import GDPRuler.Controller.KvClient

/-!
# Log files

One request at a time, the logger appends one frame, an eight-byte size and
the entry, to the log file of the request's key, and the regulator reads a
file back frame by frame.  Which streams are open and which thread holds which
lock matters only when calls overlap, and is the subject of
`GDPRuler.Controller.LoggerThreads`.

A directory is the list of its files, oldest first; the order in which
`directory_iterator` lists them is not specified.
-/

namespace GDPRuler.Controller

open GDPRuler.Verified.Delim

/-- Path and contents of every file. -/
abbrev LogFiles := List (Str × Str)

/-- The logger's settings; the cipher works under the log key. -/
structure LogConfig where
  logsDir : Str
  cipher : Option Cipher

def logFileExtension : Str := lit ".log"

/-- `'/'` -/
def slash : UInt8 := 47

def LogConfig.logFilePath (cfg : LogConfig) (key : Str) : Str :=
  cfg.logsDir ++ [slash] ++ key ++ logFileExtension

theorem LogConfig.logFilePath_injective (cfg : LogConfig) {key key' : Str}
    (h : cfg.logFilePath key = cfg.logFilePath key') : key = key' := by
  unfold logFilePath at h
  exact List.append_cancel_left (List.append_cancel_right h)

namespace LogFiles

def content (files : LogFiles) (path : Str) : Option Str := files.lookup path

/-- Write at the end of a file; opening creates one that does not exist. -/
def append (files : LogFiles) (path data : Str) : LogFiles :=
  match files with
  | [] => [(path, data)]
  | (path', old) :: rest =>
      if path = path' then (path', old ++ data) :: rest
      else (path', old) :: append rest path data

theorem content_append (files : LogFiles) (path data : Str) :
    (files.append path data).content path =
      some ((files.content path).getD [] ++ data) := by
  induction files with
  | nil => simp [append, content]
  | cons file rest ih =>
      obtain ⟨path', old⟩ := file
      by_cases hPath : path = path'
      · simp [append, content, hPath]
      · have hBeq : (path == path') = false := by simpa using hPath
        simp only [content] at ih
        simp [append, content, hPath, List.lookup_cons, hBeq, ih]

theorem content_append_of_ne (files : LogFiles) {path other : Str} (data : Str)
    (h : other ≠ path) :
    (files.append path data).content other = files.content other := by
  induction files with
  | nil =>
      have hBeq : (other == path) = false := by simpa using h
      simp [append, content, List.lookup_cons, hBeq]
  | cons file rest ih =>
      obtain ⟨path', old⟩ := file
      by_cases hPath : path = path'
      · have hBeq : (other == path') = false := by simpa [← hPath] using h
        simp [append, content, hPath, List.lookup_cons, hBeq]
      · simp only [content] at ih
        simp only [append, hPath, if_false, content, List.lookup_cons, ih]

end LogFiles

/-! ## Writing -/

/-- The size of an entry in eight bytes, and the entry. -/
def frame (entry : Str) : Str := memoryBytes 8 entry.length ++ entry

/-- The entry as written: encrypted, if the build encrypts. -/
def LogConfig.seal (cfg : LogConfig) (iv entry : Str) : Option Str :=
  match cfg.cipher with
  | none => some entry
  | some c => c.encrypt iv entry

/-- The clock and the random vector of one logger call. -/
structure LogReadings where
  timestamp : Int64
  iv : Str
  deriving DecidableEq

/-- One call of the logger, not overlapping any other: the file of the key is
opened, and one frame is written if the encryption succeeds. -/
def logEncodedQuery (cfg : LogConfig) (r : LogReadings) (q : Query)
    (p : DefaultPolicy) (valid : Bool) (newVal : Str) (files : LogFiles) :
    LogFiles :=
  let entry := encodeLogEntry r.timestamp (q.userKey.getD p.userKey) q.cmd valid
    newVal
  match cfg.seal r.iv entry with
  | some entry => files.append (cfg.logFilePath q.key) (frame entry)
  | none => files.append (cfg.logFilePath q.key) []

/-! ## Reading -/

/-- What stands between the last `'/'` and the extension. -/
def extractKeyFromFilename (filename : Str) : Str :=
  let name := match cutLast slash filename with
    | some (_, name) => name
    | none => filename
  match (List.range name.length).find? fun i =>
      logFileExtension.isPrefixOf (name.drop i) with
  | some i => name.take i
  | none => name

/-- An entry as decoded: decrypted, if the build encrypts. -/
def LogConfig.decryptLogEntry (cfg : LogConfig) (entry : Str) : Str :=
  match cfg.cipher with
  | none => entry
  | some c => (c.decrypt entry).getD []

/-- Frame after frame of a file.  The vector an entry is read into has the
announced size also where the file ends early. -/
def readAndDecodeLogEntries (cfg : LogConfig) (timestampThres : Int64) :
    Nat → Str → Except Exn (List Str)
  | 0, _ => .ok []
  | n + 1, text =>
      if text.length < 8 then .ok []
      else do
        let entrySize := memoryValue (text.take 8)
        let rest := text.drop 8
        let entry := rest.take entrySize ++
          List.replicate (entrySize - rest.length) 0
        let decoded ←
          decodeLogEntry (cfg.decryptLogEntry entry) timestampThres
        let entries ← readAndDecodeLogEntries cfg timestampThres n
          (rest.drop entrySize)
        return decoded :: entries

/-- The entries of a log; the file read is that of the key extracted from the
name, opened for writing as well. -/
def logDecode (cfg : LogConfig) (logName : Str) (timestampThres : Int64)
    (files : LogFiles) : Except Exn (List Str) × LogFiles :=
  match files.content logName with
  | none => (.ok [], files)
  | some _ =>
      let path := cfg.logFilePath (extractKeyFromFilename logName)
      let files := files.append path []
      let text := (files.content path).getD []
      (readAndDecodeLogEntries cfg timestampThres text.length text, files)

end GDPRuler.Controller
