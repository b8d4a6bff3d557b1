import GDPRuler.Controller.CipherIntegrity
import GDPRuler.Controller.History
import GDPRuler.Controller.LogRoundTrip
import GDPRuler.Verified.Framing

/-!
# Log files with a broken tail

A crash while a frame is written leaves a proper prefix of it at the end of the
file.  The reading loop compares the size of the entry it read with the
announced one, but the vector it reads into has the announced size from the
start, so the comparison never fails and no error is ever reported
(`readError_not_mem`).  A tail shorter than a size ends the loop in silence,
and any longer one is filled up with zeros and passed on (`readTrace_torn`).

So a file is handled as it should be exactly if its last frame is whole, given
that the decoder can print the entries before it (`tailHandled_iff`).
-/

namespace GDPRuler.Controller

open GDPRuler.Verified GDPRuler.Verified.Delim

/-! ## Reading with a trace -/

/-- What the reading loop does with an entry: it passes it on, or, in an
encrypting build, its decryption (the empty string if there is none), or it
reports that it could not read it. -/
inductive LogEvent
  | passed (entry : Str) (plaintext : Option Str)
  | readError
  deriving DecidableEq

structure LogTrace where
  events : List LogEvent
  result : Except Exn (List Str)

/-- A vector of the announced size, its front read from the file. -/
def readLogEntry (rest : Str) (entrySize : Nat) : Str :=
  rest.take entrySize ++ List.replicate (entrySize - rest.length) 0

/-- The decryption of an entry, if it succeeds. -/
def LogConfig.decrypted (cfg : LogConfig) (entry : Str) : Option Str :=
  match cfg.cipher with
  | none => some entry
  | some c => c.decrypt entry

/-- An entry is passed on, and unless that raises the loop continues. -/
def LogTrace.passed (cfg : LogConfig) (thres : Int64) (entry : Str)
    (next : LogTrace) : LogTrace :=
  let plaintext := cfg.decrypted entry
  match decodeLogEntry (plaintext.getD []) thres with
  | .error e => ⟨[.passed entry plaintext], .error e⟩
  | .ok decoded =>
      ⟨.passed entry plaintext :: next.events,
        next.result.map (decoded :: ·)⟩

/-- The loop of `read_and_decode_log_entries` with the comparison of sizes. -/
def readTrace (cfg : LogConfig) (thres : Int64) : Nat → Str → LogTrace
  | 0, _ => ⟨[], .ok []⟩
  | n + 1, text =>
      if text.length < 8 then ⟨[], .ok []⟩
      else
        let entrySize := memoryValue (text.take 8)
        let rest := text.drop 8
        let entry := readLogEntry rest entrySize
        if entry.length = entrySize then
          .passed cfg thres entry
            (readTrace cfg thres n (rest.drop entrySize))
        else ⟨[.readError], .ok []⟩

/-- `log_decode` with the trace of its loop. -/
def logTrace (cfg : LogConfig) (logName : Str) (thres : Int64)
    (files : LogFiles) : LogTrace :=
  match files.content logName with
  | none => ⟨[], .ok []⟩
  | some _ =>
      let path := cfg.logFilePath (extractKeyFromFilename logName)
      let text := ((files.append path []).content path).getD []
      readTrace cfg thres text.length text

/-- The comparison that is to notice a short read. -/
@[simp] theorem length_readLogEntry (rest : Str) (entrySize : Nat) :
    (readLogEntry rest entrySize).length = entrySize := by
  rw [readLogEntry, List.length_append, List.length_take,
    List.length_replicate]
  omega

theorem LogConfig.getD_decrypted (cfg : LogConfig) (entry : Str) :
    (cfg.decrypted entry).getD [] = cfg.decryptLogEntry entry := by
  rw [decrypted, decryptLogEntry]
  cases cfg.cipher <;> rfl

variable {cfg : LogConfig} {thres : Int64}

theorem readTrace_of_short (n : Nat) {text : Str} (h : text.length < 8) :
    readTrace cfg thres n text = ⟨[], .ok []⟩ := by
  cases n with
  | zero => rfl
  | succ n => rw [readTrace, if_pos h]

/-- The comparison succeeds, whatever could be read. -/
theorem readTrace_succ (n : Nat) {text : Str} (h : 8 ≤ text.length) :
    readTrace cfg thres (n + 1) text =
      .passed cfg thres
        (readLogEntry (text.drop 8) (memoryValue (text.take 8)))
        (readTrace cfg thres n
          ((text.drop 8).drop (memoryValue (text.take 8)))) := by
  rw [readTrace, if_neg (by omega)]
  exact if_pos (length_readLogEntry _ _)

/-- The traced loop is the loop of `logDecode`. -/
theorem readTrace_result (n : Nat) (text : Str) :
    (readTrace cfg thres n text).result =
      readAndDecodeLogEntries cfg thres n text := by
  induction n generalizing text with
  | zero => rfl
  | succ n ih =>
      by_cases hShort : text.length < 8
      · rw [readTrace_of_short _ hShort, readAndDecodeLogEntries,
          if_pos hShort]
      · rw [readTrace_succ n (by omega), LogTrace.passed,
          LogConfig.getD_decrypted, readAndDecodeLogEntries, if_neg hShort]
        simp only [← ih, readLogEntry]
        cases decodeLogEntry (cfg.decryptLogEntry _) thres with
        | error e => rfl
        | ok decoded =>
            cases (readTrace cfg thres n _).result <;> rfl

theorem logTrace_result (cfg : LogConfig) (logName : Str) (thres : Int64)
    (files : LogFiles) :
    (logTrace cfg logName thres files).result =
      (logDecode cfg logName thres files).1 := by
  rw [logTrace, logDecode]
  cases files.content logName with
  | none => rfl
  | some _ => exact readTrace_result _ _

/-- **No error is reported**, whatever the file holds. -/
theorem readError_not_mem (n : Nat) (text : Str) :
    .readError ∉ (readTrace cfg thres n text).events := by
  induction n generalizing text with
  | zero => simp [readTrace]
  | succ n ih =>
      by_cases hShort : text.length < 8
      · simp [readTrace_of_short _ hShort]
      · rw [readTrace_succ n (by omega), LogTrace.passed]
        cases decodeLogEntry ((cfg.decrypted _).getD []) thres with
        | error e => simp
        | ok decoded => simpa using ih _

/-! ## Whole frames and torn ones -/

/-- The size of an entry in eight bytes. -/
def sizeHeader : Framing.Header UInt8 where
  width := 8
  bound := 2 ^ 64
  write := memoryBytes 8
  read := memoryValue
  length_write := length_memoryBytes 8
  read_write _ h := memoryValue_memoryBytes h

@[simp] theorem length_frame (entry : Str) :
    (frame entry).length = 8 + entry.length :=
  Framing.length_frame sizeHeader entry

/-- The loop behind a size. -/
theorem readTrace_size {size : Nat} (hSize : size < 2 ^ 64) (n : Nat)
    (body : Str) :
    readTrace cfg thres (n + 1) (memoryBytes 8 size ++ body) =
      .passed cfg thres (readLogEntry body size)
        (readTrace cfg thres n (body.drop size)) := by
  have hHeader : (memoryBytes 8 size ++ body).take 8 = memoryBytes 8 size :=
    List.take_left' (length_memoryBytes 8 size)
  have hBody : (memoryBytes 8 size ++ body).drop 8 = body :=
    List.drop_left' (length_memoryBytes 8 size)
  have hValue : memoryValue (memoryBytes 8 size) = size :=
    sizeHeader.read_write size hSize
  rw [readTrace_succ n (by simp), hHeader, hBody, hValue]

/-- A whole frame at the front is read as it was written. -/
theorem readTrace_frame_append {entry : Str} (hSize : entry.length < 2 ^ 64)
    (n : Nat) (rest : Str) :
    readTrace cfg thres (n + 1) (frame entry ++ rest) =
      .passed cfg thres entry (readTrace cfg thres n rest) := by
  have hEntry : readLogEntry (entry ++ rest) entry.length = entry := by
    simp [readLogEntry]
  rw [frame, List.append_assoc, readTrace_size hSize, hEntry, List.drop_left]

/-- A torn one is filled up with zeros. -/
theorem readTrace_torn {entry : Str} (hSize : entry.length < 2 ^ 64) (n : Nat)
    {cut : Nat} (hLow : 8 ≤ cut) (hHigh : cut < (frame entry).length) :
    readTrace cfg thres (n + 1) ((frame entry).take cut) =
      .passed cfg thres
        (entry.take (cut - 8) ++ List.replicate (8 + entry.length - cut) 0)
        ⟨[], .ok []⟩ := by
  rw [length_frame] at hHigh
  have hTail : (frame entry).take cut =
      memoryBytes 8 entry.length ++ entry.take (cut - 8) := by
    rw [frame, List.take_append, length_memoryBytes,
      List.take_of_length_le (by simpa using hLow)]
  have hLength : (entry.take (cut - 8)).length = cut - 8 := by
    rw [List.length_take]
    omega
  have hZeros : entry.length - (cut - 8) = 8 + entry.length - cut := by omega
  rw [hTail, readTrace_size hSize, readLogEntry,
    List.take_of_length_le (by omega), List.drop_eq_nil_of_le (by omega),
    hLength, hZeros, readTrace_of_short n (by simp)]

/-! ## What the decoder reads -/

/-- `decode_log_entry` reads the timestamp and, of an entry that is not too
late, steps behind two delimiters that `std::find` may not have found. -/
structure DecodesInside (thres : Int64) (entry : Str) : Prop where
  timestamp : 8 ≤ entry.length
  parts : ¬ thres < readInt64 entry → 9 ≤ entry.length ∧
    ∃ userKey afterUser, cut comma (entry.drop 9) = some (userKey, afterUser) ∧
      comma ∈ afterUser

/-- Behind the user key there are two delimiters, and at most one of them is
consumed in finding the first part. -/
theorem decodesInside_encodeLogEntry (thres timestamp : Int64)
    (userKey cmd : Str) (valid : Bool) (newVal : Str) :
    DecodesInside thres
      (encodeLogEntry timestamp userKey cmd valid newVal) := by
  have hLength : 9 ≤
      (encodeLogEntry timestamp userKey cmd valid newVal).length := by
    simp only [encodeLogEntry, List.length_append, int64Bytes,
      length_memoryBytes, List.length_cons, List.length_nil]
    omega
  refine ⟨by omega, fun _ => ⟨hLength, ?_⟩⟩
  rw [drop_encodeLogEntry]
  obtain ⟨⟨front, afterUser⟩, hCut⟩ := Option.ne_none_iff_exists'.mp
    fun hNone => cut_eq_none_iff.mp hNone
      (List.mem_append_right userKey List.mem_cons_self)
  refine ⟨front, afterUser, hCut, ?_⟩
  obtain ⟨hText, hFront⟩ := cut_eq_some_iff.mp hCut
  have hCount := congrArg (List.count comma) hText
  simp only [List.count_append, List.count_cons_self,
    List.count_eq_zero.mpr hFront] at hCount
  exact List.count_pos_iff.mp (by omega)

/-- What stands behind the operation, where the decoder finds it. -/
def newValueOf (entry : Str) : Str :=
  (splitEntry (splitEntry (entry.drop 9)).2).2

/-- The entry is later than the threshold, or it has no new value, or one that
`gdpr_metadata_fmt` prints. -/
def Printable (thres : Int64) (entry : Str) : Prop :=
  thres < readInt64 entry ∨ newValueOf entry = [] ∨
    ∃ text, gdprMetadataFmt (newValueOf entry) = .ok text

theorem exists_decodeLogEntry_iff {thres : Int64} {entry : Str} :
    (∃ text, decodeLogEntry entry thres = .ok text) ↔
      Printable thres entry := by
  rw [decodeLogEntry_eq, Printable]
  by_cases hLate : thres < readInt64 entry
  · simp [hLate]
  · simp only [hLate, if_false, false_or, decodeFields, newValueOf]
    by_cases hNew : (splitEntry (splitEntry (entry.drop 9)).2).2 = []
    · simp [hNew, pure, Except.pure]
    · simp only [hNew, if_false, false_or]
      cases hFmt : gdprMetadataFmt
          (splitEntry (splitEntry (entry.drop 9)).2).2 with
      | error e => simp [bind, Except.bind]
      | ok text => simp [bind, Except.bind, pure, Except.pure]

/-! ## What the logger wrote -/

/-- The cipher of an encrypting build under its keys, and what is not the
program's: the memory behind a text, and how many bytes OpenSSL reads when told
a negative number. -/
structure LogCipher where
  gcm : Gcm
  correct : gcm.Correct
  keys : CipherEngine.EncryptionKeys
  beyond : Nat → UInt8
  negativeRead : Int → Nat

/-- The logger of a build with or without encryption. -/
structure LogBuild where
  logsDir : Str
  cipher : Option LogCipher

def LogBuild.config (b : LogBuild) : LogConfig where
  logsDir := b.logsDir
  cipher := b.cipher.map fun c =>
    CipherEngine.cipher c.gcm c.beyond c.keys.logKey

def LoggedCall.entry (call : LoggedCall) : Str :=
  encodeLogEntry call.readings.timestamp call.userKey call.cmd call.valid
    call.newVal

/-- What one call of the logger wrote behind the size.  Sizes are a `size_t`,
and requests are far too small to make an entry an `int` cannot count. -/
structure WrittenEntry (b : LogBuild) where
  call : LoggedCall
  sealed : Str
  vector : call.readings.iv.length = initializationVectorLen
  isSealed : b.config.seal call.readings.iv call.entry = some sealed
  size : sealed.length < 2 ^ 64
  accepted : b.cipher ≠ none → call.entry.length < 2 ^ 31

namespace WrittenEntry

variable {b : LogBuild} (w : WrittenEntry b)

/-- It is what `log_encoded_query` appends for such a request. -/
theorem logEncodedQuery_eq {q : Query} {p : DefaultPolicy}
    (hUser : q.userKey.getD p.userKey = w.call.userKey)
    (hCmd : q.cmd = w.call.cmd) (files : LogFiles) :
    logEncodedQuery b.config w.call.readings q p w.call.valid w.call.newVal
        files =
      files.append (b.config.logFilePath q.key) (frame w.sealed) := by
  have hSealed := w.isSealed
  rw [LoggedCall.entry] at hSealed
  rw [logEncodedQuery, hUser, hCmd]
  simp only [hSealed]

theorem decrypted : b.config.decrypted w.sealed = some w.call.entry := by
  have hSealed := w.isSealed
  have hAccepted := w.accepted
  unfold LogConfig.seal LogBuild.config at hSealed
  unfold LogConfig.decrypted LogBuild.config
  cases hCipher : b.cipher with
  | none =>
      simp only [hCipher, Option.map_none] at hSealed ⊢
      exact hSealed.symm
  | some c =>
      simp only [hCipher, Option.map_some] at hSealed ⊢
      exact CipherEngine.decrypt_encrypt_of_lt c.correct w.vector c.beyond
        (hAccepted (by simp [hCipher])) hSealed

theorem accesses_inside {c : LogCipher} (hCipher : b.cipher = some c) :
    ∀ access ∈ CipherEngine.accesses c.negativeRead c.keys .logKey c.beyond
        w.sealed,
      access.1 + access.2 ≤ w.sealed.length := by
  have hSealed := w.isSealed
  unfold LogConfig.seal LogBuild.config at hSealed
  simp only [hCipher, Option.map_some] at hSealed
  exact CipherEngine.accesses_inside_of_encrypt c.correct w.vector hSealed
    c.negativeRead c.keys .logKey c.beyond

/-- The event of reading it back. -/
def event : LogEvent := .passed w.sealed (some w.call.entry)

/-- What is read of its frame if only `cut` bytes of that are there. -/
def padded (cut : Nat) : Str :=
  w.sealed.take (cut - 8) ++ List.replicate (8 + w.sealed.length - cut) 0

end WrittenEntry

/-- The frames of several calls, one behind the other. -/
def writtenFrames {b : LogBuild} (written : List (WrittenEntry b)) : Str :=
  written.flatMap fun w => frame w.sealed

variable {b : LogBuild}

@[simp] theorem writtenFrames_cons (w : WrittenEntry b)
    (written : List (WrittenEntry b)) :
    writtenFrames (w :: written) = frame w.sealed ++ writtenFrames written :=
  rfl

theorem length_le_length_writtenFrames (written : List (WrittenEntry b)) :
    written.length ≤ (writtenFrames written).length := by
  induction written with
  | nil => exact Nat.zero_le _
  | cons w written ih =>
      rw [writtenFrames_cons, List.length_append, length_frame,
        List.length_cons]
      omega

/-- `decodings` are what the entries are decoded to. -/
def Decodings (thres : Int64) (written : List (WrittenEntry b))
    (decodings : List Str) : Prop :=
  List.Forall₂ (fun w text => decodeLogEntry w.call.entry thres = .ok text)
    written decodings

theorem Decodings.exists_of_mem {written : List (WrittenEntry b)}
    {decodings : List Str} (h : Decodings thres written decodings)
    {w : WrittenEntry b} (hMem : w ∈ written) :
    ∃ text, decodeLogEntry w.call.entry thres = .ok text := by
  induction h with
  | nil => cases hMem
  | cons hText _ ih =>
      rcases List.mem_cons.mp hMem with rfl | hMem
      · exact ⟨_, hText⟩
      · exact ih hMem

/-- **Whole frames are read one after another**, and the loop continues behind
them. -/
theorem readTrace_writtenFrames (written : List (WrittenEntry b))
    (hPrintable : ∀ w ∈ written, Printable thres w.call.entry) (n : Nat)
    (rest : Str) :
    ∃ decodings, Decodings thres written decodings ∧
      readTrace b.config thres (written.length + n)
          (writtenFrames written ++ rest) =
        ⟨written.map WrittenEntry.event ++
            (readTrace b.config thres n rest).events,
          (readTrace b.config thres n rest).result.map (decodings ++ ·)⟩ := by
  induction written with
  | nil =>
      refine ⟨[], .nil, ?_⟩
      cases hRest : readTrace b.config thres n rest with
      | mk events result => cases result <;> simp [writtenFrames, hRest, Except.map]
  | cons w written ih =>
      rw [List.forall_mem_cons] at hPrintable
      obtain ⟨text, hText⟩ := exists_decodeLogEntry_iff.mpr hPrintable.1
      obtain ⟨decodings, hDecodings, hTrace⟩ := ih hPrintable.2
      refine ⟨text :: decodings, .cons hText hDecodings, ?_⟩
      have hFuel : (w :: written).length + n = written.length + n + 1 := by
        rw [List.length_cons]
        omega
      rw [hFuel, writtenFrames_cons, List.append_assoc,
        readTrace_frame_append w.size, hTrace, LogTrace.passed, w.decrypted]
      simp only [Option.getD_some, hText]
      cases (readTrace b.config thres n rest).result <;> rfl

/-! ## Broken tails -/

/-- What is passed on was decrypted, and neither decryption nor decoding reads
outside it. -/
def LogEvent.Inside (b : LogBuild) (thres : Int64) : LogEvent → Prop
  | .passed entry plaintext =>
      (∃ text, plaintext = some text ∧ DecodesInside thres text) ∧
        ∀ c, b.cipher = some c →
          ∀ access ∈ CipherEngine.accesses c.negativeRead c.keys .logKey
              c.beyond entry,
            access.1 + access.2 ≤ entry.length
  | .readError => True

/-- A file of whole frames and a tail is decoded as far as it is whole; a tail
is reported, which ends the loop, and nothing is read outside an entry. -/
structure TailHandled (b : LogBuild) (logName : Str) (thres : Int64)
    (files : LogFiles) (written : List (WrittenEntry b)) (tail : Str) :
    Prop where
  returned : ∃ decodings, Decodings thres written decodings ∧
    (logDecode b.config logName thres files).1 = .ok decodings
  reported : tail ≠ [] →
    (logTrace b.config logName thres files).events.getLast? = some .readError
  inside : ∀ event ∈ (logTrace b.config logName thres files).events,
    event.Inside b thres

theorem WrittenEntry.event_inside (w : WrittenEntry b) (thres : Int64) :
    w.event.Inside b thres :=
  ⟨⟨w.call.entry, rfl, decodesInside_encodeLogEntry _ _ _ _ _ _⟩,
    fun _ hCipher => w.accesses_inside hCipher⟩

/-- The file that `log_decode` opens for a name, and the name itself, are
there. -/
structure LogText (b : LogBuild) (logName : Str) (files : LogFiles)
    (text : Str) : Prop where
  named : files.content logName ≠ none
  opened : files.content
    (b.config.logFilePath (extractKeyFromFilename logName)) = some text

variable {logName : Str} {thres : Int64} {files : LogFiles} {text : Str}

theorem logTrace_eq (hFile : LogText b logName files text) :
    logTrace b.config logName thres files =
      readTrace b.config thres text.length text := by
  obtain ⟨old, hOld⟩ := Option.ne_none_iff_exists'.mp hFile.named
  simp only [logTrace, hOld, LogFiles.content_append, hFile.opened,
    Option.getD_some, List.append_nil]

theorem readError_not_mem_logTrace (cfg : LogConfig) (logName : Str)
    (thres : Int64) (files : LogFiles) :
    .readError ∉ (logTrace cfg logName thres files).events := by
  rw [logTrace]
  split
  · simp
  · exact readError_not_mem _ _

/-- A torn frame becomes an entry: as much of it as has a size is filled up and
passed on, decrypted or not. -/
theorem torn_frame_passed (written : List (WrittenEntry b))
    (hPrintable : ∀ w ∈ written, Printable thres w.call.entry)
    (next : WrittenEntry b) {cut : Nat} (hLow : 8 ≤ cut)
    (hHigh : cut < (frame next.sealed).length)
    (hFile : LogText b logName files
      (writtenFrames written ++ (frame next.sealed).take cut)) :
    (logTrace b.config logName thres files).events =
      written.map WrittenEntry.event ++
        [.passed (next.padded cut) (b.config.decrypted (next.padded cut))] := by
  have hTail : ((frame next.sealed).take cut).length = cut := by
    rw [List.length_take]
    omega
  have hWritten := length_le_length_writtenFrames written
  obtain ⟨fuel, hFuel⟩ : ∃ fuel,
      (writtenFrames written ++ (frame next.sealed).take cut).length =
        written.length + (fuel + 1) := by
    rw [List.length_append, hTail]
    exact ⟨(writtenFrames written).length + cut - written.length - 1, by omega⟩
  obtain ⟨decodings, -, hTrace⟩ := readTrace_writtenFrames written hPrintable
    (fuel + 1) ((frame next.sealed).take cut)
  rw [logTrace_eq hFile, hFuel, hTrace, readTrace_torn next.size fuel hLow hHigh,
    LogTrace.passed]
  simp only [WrittenEntry.padded]
  cases decodeLogEntry _ thres <;> rfl

/-- **Broken tails are handled only where there is none**: exactly if the file
ends behind a frame and every entry in it can be printed. -/
theorem tailHandled_iff (written : List (WrittenEntry b)) (next : WrittenEntry b)
    {cut : Nat} (hCut : cut < (frame next.sealed).length)
    (hFile : LogText b logName files
      (writtenFrames written ++ (frame next.sealed).take cut)) :
    TailHandled b logName thres files written ((frame next.sealed).take cut) ↔
      cut = 0 ∧ ∀ w ∈ written, Printable thres w.call.entry := by
  constructor
  · intro h
    constructor
    · by_contra hSome
      have hTail : (frame next.sealed).take cut ≠ [] := by
        rw [ne_eq, List.take_eq_nil_iff, not_or]
        exact ⟨hSome, List.ne_nil_of_length_pos (by omega)⟩
      exact readError_not_mem_logTrace _ _ _ _
        (List.mem_of_getLast? (h.reported hTail))
    · obtain ⟨decodings, hDecodings, -⟩ := h.returned
      exact fun w hMem =>
        exists_decodeLogEntry_iff.mp (hDecodings.exists_of_mem hMem)
  · rintro ⟨rfl, hPrintable⟩
    rw [List.take_zero] at hFile ⊢
    have hWritten := length_le_length_writtenFrames written
    have hFuel : (writtenFrames written ++ []).length =
        written.length +
          ((writtenFrames written).length - written.length) := by
      rw [List.append_nil]
      omega
    obtain ⟨decodings, hDecodings, hTrace⟩ := readTrace_writtenFrames written
      hPrintable ((writtenFrames written).length - written.length) []
    have hLog : logTrace b.config logName thres files =
        ⟨written.map WrittenEntry.event, .ok decodings⟩ := by
      rw [logTrace_eq hFile, hFuel, hTrace, readTrace_of_short _ (by simp)]
      simp [Except.map]
    refine ⟨⟨decodings, hDecodings, ?_⟩, fun h => absurd rfl h, ?_⟩
    · rw [← logTrace_result, hLog]
    · rw [hLog]
      intro event hMem
      obtain ⟨w, -, rfl⟩ := List.mem_map.mp hMem
      exact w.event_inside thres

/-! ### Two torn files -/

/-- A build without encryption. -/
def plainBuild : LogBuild := ⟨lit "logs", none⟩

def WrittenEntry.plain (call : LoggedCall) (h : call.entry.length < 2 ^ 64) :
    WrittenEntry plainBuild where
  call := { call with readings.iv := List.replicate 12 0 }
  sealed := call.entry
  vector := rfl
  isSealed := rfl
  size := h
  accepted h := absurd rfl h

def gotByAlice : WrittenEntry plainBuild :=
  .plain ⟨⟨1, []⟩, lit "alice", lit "get", true, []⟩ (by decide +kernel)

/-- A put of `V|W`. -/
def putByAlice : WrittenEntry plainBuild :=
  .plain ⟨⟨2, []⟩, lit "alice", lit "put", true,
    lit "alice|0|2|0|home|0||1|V|W"⟩ (by decide +kernel)

/-- The log of `k`, the last byte missing. -/
def tornFiles : LogFiles :=
  [(lit "logs/k.log",
    writtenFrames [gotByAlice] ++ (frame putByAlice.sealed).take 49)]

/-- A build whose cipher hides nothing. -/
def sealedBuild : LogBuild :=
  ⟨lit "logs", some ⟨.transparent, Gcm.transparent_correct, .initial,
    fun _ => 0, fun _ => 0⟩⟩

def gotSealed : WrittenEntry sealedBuild where
  call := ⟨⟨1, List.replicate 12 0⟩, lit "alice", lit "get", true, []⟩
  sealed := List.replicate 12 0 ++ CipherEngine.EncryptionKeys.initial.logKey ++
    [17, 0, 0, 0] ++ encodeLogEntry 1 (lit "alice") (lit "get") true []
  vector := rfl
  isSealed := by decide +kernel
  size := by decide +kernel
  accepted _ := by decide +kernel

/-- The log of `k`, torn in the tag of its only entry. -/
def tornSealedFiles : LogFiles :=
  [(lit "logs/k.log", (frame gotSealed.sealed).take 28)]

/-- With the torn put two entries are returned, and of the torn encrypted get,
which does not decrypt, the empty string is passed on. -/
theorem torn_frames_decoded :
    (logDecode plainBuild.config (lit "logs/k.log") 9 tornFiles).1.map
        List.length = .ok 2 ∧
    ¬ TailHandled plainBuild (lit "logs/k.log") 9 tornFiles [gotByAlice]
      ((frame putByAlice.sealed).take 49) ∧
    .passed (gotSealed.padded 28) none ∈
      (logTrace sealedBuild.config (lit "logs/k.log") 9
        tornSealedFiles).events ∧
    ¬ TailHandled sealedBuild (lit "logs/k.log") 9 tornSealedFiles []
      ((frame gotSealed.sealed).take 28) := by
  refine ⟨by decide +kernel, fun h => ?_, by decide +kernel, fun h => ?_⟩
  · exact readError_not_mem_logTrace _ _ _ _
      (List.mem_of_getLast? (h.reported (by decide +kernel)))
  · exact readError_not_mem_logTrace _ _ _ _
      (List.mem_of_getLast? (h.reported (by decide +kernel)))

/-- `tailHandled_iff` at a file with one whole frame. -/
theorem tailHandled_got :
    TailHandled plainBuild (lit "logs/k.log") 9
        [(lit "logs/k.log", writtenFrames [gotByAlice])] [gotByAlice] [] ↔
      0 = 0 ∧ ∀ w ∈ [gotByAlice], Printable 9 w.call.entry :=
  tailHandled_iff [gotByAlice] putByAlice
    (show 0 < (frame putByAlice.sealed).length by decide +kernel)
    ⟨by decide +kernel, by decide +kernel⟩

end GDPRuler.Controller
