import GDPRuler.Controller.LogFiles
import GDPRuler.Controller.Query

/-!
# The log of a key, found by its name

The logger writes the entries of a key to `logs_dir/key.log`.  The regulator
builds the same path, and the logger then takes the key out of it again: what
stands between the last `'/'` and the first `.log` behind it.  The key found
decides which file is read and which mutex is held.

`extractKeyFromFilename_logFilePath_iff` says for which keys this is the key
the path was built from, and `foundAgain_iff` that for exactly these the
regulator reads the file the logger appends to.
-/

namespace GDPRuler.Controller

open GDPRuler.Verified.Delim

/-- The keys that survive the way through a file name. -/
def NamesItsLog (key : Str) : Prop :=
  slash ∉ key ∧ ¬ logFileExtension <:+: key

/-! ## The first `.log` of a name -/

private theorem extension_eq : logFileExtension = [46, 108, 111, 103] := by
  decide

/-- The extension does not overlap itself: in front of a text's own extension
it begins only where the text holds another one. -/
private theorem extension_prefix_append_iff (rest : Str) :
    logFileExtension <+: rest ++ logFileExtension ↔
      rest = [] ∨ logFileExtension <+: rest := by
  rw [extension_eq]
  rcases rest with _ | ⟨a, _ | ⟨b, _ | ⟨c, _ | ⟨d, rest⟩⟩⟩⟩ <;> simp

/-- The search for the extension in `name.log` ends in front of a `.log` of the
name, if it has one, and else behind the name. -/
private theorem exists_find_extension (name : Str) :
    ∃ i ≤ name.length,
      ((List.range (name ++ logFileExtension).length).find? fun i =>
        logFileExtension.isPrefixOf ((name ++ logFileExtension).drop i)) =
          some i ∧
        (i = name.length ↔ ¬ logFileExtension <:+: name) := by
  have hAt : ∀ i ≤ name.length,
      (logFileExtension.isPrefixOf ((name ++ logFileExtension).drop i) = true ↔
        name.drop i = [] ∨ logFileExtension <+: name.drop i) := by
    intro i hi
    rw [List.isPrefixOf_iff_prefix, List.drop_append_of_le_length hi,
      extension_prefix_append_iff]
  have hLength : name.length < (name ++ logFileExtension).length := by
    rw [List.length_append, extension_eq]
    simp
  -- the extension itself is found at the latest
  have hEnd := (hAt name.length (Nat.le_refl _)).mpr (.inl (by simp))
  cases hFind : (List.range (name ++ logFileExtension).length).find? fun i =>
      logFileExtension.isPrefixOf ((name ++ logFileExtension).drop i) with
  | none =>
      rw [List.find?_eq_none] at hFind
      exact absurd hEnd (hFind _ (List.mem_range.mpr hLength))
  | some i =>
      obtain ⟨hFound, -, hFirst⟩ := List.find?_range_eq_some.mp hFind
      have hLe : i ≤ name.length := by
        by_contra hPast
        have hNot := hFirst name.length (by omega)
        rw [hEnd] at hNot
        exact absurd hNot (by decide)
      refine ⟨i, hLe, rfl, ?_⟩
      constructor
      · rintro rfl ⟨front, back, hName⟩
        have hBefore : front.length < name.length := by
          rw [← hName, extension_eq]
          simp
        have hHere := (hAt front.length (Nat.le_of_lt hBefore)).mpr
          (.inr ⟨back, by rw [← hName, List.append_assoc, List.drop_left]⟩)
        have hNot := hFirst front.length hBefore
        rw [hHere] at hNot
        exact absurd hNot (by decide)
      · intro hNone
        rcases (hAt i hLe).mp hFound with hNil | hPrefix
        · have hDrop := congrArg List.length hNil
          rw [List.length_drop, List.length_nil] at hDrop
          omega
        · exact absurd (hPrefix.isInfix.trans (List.drop_suffix i name).isInfix)
            hNone

/-- The key found in a path ends before the key it was built from does, or is
its last part. -/
private theorem exists_extractKey (dir name : Str) (hName : slash ∉ name) :
    ∃ i ≤ name.length,
      extractKeyFromFilename (dir ++ slash :: (name ++ logFileExtension)) =
          name.take i ∧
        (i = name.length ↔ ¬ logFileExtension <:+: name) := by
  obtain ⟨i, hi, hFind, hWhole⟩ := exists_find_extension name
  have hSlash : slash ∉ name ++ logFileExtension := by
    rw [List.mem_append, extension_eq]
    rintro (hMem | hMem)
    · exact hName hMem
    · exact absurd hMem (by decide)
  refine ⟨i, hi, ?_, hWhole⟩
  rw [extractKeyFromFilename, cutLast_append dir hSlash]
  simp only [hFind]
  exact List.take_append_of_le_length hi

/-- **A path gives its key back** exactly for the keys that name their log. -/
theorem extractKeyFromFilename_logFilePath_iff (cfg : LogConfig) (key : Str) :
    extractKeyFromFilename (cfg.logFilePath key) = key ↔ NamesItsLog key := by
  by_cases hSlash : slash ∈ key
  · obtain ⟨front, name, hCut⟩ := exists_cutLast hSlash
    obtain ⟨rfl, hName⟩ := cutLast_eq_some_iff.mp hCut
    have hPath : cfg.logFilePath (front ++ slash :: name) =
        (cfg.logsDir ++ slash :: front) ++
          slash :: (name ++ logFileExtension) := by
      simp [LogConfig.logFilePath]
    obtain ⟨i, -, hKey, -⟩ :=
      exists_extractKey (cfg.logsDir ++ slash :: front) name hName
    refine iff_of_false (fun h => ?_) fun h => h.1 hSlash
    rw [hPath, hKey] at h
    have hLength := congrArg List.length h
    simp only [List.length_take, List.length_append, List.length_cons]
      at hLength
    omega
  · have hPath : cfg.logFilePath key =
        cfg.logsDir ++ slash :: (key ++ logFileExtension) := by
      simp [LogConfig.logFilePath]
    obtain ⟨i, hi, hKey, hWhole⟩ := exists_extractKey cfg.logsDir key hSlash
    rw [hPath, hKey, NamesItsLog, ← hWhole]
    constructor
    · intro h
      refine ⟨hSlash, ?_⟩
      have hLength := congrArg List.length h
      rw [List.length_take] at hLength
      omega
    · rintro ⟨-, rfl⟩
      exact List.take_length

/-! ## The file that is read -/

/-- `read_key_log` -/
def readKeyLog (cfg : LogConfig) (key : Str) (thres : Int64)
    (files : LogFiles) : Except Exn (List Str) :=
  (logDecode cfg (cfg.logFilePath key) thres files).1

/-- Behind every logger call for `key`, the regulator reads the file that the
call appended to. -/
def FoundAgain (cfg : LogConfig) (key : Str) : Prop :=
  ∀ (r : LogReadings) (q : Query) (p : DefaultPolicy) (valid : Bool)
    (newVal : Str) (files : LogFiles) (thres : Int64), q.key = key →
    let logged := logEncodedQuery cfg r q p valid newVal files
    let text := (logged.content (cfg.logFilePath key)).getD []
    readKeyLog cfg key thres logged =
      readAndDecodeLogEntries cfg thres text.length text

/-- A logger call appends to the file of its key. -/
theorem content_logEncodedQuery (cfg : LogConfig) (r : LogReadings) (q : Query)
    (p : DefaultPolicy) (valid : Bool) (newVal : Str) (files : LogFiles) :
    ∃ data, (logEncodedQuery cfg r q p valid newVal files).content
        (cfg.logFilePath q.key) =
      some ((files.content (cfg.logFilePath q.key)).getD [] ++ data) := by
  rw [logEncodedQuery]
  cases cfg.seal r.iv (encodeLogEntry r.timestamp
      (q.userKey.getD p.userKey) q.cmd valid newVal) with
  | none => exact ⟨[], LogFiles.content_append _ _ _⟩
  | some entry => exact ⟨frame entry, LogFiles.content_append _ _ _⟩

theorem content_logEncodedQuery_of_ne (cfg : LogConfig) (r : LogReadings)
    (q : Query) (p : DefaultPolicy) (valid : Bool) (newVal : Str)
    (files : LogFiles) {path : Str} (h : path ≠ cfg.logFilePath q.key) :
    (logEncodedQuery cfg r q p valid newVal files).content path =
      files.content path := by
  rw [logEncodedQuery]
  cases cfg.seal r.iv (encodeLogEntry r.timestamp
      (q.userKey.getD p.userKey) q.cmd valid newVal) with
  | none => exact LogFiles.content_append_of_ne _ _ h
  | some entry => exact LogFiles.content_append_of_ne _ _ h

/-- The file read is that of the key found in the path. -/
theorem readKeyLog_eq (cfg : LogConfig) (key : Str) (thres : Int64)
    {files : LogFiles} {text : Str}
    (h : files.content (cfg.logFilePath key) = some text) :
    readKeyLog cfg key thres files =
      let read := (files.content (cfg.logFilePath
        (extractKeyFromFilename (cfg.logFilePath key)))).getD []
      readAndDecodeLogEntries cfg thres read.length read := by
  simp only [readKeyLog, logDecode, h, LogFiles.content_append,
    Option.getD_some, List.append_nil]

/-- A file that begins with a whole frame is not read as an empty one. -/
private theorem read_frame_ne_nil (cfg : LogConfig) (thres : Int64)
    (entry rest : Str) {n : Nat} :
    readAndDecodeLogEntries cfg thres (n + 1) (frame entry ++ rest) ≠
      .ok [] := by
  have hLong : ¬ (frame entry ++ rest).length < 8 := by
    rw [frame, List.length_append, List.length_append, length_memoryBytes]
    omega
  rw [readAndDecodeLogEntries, if_neg hLong]
  intro h
  simp only [bind, Except.bind] at h
  split at h
  · cases h
  · split at h
    · cases h
    · cases h

/-- A log with one whole frame is not the empty log that is read instead. -/
theorem FoundAgain.namesItsLog {cfg : LogConfig} {key : Str}
    (h : FoundAgain cfg key) : NamesItsLog key := by
  by_contra hNot
  have hOther : cfg.logFilePath
      (extractKeyFromFilename (cfg.logFilePath key)) ≠
        cfg.logFilePath key := fun hPath =>
    hNot ((extractKeyFromFilename_logFilePath_iff cfg key).mp
      (cfg.logFilePath_injective hPath))
  let r : LogReadings := ⟨0, []⟩
  let q : Query := { key := key }
  let p : DefaultPolicy := ⟨[], false, 0, 0, [], 0, [], false⟩
  let files : LogFiles := [(cfg.logFilePath key, frame [])]
  have hFound := h r q p true [] files 0 rfl
  have hOwn : files.content (cfg.logFilePath key) = some (frame []) := by
    simp [files, LogFiles.content]
  have hNone : (logEncodedQuery cfg r q p true [] files).content
      (cfg.logFilePath (extractKeyFromFilename (cfg.logFilePath key))) =
        none := by
    have hBeq : (cfg.logFilePath
        (extractKeyFromFilename (cfg.logFilePath key)) ==
          cfg.logFilePath key) = false := by simpa using hOther
    rw [content_logEncodedQuery_of_ne cfg r q p true [] files hOther]
    simp [files, LogFiles.content, List.lookup_cons, hBeq]
  obtain ⟨data, hContent⟩ : ∃ data,
      (logEncodedQuery cfg r q p true [] files).content
        (cfg.logFilePath key) = some (frame [] ++ data) := by
    have hAppend := content_logEncodedQuery cfg r q p true [] files
    rwa [show q.key = key from rfl, hOwn] at hAppend
  simp only [readKeyLog_eq cfg key 0 hContent, hNone, hContent,
    Option.getD_none, Option.getD_some] at hFound
  have hLength : (frame [] ++ data).length =
      ((frame [] ++ data).length - 1) + 1 := by
    have hFrame : (frame []).length = 8 := by decide
    rw [List.length_append]
    omega
  rw [hLength] at hFound
  exact read_frame_ne_nil cfg 0 [] data hFound.symm

/-- **A key's log is found again.** The path gives the key back, and the
regulator reads the file the logger writes, exactly for the keys that name
their log. -/
theorem foundAgain_iff (cfg : LogConfig) (key : Str) :
    (extractKeyFromFilename (cfg.logFilePath key) = key ↔ NamesItsLog key) ∧
      (FoundAgain cfg key ↔ NamesItsLog key) := by
  refine ⟨extractKeyFromFilename_logFilePath_iff cfg key, ?_, ?_⟩
  · exact FoundAgain.namesItsLog
  · intro h r q p valid newVal files thres hKey
    obtain ⟨data, hContent⟩ :=
      content_logEncodedQuery cfg r q p valid newVal files
    rw [hKey] at hContent
    simp only [readKeyLog_eq cfg key thres hContent,
      (extractKeyFromFilename_logFilePath_iff cfg key).mpr h]

/--
`a.log.b` is a key of the query language.  Its path gives back the key `a`,
so its entry is omitted, and the log of `a` is reported for it.
-/
theorem log_not_found_again :
    let cfg : LogConfig := ⟨lit "./logs", none⟩
    let files : LogFiles :=
      [(cfg.logFilePath (lit "a.log.b"),
          frame (encodeLogEntry 7 (lit "bob") (lit "get") false [])),
        (cfg.logFilePath (lit "a"),
          frame (encodeLogEntry 5 (lit "alice") (lit "put") true []))]
    Query.ofText (lit "query(get(\"a.log.b\"))") =
        .ok { cmd := lit "get", key := lit "a.log.b" } ∧
      extractKeyFromFilename (cfg.logFilePath (lit "a.log.b")) = lit "a" ∧
      readKeyLog cfg (lit "a.log.b") 100 files =
        readKeyLog cfg (lit "a") 100 files ∧
      ¬ ∀ (cfg : LogConfig) (key : Str), FoundAgain cfg key := by
  refine ⟨by decide +kernel, by decide +kernel, by decide +kernel, fun h => ?_⟩
  have hNames := (h ⟨lit "./logs", none⟩ (lit "a.log.b")).namesItsLog
  exact hNames.2 ⟨lit "a", lit ".b", by decide⟩

end GDPRuler.Controller
