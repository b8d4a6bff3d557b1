import GDPRuler.Controller.QueryRewriter

/-!
# Log entries

`logger` records a request as `timestamp,user,operation,new value`, where the
timestamp is eight raw bytes and operation and validity share one byte.  The
regulator reads entries back through `decode_log_entry`, which prints a new
value through a decoder of its own, `gdpr_metadata_fmt`.

That second decoder counts nine fields, each closed by a separator, but the
value, the ninth, is closed by the end of the record.  So no record a rewriter
produces from separator-free strings can be printed
(`gdprMetadataFmt_encode`), and what the regulator asks for raises instead.
-/

namespace GDPRuler.Controller

open GDPRuler.Verified.Delim GDPRuler.Verified.Decimal

/-! ## Operations -/

inductive Operation
  | invalid | get | put | del | getm | putm | getLogs
  deriving DecidableEq

namespace Operation

/-- The underlying `uint8_t`. -/
def code : Operation → UInt8
  | invalid => 0
  | get => 1
  | put => 2
  | del => 3
  | getm => 4
  | putm => 5
  | getLogs => 6

end Operation

def operationMask : UInt8 := 7

/-- The commands of queries are lower-case, so `getlogs` is not found here. -/
def convertOperationToEnum (oper : Str) : Operation :=
  if oper = lit "get" then .get
  else if oper = lit "put" then .put
  else if oper = lit "delete" then .del
  else if oper = lit "getm" then .getm
  else if oper = lit "putm" then .putm
  else if oper = lit "getLogs" then .getLogs
  else .invalid

/-- The name printed for an operation number; a number outside the
enumeration is an invalid operation. -/
def convertEnumToOperation (oper : UInt8) : Str :=
  if oper = Operation.get.code then lit "get"
  else if oper = Operation.put.code then lit "put"
  else if oper = Operation.del.code then lit "delete"
  else if oper = Operation.getm.code then lit "getm"
  else if oper = Operation.putm.code then lit "putm"
  else if oper = Operation.getLogs.code then lit "getLogs"
  else lit "invalid_op"

/-! ## Encoding -/

/-- `memcpy` of an `int64_t` into a buffer. -/
def int64Bytes (z : Int64) : Str := memoryBytes 8 z.toBitVec.toNat

/-- `memcpy` of the first eight bytes of a buffer into an `int64_t`. -/
def readInt64 (buffer : Str) : Int64 :=
  ⟨⟨BitVec.ofNat 64 (memoryValue (buffer.take 8))⟩⟩

/-- Operation and validity in one byte. -/
def operationResult (cmd : Str) (valid : Bool) : UInt8 :=
  ((convertOperationToEnum cmd).code &&& operationMask) <<< 1 |||
    (if valid then 1 else 0)

/-- The buffer `log_encoded_query` fills. -/
def encodeLogEntry (timestamp : Int64) (userKey cmd : Str) (valid : Bool)
    (newVal : Str) : Str :=
  int64Bytes timestamp ++ [comma] ++ userKey ++ [comma] ++
    [operationResult cmd valid] ++ [comma] ++ newVal

/-! ## Printing -/

/-- Year, month and day of a day number counted from 1970-01-01, by the
400-year cycle counted from 1 March of year 0. -/
def civilFromDays (days : Int) : Int × Nat × Nat :=
  let shifted := days + 719468
  let era := shifted.fdiv 146097
  let dayOfEra := (shifted - era * 146097).toNat
  let yearOfEra :=
    (dayOfEra - dayOfEra / 1460 + dayOfEra / 36524 - dayOfEra / 146096) / 365
  let dayOfYear := dayOfEra - (365 * yearOfEra + yearOfEra / 4 - yearOfEra / 100)
  let monthFromMarch := (5 * dayOfYear + 2) / 153
  let day := dayOfYear - (153 * monthFromMarch + 2) / 5 + 1
  let month := if monthFromMarch < 10 then monthFromMarch + 3
    else monthFromMarch - 9
  (yearOfEra + era * 400 + (if month ≤ 2 then 1 else 0), month, day)

/-- Two digits, as `%m`, `%d`, `%H`, `%M` and `%S` print. -/
def twoDigits (n : Nat) : Str :=
  if n < 10 then lit "0" ++ digits n else digits n

/-- `%Y-%m-%d %H:%M:%S` of a time in seconds. -/
def putTime (time : Int) : Str :=
  let days := time.fdiv 86400
  let second := (time - days * 86400).toNat
  let (year, month, day) := civilFromDays days
  intText year ++ lit "-" ++ twoDigits month ++ lit "-" ++ twoDigits day ++
    lit " " ++ twoDigits (second / 3600) ++ lit ":" ++
    twoDigits (second / 60 % 60) ++ lit ":" ++ twoDigits (second % 60)

/-- The date of a timestamp in nanoseconds. -/
def timestampToDatetime (timestamp : Int64) : Str :=
  putTime (timestamp / s2ns).toInt

def boolToStr (value : Bool) : Str :=
  if value then lit "true" else lit "false"

/-- What one field of a new value is printed as.  The expiration, seconds in
the record, is converted by `stoi` and printed as nanoseconds. -/
def fmtField (count : Nat) (token : Str) : Except Exn Str :=
  match MetadataField.ofCount count with
  | some .usr => .ok (lit "User/Owner: " ++ token ++ lit ", ")
  | some .encr =>
      .ok (lit "Encryption enabled: " ++ boolToStr (token == lit "1") ++
        lit ", ")
  | some .pur => do
      let purposes ← stoull token
      return lit "Purposes: " ++ getPurposesString purposes
  | some .obj => do
      let objections ← stoull token
      return lit "Objections: " ++ getPurposesString objections
  | some .org => .ok (lit "Data origin: " ++ token ++ lit ", ")
  | some .exp =>
      if token = lit "0" then
        .ok (lit "Expiration time: " ++ lit "none" ++ lit ", ")
      else do
        let time ← stoi token
        return lit "Expiration time: " ++ timestampToDatetime time ++ lit ", "
  | some .shr => .ok (lit "Shared with: " ++ token ++ lit ", ")
  | some .log =>
      .ok (lit "Log enabled: " ++ boolToStr (token == lit "1") ++ lit ", ")
  | some .val => .ok (lit "Value: " ++ token)
  | none => .ok []

def fmtStep (count : Nat) (token res : Str) : Except Exn Str := do
  let text ← fmtField count token
  return res ++ text

def gdprMetadataFmt (valueStr : Str) : Except Exn Str := do
  let (count, _, res) ← scan bar fmtStep maxGdprFieldGuard 0 valueStr []
  if count ≠ maxGdprFieldGuard then
    .error (.invalidArgument (lit "Invalid GDPR metadata format in the logs"))
  else
    return res

/-- `std::find` of the delimiter: the text up to it and the text behind it;
all of the text when there is none. -/
def splitEntry (text : Str) : Str × Str := (cut comma text).getD (text, [])

/-- An entry in words; an entry later than the threshold is not decoded. -/
def decodeLogEntry (entry : Str) (timestampThres : Int64) : Except Exn Str :=
  let timestamp := readInt64 entry
  if timestampThres < timestamp then
    .ok []
  else do
    let (userKey, afterUser) := splitEntry (entry.drop 9)
    let (operationText, newValue) := splitEntry afterUser
    let operationResult := operationText.headD 0
    let valid :=
      if operationResult &&& 1 ≠ 0 then lit "valid" else lit "invalid"
    let oper :=
      convertEnumToOperation ((operationResult >>> 1) &&& operationMask)
    let head := lit "Timestamp: " ++ timestampToDatetime timestamp ++
      lit ", User key: " ++ userKey ++ lit ", Operation: " ++ oper ++
      lit ", Result: " ++ valid
    if newValue = [] then
      return head
    else
      let text ← gdprMetadataFmt newValue
      return head ++ lit ", " ++ text

/-! ## Logged records -/

/-- The records a history of first puts, updates and metadata updates with
separator-free strings and values produces. -/
inductive Written : Str → Prop
  | insert {q : Query} {p : DefaultPolicy} {v : Str} {now : Int64}
      (hClean : QueryRewriter.InsertClean q p) (hValue : bar ∉ v) :
      Written (QueryRewriter.insert q p v now)
  | update {res v : Str} (hRes : Written res) (hValue : bar ∉ v) :
      Written (QueryRewriter.update res v)
  | putm {res rec : Str} {q : Query} {now : Int64} (hRes : Written res)
      (hClean : QueryRewriter.SuppliedClean q)
      (hPutm : QueryRewriter.putm res q now = .ok rec) : Written rec

theorem Written.encoded {rec : Str} (h : Written rec) :
    ∃ m : Metadata, m.Clean ∧ ∃ v, bar ∉ v ∧ rec = m.encode v := by
  induction h with
  | insert hClean hValue =>
      exact ⟨_, hClean.metadata _, _, hValue, QueryRewriter.insert_eq _ _ _ _⟩
  | update _ hValue ih =>
      obtain ⟨m, hm, v, hv, rfl⟩ := ih
      refine ⟨m, hm, _, hValue, ?_⟩
      rw [QueryRewriter.update_encode, QueryRewriter.updateValue_eq_self hv]
  | putm _ hClean hPutm ih =>
      obtain ⟨m, hm, v, hv, rfl⟩ := ih
      rw [QueryRewriter.putm_encode hm, QueryRewriter.putmValue_eq_self hv,
        Except.ok.injEq] at hPutm
      exact ⟨_, hClean.metadata hm _, v, hv, hPutm.symm⟩

/-- Eight separators are one too few for the printing decoder. -/
theorem gdprMetadataFmt_encode {m : Metadata} (hm : m.Clean) {v : Str}
    (hv : bar ∉ v) : ∃ e, gdprMetadataFmt (m.encode v) = .error e := by
  have hJoin := scan_joinFields fmtStep m.fields hm.fields 1 0 v []
  cases hSteps : steps fmtStep 0 m.fields [] with
  | error e =>
      rw [hSteps] at hJoin
      have hScan : scan bar fmtStep maxGdprFieldGuard 0 (m.encode v) [] =
          .error e := hJoin
      exact ⟨e, by rw [gdprMetadataFmt, hScan]; rfl⟩
  | ok res =>
      rw [hSteps] at hJoin
      have hScan : scan bar fmtStep maxGdprFieldGuard 0 (m.encode v) [] =
          .ok (8, v, res) :=
        hJoin.trans (scan_of_not_mem _ _ _ _ hv)
      exact ⟨_, by rw [gdprMetadataFmt, hScan]; rfl⟩

/-! ## Reading back -/

/-- `text` shows the metadata and the value of a decoded record, the
expiration date being in seconds. -/
structure Shows (text : Str) (m : Metadata) (value : Str) : Prop where
  owner : lit "User/Owner: " ++ m.userKey <:+: text
  purposes : lit "Purposes: " ++ getPurposesString m.purpose <:+: text
  objections : lit "Objections: " ++ getPurposesString m.objection <:+: text
  origin : lit "Data origin: " ++ m.origin <:+: text
  expiration : lit "Expiration time: " ++
    (if m.expiration = 0 then lit "none" else putTime m.expiration.toInt) <:+:
      text
  share : lit "Shared with: " ++ m.share <:+: text
  monitor : lit "Log enabled: " ++ boolToStr m.monitor <:+: text
  value : lit "Value: " ++ value <:+: text

/-- The regulator's decoder reads the entry of a logged record back: it
returns, and what it prints is what the filter decodes. -/
def ReadsBack (timestamp : Int64) (userKey cmd : Str) (valid : Bool) (rec : Str)
    (timestampThres : Int64) : Prop :=
  ∃ text f,
    decodeLogEntry (encodeLogEntry timestamp userKey cmd valid rec)
      timestampThres = .ok text ∧
    GdprFilter.ofValue (some rec) = .ok f ∧
    Shows text f.toMetadata (removeGdprMetadata rec)

/-- An entry is cut where it was put together. -/
theorem splitEntry_append {field : Str} (h : comma ∉ field) (rest : Str) :
    splitEntry (field ++ comma :: rest) = (field, rest) := by
  rw [splitEntry, cut_append h]
  rfl

theorem operationResult_ne_comma (cmd : Str) (valid : Bool) :
    operationResult cmd valid ≠ comma := by
  unfold operationResult
  cases convertOperationToEnum cmd <;> cases valid <;> decide

/-- Behind the timestamp and its delimiter the decoder finds the user key,
the operation byte and the new value. -/
theorem drop_encodeLogEntry (timestamp : Int64) (userKey cmd : Str)
    (valid : Bool) (newVal : Str) :
    (encodeLogEntry timestamp userKey cmd valid newVal).drop 9 =
      userKey ++ comma :: ([operationResult cmd valid] ++ comma :: newVal) := by
  have hLength : (int64Bytes timestamp ++ [comma]).length = 9 := by
    simp [int64Bytes]
  have hEntry : encodeLogEntry timestamp userKey cmd valid newVal =
      (int64Bytes timestamp ++ [comma]) ++
        (userKey ++ comma :: ([operationResult cmd valid] ++
          comma :: newVal)) := by
    simp [encodeLogEntry]
  rw [hEntry, ← hLength, List.drop_left]

/-- Decoding an entry whose new value cannot be printed raises. -/
theorem decodeLogEntry_error {timestamp thres : Int64} {userKey cmd : Str}
    {valid : Bool} {newVal : Str} {e : Exn} (hUser : comma ∉ userKey)
    (hNew : newVal ≠ []) (hFmt : gdprMetadataFmt newVal = .error e)
    (hThres : ¬ thres <
      readInt64 (encodeLogEntry timestamp userKey cmd valid newVal)) :
    decodeLogEntry (encodeLogEntry timestamp userKey cmd valid newVal) thres =
      .error e := by
  have hOp : comma ∉ [operationResult cmd valid] := by
    simpa using (operationResult_ne_comma cmd valid).symm
  rw [decodeLogEntry, if_neg hThres, drop_encodeLogEntry,
    splitEntry_append hUser]
  simp only []
  rw [splitEntry_append hOp]
  simp [hNew, hFmt, bind, Except.bind]

/-- **No logged record reads back.** An entry at or before the threshold
raises, and a later one prints nothing. -/
theorem not_readsBack {rec : Str} (hRec : Written rec) {userKey : Str}
    (hUser : comma ∉ userKey) (timestamp : Int64) (cmd : Str) (valid : Bool)
    (thres : Int64) :
    ¬ ReadsBack timestamp userKey cmd valid rec thres := by
  rintro ⟨text, f, hDecode, _, hShows⟩
  by_cases hThres : thres <
      readInt64 (encodeLogEntry timestamp userKey cmd valid rec)
  · rw [decodeLogEntry, if_pos hThres, Except.ok.injEq] at hDecode
    have hOwner := hShows.owner
    rw [← hDecode, List.infix_nil] at hOwner
    exact absurd hOwner (by simp [lit])
  · obtain ⟨m, hm, v, hv, rfl⟩ := hRec.encoded
    obtain ⟨e, hFmt⟩ := gdprMetadataFmt_encode hm hv
    have hNew : m.encode v ≠ [] := by
      obtain ⟨front, hFront⟩ := m.encode_eq_front
      simp [hFront]
    rw [decodeLogEntry_error hUser hNew hFmt hThres] at hDecode
    cases hDecode

/-- The put of a value by a monitored user, as the regulator meets it. -/
theorem logged_put_raises :
    ∃ rec, Written rec ∧
      rec = lit "alice|0|2|0|home|0||1|VAL" ∧
      decodeLogEntry (encodeLogEntry 1700000000000000000 (lit "alice")
        (lit "put") true rec) 1800000000000000000 =
        .error (.invalidArgument
          (lit "Invalid GDPR metadata format in the logs")) ∧
      ¬ ReadsBack 1700000000000000000 (lit "alice") (lit "put") true rec
        1800000000000000000 := by
  refine ⟨lit "alice|0|2|0|home|0||1|VAL", ?_, rfl, by decide +kernel, ?_⟩
  · have hInsert : QueryRewriter.insert {}
        ⟨lit "alice", false, 2, 0, lit "home", 0, [], true⟩ (lit "VAL") 0 =
        lit "alice|0|2|0|home|0||1|VAL" := by decide +kernel
    rw [← hInsert]
    exact .insert ⟨by decide, by decide, by decide⟩ (by decide)
  · rintro ⟨text, _, hDecode, _⟩
    have hRaises : decodeLogEntry (encodeLogEntry 1700000000000000000
        (lit "alice") (lit "put") true (lit "alice|0|2|0|home|0||1|VAL"))
        1800000000000000000 = .error (.invalidArgument
          (lit "Invalid GDPR metadata format in the logs")) := by
      decide +kernel
    rw [hRaises] at hDecode
    cases hDecode

/-- `not_readsBack` at the record of a first put. -/
theorem not_readsBack_first_put :
    Written (QueryRewriter.insert {}
      ⟨lit "alice", false, 2, 0, lit "home", 0, [], true⟩ (lit "VAL") 0) ∧
    ¬ ReadsBack 5 (lit "alice") (lit "put") true
      (QueryRewriter.insert {}
        ⟨lit "alice", false, 2, 0, lit "home", 0, [], true⟩ (lit "VAL") 0) 7 :=
  ⟨.insert ⟨by decide, by decide, by decide⟩ (by decide),
    not_readsBack (.insert ⟨by decide, by decide, by decide⟩ (by decide))
      (by decide) 5 (lit "put") true 7⟩

end GDPRuler.Controller
