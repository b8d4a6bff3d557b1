import GDPRuler.Controller.LogEntry
import GDPRuler.Controller.Plans

/-!
# Entries without a new value are read back

Of the four parts of a log entry two cannot be mistaken: the timestamp has a
fixed width, so delimiters among its bytes do no harm, and no operation byte
equals the delimiter.  The user key between them is cut at the first
delimiter, and it is the client's to choose.

With a comma in it the decoder takes the next piece for the operation and the
rest for a new value.  That rest either cannot be printed, and the decoder
raises, or it has the nine separators a printed value loses; what is printed
is never the entry (`decode_encode_iff`).
-/

namespace GDPRuler.Controller

open GDPRuler.Verified.Delim GDPRuler.Verified.Decimal

/-! ## Reading the parts -/

/-- The timestamp is read back from any buffer that begins with its bytes. -/
theorem readInt64_append (timestamp : Int64) (rest : Str) :
    readInt64 (int64Bytes timestamp ++ rest) = timestamp := by
  have hBytes : (int64Bytes timestamp ++ rest).take 8 = int64Bytes timestamp :=
    List.take_left' (length_memoryBytes _ _)
  have hFits : timestamp.toBitVec.toNat < 256 ^ 8 := timestamp.toBitVec.isLt
  rw [readInt64, hBytes, int64Bytes, memoryValue_memoryBytes hFits,
    BitVec.ofNat_toNat, BitVec.setWidth_eq]
  rfl

theorem readInt64_encodeLogEntry (timestamp : Int64) (userKey cmd : Str)
    (valid : Bool) (newVal : Str) :
    readInt64 (encodeLogEntry timestamp userKey cmd valid newVal) =
      timestamp := by
  simp only [encodeLogEntry, List.append_assoc]
  exact readInt64_append timestamp _

/-- Operation and validity are read back from their byte. -/
theorem operation_decoded (c : KeyCommand) (valid : Bool) :
    convertEnumToOperation ((operationResult c.text valid >>> 1) &&&
        operationMask) = c.text ∧
      (operationResult c.text valid &&& 1 ≠ 0 ↔ valid = true) := by
  cases c <;> cases valid <;> decide

/-- What the regulator is to read. -/
def logReport (timestamp : Int64) (userKey oper : Str) (valid : Bool) : Str :=
  lit "Timestamp: " ++ timestampToDatetime timestamp ++
    lit ", User key: " ++ userKey ++ lit ", Operation: " ++ oper ++
    lit ", Result: " ++ (if valid then lit "valid" else lit "invalid")

/-- The decoder behind timestamp and threshold. -/
def decodeFields (timestamp : Int64) (fields : Str) : Except Exn Str := do
  let (userKey, afterUser) := splitEntry fields
  let (operationText, newValue) := splitEntry afterUser
  let operationResult := operationText.headD 0
  let head := logReport timestamp userKey
    (convertEnumToOperation ((operationResult >>> 1) &&& operationMask))
    (operationResult &&& 1 ≠ 0)
  if newValue = [] then
    return head
  else
    let text ← gdprMetadataFmt newValue
    return head ++ lit ", " ++ text

theorem decodeLogEntry_eq (entry : Str) (thres : Int64) :
    decodeLogEntry entry thres =
      if thres < readInt64 entry then .ok []
      else decodeFields (readInt64 entry) (entry.drop 9) := by
  have hValid : ∀ b : UInt8,
      (if b &&& 1 ≠ 0 then lit "valid" else lit "invalid") =
        if decide (b &&& 1 ≠ 0) = true then lit "valid" else lit "invalid" := by
    intro b
    simp
  unfold decodeLogEntry decodeFields logReport
  simp only [hValid]

/-- A user key without a comma is found, and what follows it. -/
theorem decodeFields_of_not_mem (timestamp : Int64) {userKey : Str}
    (hUser : comma ∉ userKey) (c : KeyCommand) (valid : Bool) :
    decodeFields timestamp
        (userKey ++ comma :: ([operationResult c.text valid] ++ [comma])) =
      .ok (logReport timestamp userKey c.text valid) := by
  obtain ⟨hOper, hValid⟩ := operation_decoded c valid
  have hOp : comma ∉ [operationResult c.text valid] := by
    simpa using (operationResult_ne_comma c.text valid).symm
  rw [decodeFields, splitEntry_append hUser]
  simp only
  rw [splitEntry_append hOp]
  simp only [List.headD_cons, hOper, hValid, Bool.decide_eq_true, if_true]
  rfl

/-! ## Separators in what is printed -/

private theorem bar_not_mem_twoDigits (n : Nat) : bar ∉ twoDigits n := by
  unfold twoDigits
  split
  · rw [List.mem_append, not_or]
    exact ⟨by decide, not_mem_digits (by decide) n⟩
  · exact not_mem_digits (by decide) n

theorem bar_not_mem_timestampToDatetime (timestamp : Int64) :
    bar ∉ timestampToDatetime timestamp := by
  have hYear : ∀ z : Int, bar ∉ intText z :=
    not_mem_intText (by decide) (by decide)
  have hDash : bar ∉ lit "-" := by decide
  have hBlank : bar ∉ lit " " := by decide
  have hColon : bar ∉ lit ":" := by decide
  simp only [timestampToDatetime, putTime, List.mem_append, not_or,
    bar_not_mem_twoDigits, hYear, hDash, hBlank, hColon, not_false_eq_true,
    and_self]

private theorem bar_not_mem_getPurposesString (bits : BitVec 64) :
    bar ∉ getPurposesString bits := by
  have hName : ∀ i, bar ∉ purposeName i := by
    intro i
    rw [purposeName, List.mem_append, not_or]
    exact ⟨by decide, not_mem_digits (by decide) i⟩
  have hComma : bar ≠ comma := by decide
  simp only [getPurposesString, List.mem_flatMap, not_exists, not_and]
  intro i _
  split
  · simp [hName, hComma]
  · simp

private theorem bar_not_mem_boolToStr (value : Bool) : bar ∉ boolToStr value := by
  cases value <;> decide

/-- A field is printed without separators. -/
theorem bar_not_mem_fmtField {count : Nat} {token text : Str}
    (hToken : bar ∉ token) (h : fmtField count token = .ok text) :
    bar ∉ text := by
  have hBlank : bar ∉ lit ", " := by decide
  unfold fmtField at h
  split at h
  case h_3 | h_4 =>
    cases hNum : stoull token with
    | error e => simp [hNum, bind, Except.bind] at h
    | ok bits =>
        simp only [hNum, bind, Except.bind, pure, Except.pure,
          Except.ok.injEq] at h
        rw [← h, List.mem_append, not_or]
        exact ⟨by decide, bar_not_mem_getPurposesString bits⟩
  case h_6 =>
    split at h
    · cases h
      decide
    · cases hNum : stoi token with
      | error e => simp [hNum, bind, Except.bind] at h
      | ok time =>
          simp only [hNum, bind, Except.bind, pure, Except.pure,
            Except.ok.injEq] at h
          rw [← h, List.mem_append, List.mem_append, not_or, not_or]
          exact ⟨⟨by decide, bar_not_mem_timestampToDatetime time⟩, hBlank⟩
  all_goals
    simp only [Except.ok.injEq] at h
    rw [← h]
    simp only [List.mem_append, not_or, hToken, hBlank,
      bar_not_mem_boolToStr, List.not_mem_nil, not_false_eq_true, and_true]
  all_goals decide

private theorem bar_not_mem_steps {fields : List Str}
    (hFree : ∀ field ∈ fields, bar ∉ field) {count : Nat} {res text : Str}
    (hRes : bar ∉ res) (h : steps fmtStep count fields res = .ok text) :
    bar ∉ text := by
  induction fields generalizing count res with
  | nil =>
      cases h
      exact hRes
  | cons field fields ih =>
      rw [List.forall_mem_cons] at hFree
      cases hField : fmtField count field with
      | error e => simp [steps, fmtStep, hField, bind, Except.bind] at h
      | ok piece =>
          simp only [steps, fmtStep, hField, bind, Except.bind, pure,
            Except.pure] at h
          refine ih hFree.2 ?_ h
          rw [List.mem_append, not_or]
          exact ⟨hRes, bar_not_mem_fmtField hFree.1 hField⟩

private theorem length_le_count_joinFields (fields : List Str) (rest : Str) :
    fields.length ≤ (joinFields bar fields rest).count bar := by
  induction fields with
  | nil => exact Nat.zero_le _
  | cons field fields ih =>
      rw [joinFields_cons, List.count_append, List.count_cons_self,
        List.length_cons]
      omega

/-- A new value that is printed has nine separators and loses them. -/
theorem gdprMetadataFmt_bars {value text : Str}
    (h : gdprMetadataFmt value = .ok text) :
    9 ≤ value.count bar ∧ bar ∉ text := by
  cases hScan : scan bar fmtStep maxGdprFieldGuard 0 value [] with
  | error e =>
      rw [gdprMetadataFmt, hScan] at h
      cases h
  | ok result =>
      obtain ⟨count, rest, printed⟩ := result
      rw [gdprMetadataFmt, hScan] at h
      simp only [bind, Except.bind, pure, Except.pure] at h
      obtain ⟨fields, rfl, hFree, hCount, -, hSteps, -⟩ := scan_eq_ok hScan
      split at h
      · cases h
      · rename_i hNine
        cases h
        have hLength := length_le_count_joinFields fields rest
        rw [maxGdprFieldGuard] at hNine
        exact ⟨by omega, bar_not_mem_steps hFree (by simp) hSteps⟩

/-! ## The round trip -/

private theorem operationResult_ne_bar (cmd : Str) (valid : Bool) :
    operationResult cmd valid ≠ bar := by
  unfold operationResult
  cases convertOperationToEnum cmd <;> cases valid <;> decide

/-- Behind the first comma of a user key there is always a new value, and its
separators are those of the user key. -/
private theorem newValue_of_comma (rest : Str) (op : UInt8) (hOp : op ≠ bar) :
    ∃ operationText newValue,
      splitEntry (rest ++ [comma, op, comma]) = (operationText, newValue) ∧
      newValue ≠ [] ∧ newValue.count bar ≤ rest.count bar := by
  have hMem : comma ∈ rest ++ [comma, op, comma] := by simp
  cases hCut : cut comma (rest ++ [comma, op, comma]) with
  | none => exact absurd hMem (cut_eq_none_iff.mp hCut)
  | some parts =>
      obtain ⟨operationText, newValue⟩ := parts
      obtain ⟨hText, hFree⟩ := cut_eq_some_iff.mp hCut
      refine ⟨operationText, newValue, by rw [splitEntry, hCut]; rfl, ?_, ?_⟩
      · rintro rfl
        -- the entry ends in a second comma
        have hEnd : rest ++ [comma, op] ++ [comma] = operationText ++ [comma] := by
          simpa using hText
        rw [← List.append_cancel_right hEnd] at hFree
        exact hFree (by simp)
      · have hCount := congrArg (List.count bar) hText
        have hComma : comma ≠ bar := by decide
        rw [List.count_append, List.count_append, List.count_cons_of_ne hComma,
          List.count_cons_of_ne hOp, List.count_cons_of_ne hComma,
          List.count_cons_of_ne hComma, List.count_nil] at hCount
        omega

private theorem count_bar_logReport (timestamp : Int64) (userKey oper : Str)
    (valid : Bool) (hOper : bar ∉ oper) :
    (logReport timestamp userKey oper valid).count bar = userKey.count bar := by
  have hTime := List.count_eq_zero.mpr (bar_not_mem_timestampToDatetime timestamp)
  have hOperCount := List.count_eq_zero.mpr hOper
  have hTexts : (lit "Timestamp: ").count bar = 0 ∧
      (lit ", User key: ").count bar = 0 ∧ (lit ", Operation: ").count bar = 0 ∧
      (lit ", Result: ").count bar = 0 := by decide
  have hValid : (if valid then lit "valid" else lit "invalid").count bar = 0 := by
    cases valid <;> decide
  simp only [logReport, List.count_append, hTime, hOperCount, hTexts.1,
    hTexts.2.1, hTexts.2.2.1, hTexts.2.2.2, hValid, Nat.zero_add, Nat.add_zero]

private theorem bar_not_mem_convertEnumToOperation (oper : UInt8) :
    bar ∉ convertEnumToOperation oper := by
  unfold convertEnumToOperation
  repeat' split
  all_goals decide

private theorem bar_not_mem_text (c : KeyCommand) : bar ∉ c.text := by
  cases c <;> decide

/-- A user key with a comma is never reported. -/
theorem decodeFields_of_mem (timestamp : Int64) {userKey : Str}
    (hUser : comma ∈ userKey) (c : KeyCommand) (valid : Bool) :
    decodeFields timestamp
        (userKey ++ comma :: ([operationResult c.text valid] ++ [comma])) ≠
      .ok (logReport timestamp userKey c.text valid) := by
  intro hSame
  obtain ⟨⟨front, rest⟩, hCut⟩ := Option.ne_none_iff_exists'.mp
    fun hNone => cut_eq_none_iff.mp hNone hUser
  obtain ⟨rfl, hFront⟩ := cut_eq_some_iff.mp hCut
  obtain ⟨operationText, newValue, hSplit, hNew, hBars⟩ :=
    newValue_of_comma rest _ (operationResult_ne_bar c.text valid)
  have hFields : (front ++ comma :: rest) ++
      comma :: ([operationResult c.text valid] ++ [comma]) =
      front ++ comma :: (rest ++
        [comma, operationResult c.text valid, comma]) := by
    simp
  rw [hFields, decodeFields, splitEntry_append hFront] at hSame
  simp only [hSplit, if_neg hNew] at hSame
  cases hFmt : gdprMetadataFmt newValue with
  | error e =>
      rw [hFmt] at hSame
      cases hSame
  | ok text =>
      obtain ⟨hNine, hText⟩ := gdprMetadataFmt_bars hFmt
      rw [hFmt] at hSame
      have hCount := congrArg (List.count bar) (Except.ok.inj hSame)
      have hBlank : (lit ", ").count bar = 0 := by decide
      have hComma : comma ≠ bar := by decide
      rw [List.count_append, List.count_append, hBlank,
        List.count_eq_zero.mpr hText,
        count_bar_logReport _ _ _ _ (bar_not_mem_convertEnumToOperation _),
        count_bar_logReport _ _ _ _ (bar_not_mem_text c), List.count_append,
        List.count_cons_of_ne hComma] at hCount
      omega

end GDPRuler.Controller
