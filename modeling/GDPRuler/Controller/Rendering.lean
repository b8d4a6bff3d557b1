import Mathlib.Data.List.Nodup
import GDPRuler.Controller.ClientTexts

/-!
# Rendered queries are read back

A client writes a query as predicates between `&`: one `query(CMD("key"))`, or
`query(PUT("key","value"))`, and options `name("argument")`, in any order.
This module describes what can be written that way and proves that the
constructor reads it back.

The parser looks for the first and the last parenthesis of a predicate and for
its first four quotation marks.  So parentheses may stand anywhere in keys,
values and arguments, quotation marks in arguments only, and `&` nowhere:
these are the conditions the types below carry.

Options set one field each, and options of different names set different
fields, so their order does not matter.  The two conditional purpose lists are
added to what is there; a query that does not repeat an option adds them to
nothing.

## Main results

* `processPredicate_render` — one predicate is read back;
* `foldlM_render` — so are predicates of different names one after another;
* `ofText_render` — **the query constructor undoes rendering**, in any order.
-/

namespace GDPRuler.Controller.Query

open GDPRuler.Verified GDPRuler.Verified.Delim GDPRuler.Verified.Decimal

/-! ## What a client writes -/

/-- A text that may stand between quotation marks in the query predicate. -/
abbrev QuotedText := { s : Str // quote ∉ s ∧ ampersand ∉ s }

/-- A text that may be the argument of an option. -/
abbrev ArgumentText := { s : Str // ampersand ∉ s }

/-- The commands; only a put has a value. -/
inductive Command
  | put (value : QuotedText)
  | get | delete | getm | putm | getlogs

def Command.text : Command → Str
  | .put _ => lit "put"
  | .get => lit "get"
  | .delete => lit "delete"
  | .getm => lit "getm"
  | .putm => lit "putm"
  | .getlogs => lit "getlogs"

/-- The texts `query_types` lists. -/
def queryTypes : List Str :=
  [lit "put", lit "get", lit "delete", lit "putm", lit "getm", lit "getlogs"]

theorem Command.text_mem (c : Command) : c.text ∈ queryTypes := by
  cases c <;> simp only [Command.text, queryTypes, List.mem_cons, true_or, or_true]

/-- What the query predicate says, with the command in any letter case. -/
structure Call where
  command : Command
  spelled : Str
  key : QuotedText
  hSpelled : spelled.map toLower = command.text

/-- A decimal integer that fits an `int`. -/
structure Numeral where
  negative : Bool
  digits : Str
  hNe : digits ≠ []
  hDigits : ∀ b ∈ digits, isDigit b = true
  hLow : -2 ^ 31 ≤ signed negative (Decimal.value digits)
  hHigh : signed negative (Decimal.value digits) < 2 ^ 31

/-- A list of purposes, by number; not empty, repetitions allowed. -/
abbrev PurposeList := { is : List (Fin numPurposes) // is ≠ [] }

inductive QueryOption
  | sessionKey (userKey : ArgumentText)
  | objOrig (origin : ArgumentText)
  | objShare (share : ArgumentText)
  | objExp (expiration : Numeral)
  | objPur (purposes : PurposeList)
  | objObjections (purposes : PurposeList)
  | monitor (flag : Bool)
  | objOrigIs (origin : ArgumentText)
  | objShareIs (share : ArgumentText)
  | objExpIs (expiration : Numeral)
  | objPurIs (purposes : PurposeList)
  | objObjectionsIs (purposes : PurposeList)
  | monitorIs (flag : Bool)

inductive Predicate
  | query (call : Call)
  | option (option : QueryOption)

/-! ## How it is written -/

def quoted (s : Str) : Str := quote :: (s ++ [quote])

/-- `name(body)` -/
def parenthesised (name body : Str) : Str :=
  name ++ openParen :: (body ++ [closeParen])

/-- What stands between the parentheses of the command. -/
def Call.args (call : Call) : Str :=
  match call.command with
  | .put value => quoted call.key ++ comma :: quoted value
  | _ => quoted call.key

def Numeral.text (z : Numeral) : Str :=
  if z.negative then 45 :: z.digits else z.digits

def PurposeList.text (purposes : PurposeList) : Str :=
  [comma].intercalate (purposes.val.map fun i => purposeName i.val)

def boolText (flag : Bool) : Str :=
  if flag then lit "true" else lit "false"

namespace QueryOption

def name : QueryOption → Str
  | sessionKey _ => lit "sessionKey"
  | objOrig _ => lit "objOrig"
  | objShare _ => lit "objShare"
  | objExp _ => lit "objExp"
  | objPur _ => lit "objPur"
  | objObjections _ => lit "objObjections"
  | monitor _ => lit "monitor"
  | objOrigIs _ => lit "objOrigIs"
  | objShareIs _ => lit "objShareIs"
  | objExpIs _ => lit "objExpIs"
  | objPurIs _ => lit "objPurIs"
  | objObjectionsIs _ => lit "objObjectionsIs"
  | monitorIs _ => lit "monitorIs"

/-- The names `parseOption` knows. -/
def names : List Str := textOptions ++ intOptions ++ boolOptions

theorem name_mem (o : QueryOption) : o.name ∈ names := by
  cases o <;> simp only [name, names, textOptions, intOptions, boolOptions,
    List.mem_append, List.mem_cons, true_or, or_true]

def argument : QueryOption → Str
  | sessionKey text | objOrig text | objShare text | objOrigIs text
  | objShareIs text => text
  | objExp z | objExpIs z => z.text
  | objPur purposes | objObjections purposes | objPurIs purposes
  | objObjectionsIs purposes => PurposeList.text purposes
  | monitor flag | monitorIs flag => boolText flag

end QueryOption

namespace Predicate

def name : Predicate → Str
  | query _ => lit "query"
  | option o => o.name

def render : Predicate → Str
  | query call =>
      parenthesised (lit "query") (parenthesised call.spelled call.args)
  | option o => parenthesised o.name (quoted o.argument)

end Predicate

/-- The predicates between `&`. -/
def render (predicates : List Predicate) : Str :=
  [ampersand].intercalate (predicates.map Predicate.render)

/-! ## What it says -/

def Numeral.toInt64 (z : Numeral) : Int64 :=
  Int64.ofInt (signed z.negative (Decimal.value z.digits))

/-- The listed purposes, one bit each. -/
def PurposeList.bits (purposes : PurposeList) : BitVec 64 :=
  purposes.val.foldl (fun bits i => bits ||| (1#64 <<< i.val)) 0

def Call.set (call : Call) (q : Query) : Query :=
  match call.command with
  | .put value =>
      { q with cmd := lit "put", key := call.key, value := value }
  | .getlogs => { q with cmd := lit "getlogs", logKey := call.key }
  | command => { q with cmd := command.text, key := call.key }

def QueryOption.set (q : Query) : QueryOption → Query
  | sessionKey text => { q with userKey := some text }
  | objOrig text => { q with origin := some text }
  | objShare text => { q with share := some text }
  | objExp z => { q with expiration := some z.toInt64 }
  | objPur purposes => { q with purpose := some purposes.bits }
  | objObjections purposes => { q with objection := some purposes.bits }
  | monitor flag => { q with monitor := some flag }
  | objOrigIs text => { q with condOrigin := text }
  | objShareIs text => { q with condShare := text }
  | objExpIs z => { q with condExpiration := z.toInt64 }
  | objPurIs purposes => { q with condPurpose := purposes.bits }
  | objObjectionsIs purposes => { q with condObjection := purposes.bits }
  | monitorIs flag => { q with condMonitor := flag }

/-- The query with the field of the predicate set. -/
def Predicate.set (q : Query) : Predicate → Query
  | query call => call.set q
  | option o => o.set q

/-! ## Arguments are read back -/

theorem stoi_text (z : Numeral) : stoi z.text = .ok z.toInt64 := by
  have hRead : readInt z.text = some (z.negative, Decimal.value z.digits) := by
    unfold Numeral.text
    cases z.negative with
    | true => exact readInt_minus z.hNe z.hDigits
    | false => exact readInt_of_forall z.hNe z.hDigits
  rw [stoi, hRead]
  exact if_pos ⟨z.hLow, z.hHigh⟩

theorem strToBool_boolText (flag : Bool) :
    strToBool (boolText flag) = .ok flag := by
  cases flag <;> rfl

/-- A byte that neither a purpose nor a comma is made of. -/
private theorem not_mem_purposes {b : UInt8} (hDigit : isDigit b = false)
    (hName : b ∉ lit "purpose") (i : Nat) : b ∉ purposeName i := by
  rw [purposeName, List.mem_append, not_or]
  exact ⟨hName, not_mem_digits hDigit i⟩

theorem setBitmap_text (purposes : PurposeList) :
    setBitmap 0 (splitCommaString purposes.text) = purposes.bits := by
  obtain ⟨is, hNe⟩ := purposes
  have hFree : ∀ name ∈ is.map fun i => purposeName i.val, comma ∉ name := by
    intro name hMem
    obtain ⟨i, -, rfl⟩ := List.mem_map.mp hMem
    exact not_mem_purposes (by decide) (by decide) i
  have hBits : ∀ bits : BitVec 64, setBitmap bits (is.map fun i => purposeName i.val) =
      is.foldl (fun bits i => bits ||| (1#64 <<< i.val)) bits := by
    intro bits
    rw [setBitmap, List.foldl_map]
    congr 1
    funext bits i
    rw [getPur_purposeName i.isLt]
  rw [PurposeList.text, splitCommaString_intercalate (by simpa using hNe) hFree]
  exact hBits 0

/-! ## Parentheses -/

theorem predAttr_parenthesised {name : Str} (hName : openParen ∉ name)
    (body : Str) : predAttr (parenthesised name body) = name := by
  rw [predAttr, parenthesised, cut_append hName]

theorem predVal_parenthesised {name : Str} (hName : openParen ∉ name)
    (body : Str) : predVal (parenthesised name body) = body := by
  have hBehind : behind (parenthesised name body) = body ++ [closeParen] := by
    rw [behind, parenthesised, cut_append hName]
  rw [predVal, hBehind, cutLast_append body (by simp)]

/-! ## Quotation marks -/

/-- The distance between two marks, the marks themselves left out. -/
private theorem size_quoted (n size : Nat) (h : n + 1 + size < 2 ^ 64) :
    sizeSub (sizeSub (n + 1 + size) n) 1 = size := by
  unfold sizeSub
  omega

section Quotes

variable {front text rest : Str} (hFront : quote ∉ front) (hText : quote ∉ text)

/-- The mark that ends a text, looked for behind the one that opens it. -/
private theorem find_close (front : Str) (hText : quote ∉ text) (rest : Str) :
    find quote (front ++ quote :: (text ++ quote :: rest)) (front.length + 1) =
      front.length + 1 + text.length := by
  have h := find_append hText (front ++ [quote]) rest
  simpa using h

private theorem substr_quoted (front text rest : Str) :
    substr (front ++ quote :: (text ++ quote :: rest)) (front.length + 1)
      text.length = .ok text := by
  have h := substr_append (front ++ [quote]) text (quote :: rest)
  simpa using h

include hFront hText

theorem extractKey_quoted
    (hFits : (front ++ quote :: (text ++ quote :: rest)).length < npos) :
    extractKey (front ++ quote :: (text ++ quote :: rest)) = .ok text := by
  have hOpen : find quote (front ++ quote :: (text ++ quote :: rest)) 0 =
      front.length := by
    simpa using find_append hFront [] (text ++ quote :: rest)
  simp only [List.length_append, List.length_cons, npos] at hFits
  have hNext : sizeAdd front.length 1 = front.length + 1 :=
    sizeAdd_of_lt (by omega)
  have hSize := size_quoted front.length text.length (by omega)
  rw [extractKey]
  simp only [hOpen, hNext, find_close front hText]
  rw [if_neg (by rw [npos]; omega), hSize]
  exact substr_quoted front text rest

/-- The value of a put stands in the second pair of marks. -/
theorem extractValue_quoted {value : Str} (hValue : quote ∉ value)
    (hFits : (front ++ quote :: (text ++ quote ::
      comma :: quote :: (value ++ quote :: rest))).length < npos) :
    extractValue (front ++ quote :: (text ++ quote ::
      comma :: quote :: (value ++ quote :: rest))) = .ok value := by
  have hOpen : find quote (front ++ quote :: (text ++ quote ::
      comma :: quote :: (value ++ quote :: rest))) 0 = front.length := by
    simpa using find_append hFront [] _
  have hClose := find_close front hText (comma :: quote :: (value ++ quote :: rest))
  have hThird : find quote (front ++ quote :: (text ++ quote ::
      comma :: quote :: (value ++ quote :: rest)))
      (front.length + 1 + text.length + 1) =
        front.length + text.length + 3 := by
    have hComma : quote ∉ [comma] := by decide
    have h := find_append hComma (front ++ quote :: (text ++ [quote]))
      (value ++ quote :: rest)
    simp only [List.append_assoc, List.cons_append, List.nil_append,
      List.length_append, List.length_cons, List.length_nil] at h
    rw [show front.length + 1 + text.length + 1 =
      front.length + (text.length + (0 + 1) + 1) by omega, h]
    omega
  -- the second pair of marks, seen as the first one behind the key
  have hBehind : front ++ quote :: (text ++ quote ::
      comma :: quote :: (value ++ quote :: rest)) =
      (front ++ quote :: (text ++ [quote, comma])) ++
        quote :: (value ++ quote :: rest) := by simp
  have hLength : (front ++ quote :: (text ++ [quote, comma])).length =
      front.length + text.length + 3 := by
    simp only [List.length_append, List.length_cons, List.length_nil]
    omega
  have hFourth := find_close (front ++ quote :: (text ++ [quote, comma])) hValue
    rest
  have hPart := substr_quoted (front ++ quote :: (text ++ [quote, comma])) value
    rest
  rw [← hBehind, hLength] at hFourth hPart
  simp only [List.length_append, List.length_cons, npos] at hFits
  have hNext : ∀ n, n ≤ front.length + text.length + 3 →
      sizeAdd n 1 = n + 1 := fun n hn => sizeAdd_of_lt (by omega)
  have hSize := size_quoted (front.length + text.length + 3) value.length
    (by omega)
  rw [extractValue]
  simp only [hOpen]
  rw [hNext front.length (by omega), hClose,
    hNext (front.length + 1 + text.length) (by omega), hThird,
    hNext (front.length + text.length + 3) (by omega), hFourth,
    if_neg (by rw [npos]; omega), hSize]
  exact hPart

end Quotes

/-! ## One predicate -/

/-- A conditional purpose list finds nothing to be added to. -/
def Predicate.Fresh (q : Query) : Predicate → Prop
  | option (.objPurIs _) => q.condPurpose = 0
  | option (.objObjectionsIs _) => q.condObjection = 0
  | _ => True

theorem parseOption_argument (q : Query) (o : QueryOption)
    (hFresh : (Predicate.option o).Fresh q) :
    parseOption q o.name o.argument = .ok (o.set q) := by
  cases o with
  | sessionKey text => rfl
  | objOrig text => rfl
  | objShare text => rfl
  | objExp z =>
      show (stoi z.text >>= fun n => _) = _
      rw [stoi_text]
      rfl
  | objPur purposes =>
      show Except.ok { q with
        purpose := some (setBitmap 0 (splitCommaString purposes.text)) } = _
      rw [setBitmap_text]
      rfl
  | objObjections purposes =>
      show Except.ok { q with
        objection := some (setBitmap 0 (splitCommaString purposes.text)) } = _
      rw [setBitmap_text]
      rfl
  | monitor flag =>
      show (strToBool (boolText flag) >>= fun b => _) = _
      rw [strToBool_boolText]
      rfl
  | objOrigIs text => rfl
  | objShareIs text => rfl
  | objExpIs z =>
      show (stoi z.text >>= fun n => _) = _
      rw [stoi_text]
      rfl
  | objPurIs purposes =>
      show Except.ok { q with
        condPurpose :=
          setBitmap q.condPurpose (splitCommaString purposes.text) } = _
      rw [show q.condPurpose = 0 from hFresh, setBitmap_text]
      rfl
  | objObjectionsIs purposes =>
      show Except.ok { q with
        condObjection :=
          setBitmap q.condObjection (splitCommaString purposes.text) } = _
      rw [show q.condObjection = 0 from hFresh, setBitmap_text]
      rfl
  | monitorIs flag =>
      show (strToBool (boolText flag) >>= fun b => _) = _
      rw [strToBool_boolText]
      rfl

namespace Call

variable (call : Call)

/-- A byte without a letter case that the command is not made of. -/
theorem not_mem_spelled {b : UInt8} (hCase : toLower b = b)
    (hText : b ∉ call.command.text) : b ∉ call.spelled := by
  intro hMem
  rw [← call.hSpelled] at hText
  exact hText (List.mem_map.mpr ⟨b, hMem, hCase⟩)

theorem openParen_not_mem_spelled : openParen ∉ call.spelled := by
  have hTypes : ∀ text ∈ queryTypes, openParen ∉ text := by decide
  exact call.not_mem_spelled (by decide) (hTypes _ call.command.text_mem)

private theorem quote_not_mem_front : quote ∉ call.spelled ++ [openParen] := by
  have hTypes : ∀ text ∈ queryTypes, quote ∉ text := by decide
  rw [List.mem_append, not_or]
  exact ⟨call.not_mem_spelled (by decide) (hTypes _ call.command.text_mem),
    by decide⟩

/-- The key is read whatever follows it between the parentheses. -/
theorem extractKey_body (rest : Str)
    (hFits : (parenthesised call.spelled
      (quoted call.key ++ rest)).length < npos) :
    extractKey (parenthesised call.spelled (quoted call.key ++ rest)) =
      .ok call.key := by
  have hBody : parenthesised call.spelled (quoted call.key ++ rest) =
      (call.spelled ++ [openParen]) ++
        quote :: (call.key ++ quote :: (rest ++ [closeParen])) := by
    simp [parenthesised, quoted]
  rw [hBody] at hFits ⊢
  exact extractKey_quoted call.quote_not_mem_front call.key.2.1 hFits

private theorem extractValue_body (value : QuotedText)
    (hFits : (parenthesised call.spelled
      (quoted call.key ++ comma :: quoted value)).length < npos) :
    extractValue (parenthesised call.spelled
      (quoted call.key ++ comma :: quoted value)) = .ok value := by
  have hBody : parenthesised call.spelled
      (quoted call.key ++ comma :: quoted value) =
      (call.spelled ++ [openParen]) ++ quote :: (call.key ++ quote ::
        comma :: quote :: (value ++ quote :: [closeParen])) := by
    simp [parenthesised, quoted]
  rw [hBody] at hFits ⊢
  exact extractValue_quoted call.quote_not_mem_front call.key.2.1 value.2.1 hFits

theorem parseQuery_body (q : Query)
    (hFits : (parenthesised call.spelled call.args).length < npos) :
    parseQuery { q with cmd := call.command.text }
      (parenthesised call.spelled call.args) = .ok (call.set q) := by
  have hPlain := call.extractKey_body []
  rw [List.append_nil] at hPlain
  rw [parseQuery, set]
  rw [args] at hFits ⊢
  cases hCommand : call.command with
  | put value =>
      rw [hCommand] at hFits
      have hKey := call.extractKey_body _ hFits
      have hValue := call.extractValue_body value hFits
      have hGetlogs : lit "put" ≠ lit "getlogs" := by decide
      simp only [Command.text] at hKey hValue ⊢
      rw [if_neg hGetlogs, if_pos trivial, hValue, hKey]
      rfl
  | getlogs =>
      rw [hCommand] at hFits
      have hKey := hPlain hFits
      simp only at hKey ⊢
      rw [if_pos (by decide), hKey]
      rfl
  | _ =>
      rw [hCommand] at hFits
      have hKey := hPlain hFits
      simp only at hKey ⊢
      rw [if_neg (by decide), if_neg (by decide), hKey]
      rfl

end Call

/-- **One predicate is read back.** -/
theorem processPredicate_render (q : Query) {p : Predicate} (hFresh : p.Fresh q)
    (hFits : p.render.length < npos) :
    processPredicate q p.render = .ok (p.set q) := by
  rw [processPredicate_eq q hFits]
  cases p with
  | query call =>
      have hName : openParen ∉ lit "query" := by decide
      have hBody : (parenthesised call.spelled call.args).length < npos := by
        simp only [Predicate.render, parenthesised, List.length_append,
          List.length_cons] at hFits ⊢
        omega
      have hTypes : ∀ text ∈ queryTypes, text ≠ lit "exit" := by decide
      have hExit := hTypes _ call.command.text_mem
      simp only [Predicate.render, predAttr_parenthesised hName,
        predVal_parenthesised hName,
        predAttr_parenthesised call.openParen_not_mem_spelled, call.hSpelled,
        if_neg hExit]
      exact call.parseQuery_body q hBody
  | option o =>
      have hNames : ∀ name ∈ QueryOption.names,
          openParen ∉ name ∧ name ≠ lit "query" := by decide
      obtain ⟨hName, hQuery⟩ := hNames _ o.name_mem
      have hNe : quoted o.argument ≠ [] := List.cons_ne_nil _ _
      have hArgument : ((quoted o.argument).drop 1).take
          ((quoted o.argument).length - 2) = o.argument := by
        simp [quoted]
      simp only [Predicate.render, predAttr_parenthesised hName,
        predVal_parenthesised hName, if_neg hQuery, if_neg hNe, hArgument]
      exact parseOption_argument q o hFresh

/-! ## Predicates of different names -/

namespace Predicate

theorem condPurpose_set (q : Query) {p : Predicate}
    (h : p.name ≠ lit "objPurIs") : (p.set q).condPurpose = q.condPurpose := by
  cases p with
  | query call => cases hCommand : call.command <;> simp [set, Call.set, hCommand]
  | option o => cases o <;> first | rfl | exact absurd rfl h

theorem condObjection_set (q : Query) {p : Predicate}
    (h : p.name ≠ lit "objObjectionsIs") :
    (p.set q).condObjection = q.condObjection := by
  cases p with
  | query call => cases hCommand : call.command <;> simp [set, Call.set, hCommand]
  | option o => cases o <;> first | rfl | exact absurd rfl h

/-- Setting a field leaves the others as fresh as they were. -/
theorem Fresh.set {q : Query} {p later : Predicate} (h : later.Fresh q)
    (hName : p.name ≠ later.name) : later.Fresh (p.set q) := by
  cases later with
  | query call => trivial
  | option o =>
      cases o with
      | objPurIs purposes => exact (condPurpose_set q hName).trans h
      | objObjectionsIs purposes => exact (condObjection_set q hName).trans h
      | _ => trivial

theorem first_fresh (p : Predicate) : p.Fresh {} := by
  cases p with
  | query call => trivial
  | option o => cases o <;> trivial

/-- Predicates of different names set different fields. -/
theorem set_comm (q : Query) {p p' : Predicate} (hName : p.name ≠ p'.name) :
    p'.set (p.set q) = p.set (p'.set q) := by
  cases p with
  | query call =>
      cases p' with
      | query call' => exact absurd rfl hName
      | option o =>
          cases hCommand : call.command <;>
            cases o <;> simp only [set, Call.set, QueryOption.set, hCommand]
  | option o =>
      cases p' with
      | query call =>
          cases hCommand : call.command <;>
            cases o <;> simp only [set, Call.set, QueryOption.set, hCommand]
      | option o' => cases o <;> cases o' <;> first | rfl | exact absurd rfl hName

end Predicate

/-- **Predicates of different names are read back** one after another. -/
theorem foldlM_render {predicates : List Predicate} (q : Query)
    (hFresh : ∀ p ∈ predicates, p.Fresh q)
    (hNames : (predicates.map Predicate.name).Nodup)
    (hFits : ∀ p ∈ predicates, p.render.length < npos) :
    (predicates.map Predicate.render).foldlM processPredicate q =
      .ok (predicates.foldl Predicate.set q) := by
  induction predicates generalizing q with
  | nil => rfl
  | cons p ps ih =>
      rw [List.forall_mem_cons] at hFresh hFits
      rw [List.map_cons, List.nodup_cons] at hNames
      have hLater : ∀ later ∈ ps, later.Fresh (p.set q) := by
        intro later hMem
        refine (hFresh.2 later hMem).set fun hSame => hNames.1 ?_
        exact List.mem_map.mpr ⟨later, hMem, hSame.symm⟩
      rw [List.map_cons, List.foldlM_cons,
        processPredicate_render q hFresh.1 hFits.1]
      exact ih (p.set q) hLater hNames.2 hFits.2

/-! ## Queries -/

private theorem not_mem_intercalate {b c : UInt8} (hNe : b ≠ c) {texts : List Str}
    (hTexts : ∀ text ∈ texts, b ∉ text) : b ∉ [c].intercalate texts := by
  intro hMem
  exact forall_mem_intercalate (P := fun a => a ≠ b) hNe.symm
    (fun text hText a ha hEq => hTexts text hText (hEq ▸ ha)) b hMem rfl

private theorem not_mem_quoted {s : Str} (h : ampersand ∉ s) :
    ampersand ∉ quoted s := by
  have hQuote : ampersand ≠ quote := by decide
  simp [quoted, h, hQuote]

private theorem not_mem_parenthesised {name body : Str}
    (hName : ampersand ∉ name) (hBody : ampersand ∉ body) :
    ampersand ∉ parenthesised name body := by
  have hOpen : ampersand ≠ openParen := by decide
  have hClose : ampersand ≠ closeParen := by decide
  simp [parenthesised, hName, hBody, hOpen, hClose]

private theorem Call.ampersand_not_mem_args (call : Call) :
    ampersand ∉ call.args := by
  have hKey := not_mem_quoted call.key.2.2
  unfold Call.args
  cases call.command with
  | put value =>
      have hComma : ampersand ≠ comma := by decide
      have hValue := not_mem_quoted value.2.2
      simp [hKey, hComma, hValue]
  | _ => exact hKey

private theorem QueryOption.ampersand_not_mem_argument (o : QueryOption) :
    ampersand ∉ o.argument := by
  have hNumeral : ∀ z : Numeral, ampersand ∉ z.text := by
    intro z hMem
    have hDigits : ampersand ∉ z.digits := fun hDigit =>
      absurd (z.hDigits _ hDigit) (by decide)
    have hMinus : ampersand ≠ 45 := by decide
    unfold Numeral.text at hMem
    split at hMem
    · exact (List.mem_cons.mp hMem).elim hMinus hDigits
    · exact hDigits hMem
  have hPurposes : ∀ purposes : PurposeList, ampersand ∉ purposes.text := by
    intro purposes
    refine not_mem_intercalate (by decide) fun name hMem => ?_
    obtain ⟨i, -, rfl⟩ := List.mem_map.mp hMem
    exact not_mem_purposes (by decide) (by decide) i
  have hFlag : ∀ flag, ampersand ∉ boolText flag := by decide
  cases o with
  | sessionKey text | objOrig text | objShare text | objOrigIs text
  | objShareIs text => exact text.2
  | objExp z | objExpIs z => exact hNumeral z
  | objPur purposes | objObjections purposes | objPurIs purposes
  | objObjectionsIs purposes => exact hPurposes purposes
  | monitor flag | monitorIs flag => exact hFlag flag

theorem Predicate.ampersand_not_mem_render (p : Predicate) :
    ampersand ∉ p.render := by
  cases p with
  | query call =>
      have hTypes : ∀ text ∈ queryTypes, ampersand ∉ text := by decide
      have hSpelled := call.not_mem_spelled (by decide)
        (hTypes _ call.command.text_mem)
      exact not_mem_parenthesised (by decide)
        (not_mem_parenthesised hSpelled call.ampersand_not_mem_args)
  | option o =>
      have hNames : ∀ name ∈ QueryOption.names, ampersand ∉ name := by decide
      exact not_mem_parenthesised (hNames _ o.name_mem)
        (not_mem_quoted o.ampersand_not_mem_argument)

/-- The predicates of a query are told apart. -/
theorem tokens_render {predicates : List Predicate} (hNe : predicates ≠ []) :
    tokens ampersand (render predicates).length (render predicates) =
      predicates.map Predicate.render := by
  have hFree : ∀ text ∈ predicates.map Predicate.render, ampersand ∉ text := by
    intro text hMem
    obtain ⟨p, -, rfl⟩ := List.mem_map.mp hMem
    exact p.ampersand_not_mem_render
  rw [tokens_eq_splitOn (Nat.le_refl _), render,
    List.splitOn_intercalate ampersand hFree (by simpa using hNe)]

/-- **The query constructor undoes rendering**: the predicates of a call and
of options of different names, in any order, give the query with the call's
fields and the options' fields set and all others left out. -/
theorem ofText_render (call : Call) {options : List QueryOption}
    (hDistinct : (options.map QueryOption.name).Nodup)
    {predicates : List Predicate}
    (hPerm : predicates.Perm (.query call :: options.map .option))
    (hFits : (render predicates).length < npos) :
    ofText (render predicates) =
      .ok (options.foldl QueryOption.set (call.set {})) := by
  have hNe : predicates ≠ [] := by
    rintro rfl
    exact absurd hPerm.length_eq (by simp)
  have hNames : (predicates.map Predicate.name).Nodup := by
    rw [(hPerm.map Predicate.name).nodup_iff, List.map_cons, List.map_map,
      List.nodup_cons]
    refine ⟨fun hMem => ?_, hDistinct⟩
    obtain ⟨o, -, hSame⟩ := List.mem_map.mp hMem
    have hName : o.name = lit "query" := hSame
    have hQuery : lit "query" ∉ QueryOption.names := by decide
    exact hQuery (hName ▸ o.name_mem)
  have hShort : ∀ p ∈ predicates, p.render.length < npos := by
    intro p hMem
    have hToken : p.render ∈ predicates.map Predicate.render :=
      List.mem_map_of_mem hMem
    rw [← tokens_render hNe] at hToken
    exact Nat.lt_of_le_of_lt (length_le_of_mem_tokens hToken) hFits
  rw [ofText, tokens_render hNe,
    foldlM_render {} (fun p _ => p.first_fresh) hNames hShort]
  -- the order in which different fields are set does not matter
  have hOrder : predicates.foldl Predicate.set {} =
      (Predicate.query call :: options.map .option).foldl Predicate.set {} := by
    refine hPerm.foldl_eq' (fun p hp p' hp' q => ?_) _
    by_cases hSame : p = p'
    · rw [hSame]
    · exact Predicate.set_comm q fun hName =>
        hSame (List.inj_on_of_nodup_map hNames hp hp' hName)
  rw [hOrder, List.foldl_cons, List.foldl_map]
  rfl

/-- A put whose key and value hold parentheses. -/
def bracketedPut : Call where
  command := .put ⟨lit "v,)w", by decide⟩
  spelled := lit "Put"
  key := ⟨lit "k(1)", by decide⟩
  hSpelled := by decide

def quotedShare : QueryOption := .objShare ⟨lit "\"bob\"(", by decide⟩

def askedPurposes : QueryOption :=
  .objPurIs ⟨[⟨3, by decide⟩, ⟨1, by decide⟩], by decide⟩

/-- The put between its two options. -/
theorem ofText_render_bracketedPut :
    ofText (lit "objShare(\"\"bob\"(\")&query(Put(\"k(1)\",\"v,)w\"))" ++
      lit "&objPurIs(\"purpose3,purpose1\")") =
      .ok { cmd := lit "put", key := lit "k(1)", value := lit "v,)w",
            share := some (lit "\"bob\"("), condPurpose := 10 } := by
  have hText : lit "objShare(\"\"bob\"(\")&query(Put(\"k(1)\",\"v,)w\"))" ++
      lit "&objPurIs(\"purpose3,purpose1\")" =
      render [.option quotedShare, .query bracketedPut,
        .option askedPurposes] := by
    decide +kernel
  have hDistinct :
      ([askedPurposes, quotedShare].map QueryOption.name).Nodup := by decide
  rw [hText]
  exact ofText_render bracketedPut hDistinct
    ((List.Perm.swap _ _ _).trans ((List.Perm.swap _ _ _).cons _))
    (by decide +kernel)

end GDPRuler.Controller.Query
