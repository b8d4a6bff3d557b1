import Mathlib.Data.List.Infix
import GDPRuler.Verified.Utf8
import GDPRuler.Controller.Rendering
import GDPRuler.PolicyCompiler.QueryAnalyser

/-!
# Two front ends

The analyser of the baseline and the query constructor of the controller read
the same texts.  The constructor looks for quotation marks and takes what is
between them; the analyser splits at the word `query`, at `(` and at `,`,
wherever they stand, and strips what it finds.

So the two agree on a call exactly if its key, and for a put its value, is not
split or stripped.  Where they do not, the line of the analyser is shorter than
the key and the value are, or there is none.

## Main results

* `KvCall.ofText_text` — what the constructor reads of a call;
* `KvCall.callLine_seenArgs_iff` — when the analyser reads the same;
* `KvCall.agree_iff` — **the calls the front ends agree on**.
-/

namespace GDPRuler.PolicyCompiler

open GDPRuler.Verified GDPRuler.Verified.Delim GDPRuler.Verified.Words
open GDPRuler.Verified.Utf8
open GDPRuler.Controller

/-! ## Calls -/

/-- A text that may stand between quotation marks. -/
abbrev Field := { text : PyStr // '"' ∉ text ∧ '&' ∉ text }

/-- A put, get or delete with the command in any letter case.  A get or a delete
may go without the value. -/
structure KvCall where
  command : KvCommand
  spelled : PyStr
  key : Field
  value : Option Field
  hSpelled : lower spelled = command.text
  hValue : command = .put → value ≠ none

/-- What follows the key. -/
def argsAfter : Option Field → PyStr
  | none => []
  | some value => ',' :: '"' :: (value ++ ['"'])

/-- What is between the parentheses of the command, the first quotation mark
apart. -/
def KvCall.rest (call : KvCall) : PyStr :=
  call.key ++ '"' :: argsAfter call.value

/-- `query(CMD("key"))` or `query(CMD("key","value"))` -/
def KvCall.text (call : KvCall) : PyStr :=
  py "query" ++ '(' :: (call.spelled ++ '(' :: '"' :: (call.rest ++ [')', ')']))

/-- A text that is neither split nor stripped. -/
def Kept (text : PyStr) : Prop :=
  ',' ∉ text ∧ '(' ∉ text ∧ ¬ py "query" <:+: text ∧ strip text = text

instance (text : PyStr) : Decidable (Kept text) := by
  unfold Kept
  infer_instance

/-! ## What is seen of the arguments -/

section Seen

variable {rest : PyStr}

private theorem strip_isPrefix_of_quote {s : PyStr} (h : s <+: '"' :: rest) :
    strip s <+: s := by
  rcases List.prefix_cons_iff.mp h with rfl | ⟨tail, rfl, -⟩
  · exact List.prefix_refl _
  · exact strip_isPrefix (by decide) tail

/-- The arguments up to the next `query` and the next `(`. -/
private theorem before_rest_isPrefix (rest : PyStr) :
    before (py "(") ('"' :: before (py "query") rest).dropLast <+:
      ('"' :: rest).dropLast :=
  (before_isPrefix _ _).trans (dropLast_isPrefix_dropLast
    (List.cons_prefix_cons.mpr ⟨rfl, before_isPrefix _ _⟩))

/-- What is seen is the arguments, or the first part of them. -/
theorem seenArgs_isPrefix (rest : PyStr) :
    seenArgs (rest ++ [')', ')']) <+: '"' :: rest := by
  have hFront := before_rest_isPrefix (rest ++ [')', ')'])
  have hQuote := hFront.trans (List.dropLast_prefix _)
  have hStrip := (strip_isPrefix_of_quote hQuote).trans hFront
  have hSeen := dropLast_isPrefix_dropLast hStrip
  have hLast : ('"' :: (rest ++ [')', ')'])).dropLast.dropLast = '"' :: rest := by
    rw [show '"' :: (rest ++ [')', ')']) = (('"' :: rest) ++ [')']) ++ [')'] by
      simp, List.dropLast_concat, List.dropLast_concat]
  rwa [hLast] at hSeen

private theorem length_seenArgs_le_before (rest : PyStr) :
    (seenArgs rest).length ≤ (before (py "(")
      ('"' :: before (py "query") rest).dropLast).length - 1 := by
  have hStrip := (strip_sublist
    (before (py "(") ('"' :: before (py "query") rest).dropLast)).length_le
  rw [seenArgs, List.length_dropLast]
  omega

/-- Nothing behind the next `query` is seen. -/
theorem length_seenArgs_le (rest : PyStr) :
    (seenArgs rest).length ≤ (before (py "query") rest).length - 1 := by
  have hSeen := length_seenArgs_le_before rest
  have hFront := (before_isPrefix (py "(")
    ('"' :: before (py "query") rest).dropLast).length_le
  rw [List.length_dropLast, List.length_cons] at hFront
  omega

/-- Nothing behind the next `(` is seen. -/
theorem length_seenArgs_le_of_paren (front back : PyStr) :
    (seenArgs (front ++ '(' :: back)).length ≤ front.length := by
  have hSeen := length_seenArgs_le_before (front ++ '(' :: back)
  have hPrefix := (before_rest_isPrefix (front ++ '(' :: back)).trans
    (List.dropLast_prefix _)
  have hFront := (prefix_of_not_mem (a := '"' :: front) hPrefix
    (not_mem_before '(' _)).length_le
  rw [List.length_cons] at hFront
  have hBefore : (before (py "(") ('"' :: before (py "query")
      (front ++ '(' :: back)).dropLast).length ≤ front.length + 1 := hFront
  omega

/-- What stands in front of the next `query` and the next `(` is seen, but for
its last character. -/
theorem length_le_seenArgs {front : PyStr} {c d : Char}
    (h : front ++ [c, d] <+: before (py "query") rest) (hParen : '(' ∉ front)
    (hMark : c ≠ '(') (hBlank : isBlank c = false) :
    front.length + 1 ≤ (seenArgs rest).length := by
  have hCut : '"' :: (front ++ [c]) <+:
      ('"' :: before (py "query") rest).dropLast := by
    have hDrop := dropLast_isPrefix_dropLast
      (List.cons_prefix_cons.mpr ⟨rfl, h⟩ :
        '"' :: (front ++ [c, d]) <+: '"' :: before (py "query") rest)
    rwa [show '"' :: (front ++ [c, d]) = ('"' :: (front ++ [c])) ++ [d] by simp,
      List.dropLast_concat] at hDrop
  have hNot : '(' ∉ '"' :: (front ++ [c]) := by
    simp [hParen, Ne.symm hMark]
  obtain ⟨more, hMore⟩ := prefix_before hCut hNot
  have hStrip := (prefix_strip (c := '"') (by decide) hBlank front more).length_le
  rw [show '"' :: (front ++ c :: more) = '"' :: (front ++ [c]) ++ more by simp,
    hMore, List.length_cons, List.length_append, List.length_singleton] at hStrip
  rw [seenArgs, List.length_dropLast]
  show _ ≤ (strip (before ['('] _)).length - 1
  omega

end Seen

/-! ## Fields -/

private theorem length_strip_lt {text : PyStr} (hKept : ¬ Kept text)
    (hComma : ',' ∉ text) (hParen : '(' ∉ text)
    (hQuery : ¬ py "query" <:+: text) : (strip text).length < text.length := by
  have hStrip : strip text ≠ text := fun h => hKept ⟨hComma, hParen, hQuery, h⟩
  have hSub := strip_sublist text
  exact Nat.lt_of_le_of_ne hSub.length_le fun h => hStrip (hSub.eq_of_length h)

/-- A text that is split or stripped is not empty. -/
private theorem length_pos_of_not_kept {text : PyStr} (h : ¬ Kept text) :
    0 < text.length := by
  have hNil : Kept [] := by decide
  exact List.length_pos_iff.mpr fun hEq => h (hEq ▸ hNil)

section Fields

variable {args text more : PyStr}
  (hArgs : args <+: '"' :: (text ++ '"' :: more))

private theorem length_field_le_piece (args : PyStr) :
    (field args).length ≤ (before (py ",") args).length - 2 := by
  have hStrip := (strip_sublist (slice (before (py ",") args))).length_le
  rw [slice, List.length_dropLast, List.length_tail] at hStrip
  rw [field, slice]
  omega

include hArgs

/-- The first piece ends with the quotation mark behind the text. -/
private theorem piece_isPrefix (hMore : more = [] ∨ ∃ m, more = ',' :: m) :
    before (py ",") args <+: '"' :: (text ++ ['"']) := by
  have hPiece := (before_isPrefix (py ",") args).trans hArgs
  rcases hMore with rfl | ⟨m, rfl⟩
  · exact hPiece
  · refine prefix_of_not_mem (c := ',') (b := m) ?_ (not_mem_before ',' args)
    simpa using hPiece

theorem length_field_le (hMore : more = [] ∨ ∃ m, more = ',' :: m) :
    (field args).length ≤ text.length := by
  have hPiece := (piece_isPrefix hArgs hMore).length_le
  have hField := length_field_le_piece args
  simp only [List.length_cons, List.length_append, List.length_nil] at hPiece
  omega

/-- A text that is split or stripped is read too short. -/
theorem length_field_lt (hMore : more = [] ∨ ∃ m, more = ',' :: m)
    (hShort : '(' ∈ text ∨ py "query" <:+: text →
      args.length ≤ text.length + 1) (hKept : ¬ Kept text) :
    (field args).length < text.length := by
  have hPiece := piece_isPrefix hArgs hMore
  have hLength := hPiece.length_le
  have hField := length_field_le_piece args
  have hPos := length_pos_of_not_kept hKept
  simp only [List.length_cons, List.length_append, List.length_nil] at hLength
  by_cases hComma : ',' ∈ text
  · obtain ⟨front, back, rfl⟩ := List.append_of_mem hComma
    have hFront : before (py ",") args <+: '"' :: front := by
      refine prefix_of_not_mem (c := ',') (b := back ++ ['"']) ?_
        (not_mem_before ',' args)
      simpa using hPiece
    have hCut := hFront.length_le
    simp only [List.length_cons, List.length_append] at hCut hPos ⊢
    omega
  · by_cases hFull : (before (py ",") args).length = text.length + 2
    · have hLong := (before_isPrefix (py ",") args).length_le
      have hParen : '(' ∉ text := fun h => by
        have hArgsShort := hShort (.inl h)
        omega
      have hQuery : ¬ py "query" <:+: text := fun h => by
        have hArgsShort := hShort (.inr h)
        omega
      have hWhole : before (py ",") args = '"' :: (text ++ ['"']) :=
        hPiece.eq_of_length (by simp [hFull])
      have hStrip := length_strip_lt hKept hComma hParen hQuery
      rw [field, hWhole]
      simpa [slice] using hStrip
    · omega

/-- A text that is kept is read, where all of it is seen. -/
theorem field_eq (hMore : more = [] ∨ ∃ m, more = ',' :: m) (hKept : Kept text)
    (hSeen : text.length + 2 ≤ args.length) : field args = text := by
  obtain ⟨hComma, -, -, hStrip⟩ := hKept
  have hNot : ',' ∉ '"' :: (text ++ ['"']) := by simp [hComma]
  have hFront : '"' :: (text ++ ['"']) <+: args := by
    refine List.prefix_of_prefix_length_le ⟨more, by simp⟩ hArgs ?_
    rw [List.length_cons, List.length_append, List.length_singleton]
    omega
  have hPiece : before (py ",") args = '"' :: (text ++ ['"']) :=
    ((piece_isPrefix hArgs hMore).eq_of_length_le
      (prefix_before hFront hNot).length_le)
  rw [field, hPiece]
  simpa [slice] using hStrip

end Fields

section Both

variable {args valueArgs key value : PyStr}
  (hArgs : args <+: '"' :: (key ++ '"' :: ',' :: '"' :: (value ++ ['"'])))
  (hBehind : behind (py ",") args = some valueArgs)
include hArgs hBehind

/-- Of a key with a comma in it both pieces are parts. -/
private theorem length_fields_lt_of_comma (hComma : ',' ∈ key) :
    (field args).length + (field valueArgs).length < key.length := by
  obtain ⟨front, back, rfl, hFront⟩ := List.eq_append_cons_of_mem hComma
  have hBoth : before (py ",") args ++ ',' :: valueArgs <+:
      ('"' :: front) ++ ',' ::
        (back ++ ['"'] ++ ',' :: '"' :: (value ++ ['"'])) := by
    rw [← show args = before (py ",") args ++ ',' :: valueArgs from
      behind_singleton_eq_some hBehind]
    simpa using hArgs
  have hNot : ',' ∉ '"' :: front := by simp [hFront]
  obtain ⟨hPiece, hRest⟩ := prefix_of_append_cons (not_mem_before ',' args)
    hNot hBoth
  have hValuePiece : before (py ",") valueArgs <+: back ++ ['"'] :=
    prefix_of_not_mem ((before_isPrefix _ _).trans hRest)
      (not_mem_before ',' valueArgs)
  have hKeyLength := length_field_le_piece args
  have hValueLength := length_field_le_piece valueArgs
  have hCut := hValuePiece.length_le
  rw [show before (py ",") args = '"' :: front from hPiece] at hKeyLength
  simp only [List.length_cons, List.length_append, List.length_nil] at *
  omega

/-- Behind a key without a comma stands the value, or a part of it. -/
private theorem valueArgs_isPrefix (hComma : ',' ∉ key) :
    args.length = key.length + 3 + valueArgs.length ∧
      valueArgs <+: '"' :: (value ++ '"' :: []) := by
  have hSplit : args = before (py ",") args ++ ',' :: valueArgs :=
    behind_singleton_eq_some hBehind
  have hNot : ',' ∉ '"' :: (key ++ ['"']) := by simp [hComma]
  have hBoth : before (py ",") args ++ ',' :: valueArgs <+:
      '"' :: (key ++ ['"']) ++ ',' :: '"' :: (value ++ ['"']) := by
    rw [← hSplit]
    simpa using hArgs
  obtain ⟨hPiece, hRest⟩ := prefix_of_append_cons (not_mem_before ',' args)
    hNot hBoth
  refine ⟨?_, hRest⟩
  have hLength := congrArg List.length hSplit
  rw [show before (py ",") args = '"' :: (key ++ ['"']) from hPiece] at hLength
  simp only [List.length_cons, List.length_append, List.length_nil] at hLength
  omega

/-- Where the key or the value is split or stripped, what is read of the two is
too short together. -/
theorem length_fields_lt
    (hShortKey : '(' ∈ key ∨ py "query" <:+: key →
      args.length ≤ key.length + 1)
    (hShort : '(' ∈ value ∨ py "query" <:+: value →
      args.length < key.length + value.length + 5)
    (hKept : ¬ (Kept key ∧ Kept value)) :
    (field args).length + (field valueArgs).length <
      key.length + value.length := by
  by_cases hComma : ',' ∈ key
  · have hLt := length_fields_lt_of_comma hArgs hBehind hComma
    omega
  · obtain ⟨hLength, hValueArgs⟩ := valueArgs_isPrefix hArgs hBehind hComma
    have hKey := length_field_le hArgs (.inr ⟨_, rfl⟩)
    have hValue := length_field_le hValueArgs (.inl rfl)
    by_cases hKeyKept : Kept key
    · have hValueKept : ¬ Kept value := fun h => hKept ⟨hKeyKept, h⟩
      have hLt := length_field_lt hValueArgs (.inl rfl)
        (fun h => by have hArgsShort := hShort h; omega) hValueKept
      omega
    · have hLt := length_field_lt hArgs (.inr ⟨_, rfl⟩) hShortKey hKeyKept
      omega

end Both

/-! ## The line of a call -/

private theorem query_ne_nil : py "query" ≠ [] := by decide

private theorem quote_not_mem_query : '"' ∉ py "query" := by decide

/-- A `query` is looked for behind a mark if there is none in front of it. -/
private theorem before_query_append {front : PyStr}
    (h : ¬ py "query" <:+: front) (back : PyStr) :
    before (py "query") (front ++ '"' :: back) =
      front ++ '"' :: before (py "query") back :=
  before_append_cons query_ne_nil quote_not_mem_query back h

/-- Of a key with a `(` or a `query` in it, the part behind is not seen. -/
private theorem length_seenArgs_le_key (key after : PyStr)
    (h : '(' ∈ key ∨ py "query" <:+: key) :
    (seenArgs (key ++ '"' :: after)).length ≤ key.length + 1 := by
  rcases h with hParen | hQuery
  · obtain ⟨front, back, rfl⟩ := List.append_of_mem hParen
    have hSeen := length_seenArgs_le_of_paren front (back ++ '"' :: after)
    rw [List.append_assoc, List.cons_append, List.length_append]
    omega
  · have hSeen := length_seenArgs_le (key ++ '"' :: after)
    rw [before_append_cons_of_found query_ne_nil quote_not_mem_query after
      hQuery] at hSeen
    have hShort := length_before_lt query_ne_nil hQuery
    omega

/-- A key without them is seen, if two characters follow it. -/
private theorem le_length_seenArgs_key {key after : PyStr} {c d : Char}
    (hParen : '(' ∉ key) (hQuery : ¬ py "query" <:+: key)
    (hAfter : [c, d] <+: before (py "query") after) (hMark : c ≠ '(')
    (hBlank : isBlank c = false) :
    key.length + 2 ≤ (seenArgs (key ++ '"' :: after)).length := by
  have hFront : (key ++ ['"']) ++ [c, d] <+:
      before (py "query") (key ++ '"' :: after) := by
    rw [before_query_append hQuery]
    simpa using hAfter
  have hSeen := length_le_seenArgs hFront (by simp [hParen]) hMark hBlank
  rwa [List.length_append, List.length_singleton] at hSeen

namespace KvCall

variable (call : KvCall)

/-- The arguments the analyser sees. -/
def seen : PyStr := seenArgs (call.rest ++ [')', ')'])

/-- The key, and for a put the value, are kept. -/
def AllKept : Prop :=
  Kept call.key ∧ (call.command = .put → ∀ value ∈ call.value, Kept value)

/-- The line of the command, the key and the value. -/
def line : PyStr :=
  match call.command with
  | .put => put call.key (call.value.elim [] Subtype.val)
  | .get => get call.key
  | .delete => delete call.key

theorem seen_isPrefix :
    call.seen <+: '"' :: (call.key ++ '"' :: argsAfter call.value) :=
  seenArgs_isPrefix call.rest

private theorem argsAfter_shape (value : Option Field) :
    argsAfter value = [] ∨ ∃ m, argsAfter value = ',' :: m := by
  cases value with
  | none => exact .inl rfl
  | some value => exact .inr ⟨_, rfl⟩

private theorem length_seen_le
    (h : '(' ∈ call.key.val ∨ py "query" <:+: call.key.val) :
    call.seen.length ≤ call.key.val.length + 1 := by
  have hSeen := length_seenArgs_le_key call.key
    (argsAfter call.value ++ [')', ')']) h
  simpa [seen, rest] using hSeen

private theorem le_length_seen (hParen : '(' ∉ call.key.val)
    (hQuery : ¬ py "query" <:+: call.key.val) :
    call.key.val.length + 2 ≤ call.seen.length := by
  rw [seen, rest, List.append_assoc, List.cons_append]
  cases call.value with
  | none =>
      exact le_length_seenArgs_key hParen hQuery (c := ')') (d := ')')
        (by decide) (by decide) (by decide)
  | some value =>
      have hNone : ¬ py "query" <:+: [','] := by decide
      have hComma := before_query_append hNone (value.val ++ ['"'] ++ [')', ')'])
      refine le_length_seenArgs_key hParen hQuery (c := ',') (d := '"') ?_
        (by decide) (by decide)
      exact ⟨_, hComma.symm⟩

/-- The key is read if it is kept. -/
theorem field_seen_iff : field call.seen = call.key ↔ Kept call.key := by
  have hShape := argsAfter_shape call.value
  constructor
  · intro hField
    by_contra hKept
    have hLt := length_field_lt call.seen_isPrefix hShape call.length_seen_le hKept
    rw [hField] at hLt
    exact Nat.lt_irrefl _ hLt
  · intro hKept
    exact field_eq call.seen_isPrefix hShape hKept
      (call.le_length_seen hKept.2.1 hKept.2.2.1)

section Put

variable {value : Field} (hValue : call.value = some value)
include hValue

private theorem seen_isPrefix_put :
    call.seen <+:
      '"' :: (call.key ++ '"' :: ',' :: '"' :: (value ++ ['"'])) := by
  have hSeen := call.seen_isPrefix
  rwa [hValue] at hSeen

private theorem seen_eq_put :
    call.seen = seenArgs (call.key ++
      '"' :: ',' :: '"' :: (value ++ ['"', ')', ')'])) := by
  rw [seen, rest, hValue]
  simp [argsAfter]

private theorem length_seen_lt
    (h : '(' ∈ value.val ∨ py "query" <:+: value.val) :
    call.seen.length < call.key.val.length + value.val.length + 5 := by
  rw [call.seen_eq_put hValue]
  rcases h with hParen | hQuery
  · obtain ⟨front, back, hSplit⟩ := List.append_of_mem hParen
    have hSeen := length_seenArgs_le_of_paren
      (call.key ++ '"' :: ',' :: '"' :: front) (back ++ ['"', ')', ')'])
    have hLength := congrArg List.length hSplit
    rw [hSplit]
    simp only [List.append_assoc, List.cons_append, List.length_append,
      List.length_cons] at hSeen hLength ⊢
    omega
  · have hInfix : py "query" <:+: call.key ++
        '"' :: ',' :: '"' :: (value ++ ['"', ')', ')']) := by
      refine hQuery.trans ⟨call.key ++ ['"', ',', '"'], ['"', ')', ')'], ?_⟩
      simp
    have hSeen := length_seenArgs_le (call.key ++
      '"' :: ',' :: '"' :: (value ++ ['"', ')', ')']))
    have hShort := length_before_lt query_ne_nil hInfix
    simp only [List.length_append, List.length_cons, List.length_nil] at *
    omega

/-- All arguments of a put are seen if its key and its value are kept. -/
private theorem seen_eq (hKey : Kept call.key) (hKept : Kept value) :
    call.seen =
      '"' :: (call.key ++ '"' :: ',' :: '"' :: (value ++ ['"'])) := by
  refine (call.seen_isPrefix_put hValue).eq_of_length_le ?_
  have hBefore : before (py "query") (call.key ++
      '"' :: ',' :: '"' :: (value ++ ['"', ')', ')'])) =
      (call.key ++ '"' :: ',' :: '"' :: (value ++ ['"'])) ++ [')', ')'] := by
    have hNone : ¬ py "query" <:+: [','] := by decide
    have hComma := before_query_append hNone (value.val ++ ['"', ')', ')'])
    have hEnd : before (py "query") [')', ')'] = [')', ')'] := by decide
    rw [List.singleton_append] at hComma
    rw [before_query_append hKey.2.2.1, hComma,
      before_query_append hKept.2.2.1, hEnd]
    simp
  have hParen : '(' ∉ call.key ++ '"' :: ',' :: '"' :: (value ++ ['"']) := by
    simp [hKey.2.1, hKept.2.1]
  have hFront : (call.key.val ++ '"' :: ',' :: '"' :: (value ++ ['"'])) ++
      [')', ')'] <+: before (py "query") (call.key ++
        '"' :: ',' :: '"' :: (value ++ ['"', ')', ')'])) :=
    hBefore ▸ List.prefix_refl _
  have hSeen := length_le_seenArgs hFront hParen (by decide) (by decide)
  rw [call.seen_eq_put hValue]
  simpa using hSeen

/-- What is behind the first comma then is the value. -/
private theorem behind_seen (hKey : Kept call.key) (hKept : Kept value) :
    behind (py ",") call.seen = some ('"' :: (value ++ ['"'])) := by
  have hNot : ',' ∉ '"' :: (call.key.val ++ ['"']) := by simp [hKey.1]
  have hArgs : '"' :: (call.key ++ '"' :: ',' :: '"' :: (value ++ ['"'])) =
      '"' :: (call.key.val ++ ['"']) ++ ',' :: '"' :: (value.val ++ ['"']) := by
    simp
  rw [call.seen_eq hValue hKey hKept, hArgs]
  exact behind_mark hNot _

/-- The line of a put is that of its key and its value if both are kept. -/
private theorem callLine_put_iff :
    callLine call.seen .put = .ok (put call.key value) ↔
      Kept call.key ∧ Kept value := by
  rw [callLine, getValue_eq]
  constructor
  · intro hLine
    by_contra hKept
    cases hBehind : behind (py ",") call.seen with
    | none =>
        rw [hBehind] at hLine
        cases hLine
    | some valueArgs =>
        rw [hBehind] at hLine
        have hPut : put (field call.seen) (field valueArgs) =
            put call.key value := Except.ok.inj hLine
        have hLength := congrArg List.length hPut
        have hLt := length_fields_lt (call.seen_isPrefix_put hValue) hBehind
          call.length_seen_le (call.length_seen_lt hValue) hKept
        simp only [put, List.length_append] at hLength
        omega
  · rintro ⟨hKey, hKept⟩
    have hArgs : '"' :: (value ++ ['"']) <+: '"' :: (value ++ '"' :: []) :=
      List.prefix_refl _
    have hField : field ('"' :: (value ++ ['"'])) = value :=
      field_eq hArgs (.inl rfl) hKept (by simp)
    rw [call.behind_seen hValue hKey hKept, call.field_seen_iff.mpr hKey]
    show Except.ok (put call.key (field _)) = _
    rw [hField]

end Put

private theorem ampersand_not_mem_rest : '&' ∉ call.rest := by
  have hAfter : '&' ∉ argsAfter call.value := by
    cases call.value with
    | none => exact List.not_mem_nil
    | some value => simp [argsAfter, value.2.2]
  simp [rest, call.key.2.2, hAfter]

/-- What the analyser returns for a call. -/
theorem analyzeQuery_text :
    analyzeQuery call.text = callLine call.seen call.command :=
  analyzeQuery_call call.hSpelled call.ampersand_not_mem_rest

/-- **The analyser reads a call as it is** exactly if the key, and for a put the
value, is kept. -/
theorem callLine_seenArgs_iff :
    callLine call.seen call.command = .ok call.line ↔ call.AllKept := by
  cases hCommand : call.command with
  | get =>
      rw [AllKept, ← call.field_seen_iff, hCommand]
      simp [callLine, line, hCommand, get]
  | delete =>
      rw [AllKept, ← call.field_seen_iff, hCommand]
      simp [callLine, line, hCommand, delete]
  | put =>
      obtain ⟨value, hValue⟩ := Option.ne_none_iff_exists'.mp
        (call.hValue hCommand)
      have hLine : call.line = put call.key value := by
        rw [line, hCommand, hValue]
        rfl
      rw [hLine, call.callLine_put_iff hValue, AllKept, hCommand, hValue]
      simp

/-! ## The query constructor -/

/-- The marks of a text are those of its bytes. -/
private theorem not_mem_bytes (text : Field) :
    Query.quote ∉ utf8 text ∧ Query.ampersand ∉ utf8 text :=
  ⟨fun h => text.2.1 ((mem_utf8_iff (c := '"') (by decide)).mp h),
    fun h => text.2.2 ((mem_utf8_iff (c := '&') (by decide)).mp h)⟩

def fieldBytes (text : Field) : Query.QuotedText :=
  ⟨utf8 text, not_mem_bytes text⟩

private theorem toLower_utf8 (s : PyStr) :
    (utf8 s).map toLower = utf8 (lower s) := by
  refine map_utf8 (by decide +kernel) (fun c hHigh => ?_) (fun b hHigh => ?_) s
  · have hLetter : ¬ (c.val ≥ 'A'.val ∧ c.val ≤ 'Z'.val) := fun h =>
      absurd (UInt32.le_iff_toNat_le.mp h.2)
        (Nat.not_le_of_lt (Nat.lt_of_lt_of_le (by decide) hHigh))
    exact dif_neg hLetter
  · rw [toLower, if_neg (by omega)]

def queryCommand : Query.Command :=
  match call.command with
  | .put => .put (fieldBytes (call.value.getD ⟨[], by decide⟩))
  | .get => .get
  | .delete => .delete

/-- The call as the constructor knows it. -/
def queryCall : Query.Call where
  command := call.queryCommand
  spelled := utf8 call.spelled
  key := fieldBytes call.key
  hSpelled := by
    rw [toLower_utf8, call.hSpelled, queryCommand]
    cases call.command <;> rfl

private theorem queryCommand_put (hCommand : call.command = .put) {value : Field}
    (hValue : call.value = some value) :
    call.queryCall.command = .put (fieldBytes value) := by
  show call.queryCommand = _
  rw [queryCommand, hCommand, hValue]
  rfl

private theorem queryCommand_get (hCommand : call.command = .get) :
    call.queryCall.command = .get := by
  show call.queryCommand = _
  rw [queryCommand, hCommand]

private theorem queryCommand_delete (hCommand : call.command = .delete) :
    call.queryCall.command = .delete := by
  show call.queryCommand = _
  rw [queryCommand, hCommand]

private theorem utf8_argsAfter (value : Field) :
    utf8 (argsAfter (some value)) = comma :: Query.quoted (utf8 value) := by
  show comma :: Query.quote :: utf8 (value ++ ['"']) = _
  rw [utf8_append]
  rfl

/-- The bytes of a call are a rendered predicate. -/
private theorem utf8_text : utf8 call.text =
    Query.parenthesised (lit "query") (Query.parenthesised (utf8 call.spelled)
      (Query.quoted (utf8 call.key) ++ utf8 (argsAfter call.value))) := by
  have hQuery : utf8 (py "query") = lit "query" := by decide
  have hParens : String.utf8EncodeChar '(' = [Query.openParen] ∧
      String.utf8EncodeChar ')' = [Query.closeParen] ∧
      String.utf8EncodeChar '"' = [Query.quote] := by decide
  simp [text, rest, hQuery, hParens, Query.parenthesised, Query.quoted]

private theorem ampersand_not_mem_text : Query.ampersand ∉ utf8 call.text := by
  have hSpelled : '&' ∉ call.spelled :=
    not_mem_spelled call.hSpelled (by decide) (by cases call.command <;> decide)
  have hQuery : '&' ∉ py "query" := by decide
  have hText : '&' ∉ call.text := by
    simp [text, hQuery, hSpelled, call.ampersand_not_mem_rest]
  exact fun h => hText ((mem_utf8_iff (c := '&') (by decide)).mp h)

/-- What the constructor makes of a call. -/
def query : Query := call.queryCall.set {}

private theorem parseQuery_text
    (hFits : (Query.parenthesised (utf8 call.spelled)
      (Query.quoted (utf8 call.key) ++
        utf8 (argsAfter call.value))).length < npos) :
    Query.parseQuery { cmd := call.queryCall.command.text }
        (Query.parenthesised (utf8 call.spelled)
          (Query.quoted (utf8 call.key) ++ utf8 (argsAfter call.value))) =
      .ok call.query := by
  have hKey := call.queryCall.extractKey_body _ hFits
  cases hCommand : call.command with
  | put =>
      obtain ⟨value, hValue⟩ := Option.ne_none_iff_exists'.mp
        (call.hValue hCommand)
      have hArgs : Query.quoted (utf8 call.key) ++ utf8 (argsAfter call.value) =
          call.queryCall.args := by
        rw [Query.Call.args, call.queryCommand_put hCommand hValue, hValue,
          utf8_argsAfter]
        rfl
      rw [hArgs] at hFits ⊢
      exact call.queryCall.parseQuery_body {} hFits
  | get =>
      rw [Query.parseQuery, query, Query.Call.set,
        call.queryCommand_get hCommand, if_neg (by decide), if_neg (by decide)]
      exact congrArg (· >>= _) hKey
  | delete =>
      rw [Query.parseQuery, query, Query.Call.set,
        call.queryCommand_delete hCommand, if_neg (by decide), if_neg (by decide)]
      exact congrArg (· >>= _) hKey

private theorem processPredicate_text
    (hFits : (utf8 call.text).length < npos) :
    Query.processPredicate {} (utf8 call.text) = .ok call.query := by
  have hName : Query.openParen ∉ lit "query" := by decide
  have hExit : call.queryCall.command.text ≠ lit "exit" := by
    have hTypes : ∀ text ∈ Query.queryTypes, text ≠ lit "exit" := by decide
    exact hTypes _ call.queryCall.command.text_mem
  have hSpelled : (utf8 call.spelled).map toLower =
      call.queryCall.command.text := call.queryCall.hSpelled
  have hAttr : ∀ body, Query.predAttr
      (Query.parenthesised (utf8 call.spelled) body) = utf8 call.spelled :=
    Query.predAttr_parenthesised call.queryCall.openParen_not_mem_spelled
  have hBody : (Query.parenthesised (utf8 call.spelled)
      (Query.quoted (utf8 call.key) ++
        utf8 (argsAfter call.value))).length < npos := by
    rw [utf8_text, Query.parenthesised] at hFits
    simp only [List.length_append, List.length_cons] at hFits ⊢
    omega
  rw [Query.processPredicate_eq _ hFits, utf8_text,
    Query.predAttr_parenthesised hName, Query.predVal_parenthesised hName,
    if_pos rfl, hAttr, hSpelled]
  show (if call.queryCall.command.text = lit "exit" then _ else _) = _
  rw [if_neg hExit]
  exact call.parseQuery_text hBody

/-- **The constructor reads a call as it is.** -/
theorem ofText_text (hFits : (utf8 call.text).length < npos) :
    Query.ofText (utf8 call.text) = .ok call.query := by
  have hTokens : tokens Query.ampersand (utf8 call.text).length
      (utf8 call.text) = [utf8 call.text] := by
    rw [tokens_eq_splitOn (Nat.le_refl _),
      List.splitOn_eq_singleton call.ampersand_not_mem_text]
  rw [Query.ofText, hTokens, List.foldlM_cons, call.processPredicate_text hFits]
  rfl

end KvCall

/-! ## Agreement -/

/-- The command line that the fields of a query make. -/
def commandLine (q : Query) : Option Str :=
  if q.cmd = lit "put" then some (lit "put " ++ q.key ++ lit " " ++ q.value)
  else if q.cmd = lit "get" then some (lit "get " ++ q.key)
  else if q.cmd = lit "delete" then some (lit "del " ++ q.key)
  else none

/-- Both front ends read a text, and the line of the one is made of the fields
of the other. -/
def Agree (text : PyStr) : Prop :=
  ∃ line q, analyzeQuery text = .ok line ∧ Query.ofText (utf8 text) = .ok q ∧
    commandLine q = some (utf8 line)

namespace KvCall

variable (call : KvCall)

private theorem commandLine_query :
    commandLine call.query = some (utf8 call.line) := by
  cases hCommand : call.command with
  | put =>
      obtain ⟨value, hValue⟩ := Option.ne_none_iff_exists'.mp
        (call.hValue hCommand)
      have hQuery : call.query =
          { cmd := lit "put", key := utf8 call.key, value := utf8 value } := by
        rw [query, Query.Call.set, call.queryCommand_put hCommand hValue]
        rfl
      have hLine : utf8 call.line =
          lit "put " ++ utf8 call.key ++ lit " " ++ utf8 value := by
        rw [line, hCommand, hValue]
        simp only [put, utf8_append]
        rfl
      rw [hQuery, hLine, commandLine, if_pos rfl]
  | get =>
      have hQuery : call.query = { cmd := lit "get", key := utf8 call.key } := by
        rw [query, Query.Call.set, call.queryCommand_get hCommand]
        rfl
      have hLine : utf8 call.line = lit "get " ++ utf8 call.key := by
        rw [line, hCommand, get, utf8_append]
        rfl
      have hPut : lit "get" ≠ lit "put" := by decide
      rw [hQuery, hLine, commandLine, if_neg hPut, if_pos rfl]
  | delete =>
      have hQuery : call.query =
          { cmd := lit "delete", key := utf8 call.key } := by
        rw [query, Query.Call.set, call.queryCommand_delete hCommand]
        rfl
      have hLine : utf8 call.line = lit "del " ++ utf8 call.key := by
        rw [line, hCommand, delete, utf8_append]
        rfl
      have hPut : lit "delete" ≠ lit "put" := by decide
      have hGet : lit "delete" ≠ lit "get" := by decide
      rw [hQuery, hLine, commandLine, if_neg hPut, if_neg hGet, if_pos rfl]

/-- **The front ends agree on a call** exactly if its key, and for a put its
value, has no comma, no `(` and no `query` in it and no blank at its ends. -/
theorem agree_iff (hFits : (utf8 call.text).length < npos) :
    Agree call.text ↔ call.AllKept := by
  rw [← call.callLine_seenArgs_iff, ← call.analyzeQuery_text]
  constructor
  · rintro ⟨line, q, hAnalyse, hOf, hLine⟩
    rw [call.ofText_text hFits, Except.ok.injEq] at hOf
    rw [← hOf, call.commandLine_query, Option.some.injEq] at hLine
    rw [hAnalyse, utf8_injective hLine]
  · intro hAnalyse
    exact ⟨call.line, call.query, hAnalyse, call.ofText_text hFits,
      call.commandLine_query⟩

/-- A put whose texts hold blanks and closing parentheses. -/
def closedPut : KvCall where
  command := .put
  spelled := py "Put"
  key := ⟨py "k)1", by decide⟩
  value := some ⟨py "v w)", by decide⟩
  hSpelled := by decide
  hValue := by decide

/-- Nothing of it is split. -/
theorem agree_iff_closedPut :
    Agree (py "query(Put(\"k)1\",\"v w)\"))") := by
  have hText : closedPut.text = py "query(Put(\"k)1\",\"v w)\"))" := by decide
  have hKept : closedPut.AllKept := by
    refine ⟨by decide, fun _ value hMem => ?_⟩
    obtain rfl := Option.some.inj hMem
    decide
  exact hText ▸ (agree_iff closedPut (by decide +kernel)).mpr hKept

/-- A put whose key holds a comma. -/
def commaPut : KvCall where
  command := .put
  spelled := py "PUT"
  key := ⟨py "a,b", by decide⟩
  value := some ⟨py "v", by decide⟩
  hSpelled := by decide
  hValue := by decide

/-- The analyser takes the part in front of the comma for the key and the part
behind it for the value, and cuts both to nothing. -/
theorem comma_lost :
    commaPut.text = py "query(PUT(\"a,b\",\"v\"))" ∧
      analyzeQuery commaPut.text = .ok (py "put  ") ∧
      Query.ofText (utf8 commaPut.text) =
        .ok { cmd := lit "put", key := lit "a,b", value := lit "v" } ∧
      ¬ Agree commaPut.text := by
  have hAnalyse : analyzeQuery commaPut.text = .ok (py "put  ") := by
    decide +kernel
  have hOf : Query.ofText (utf8 commaPut.text) =
      .ok { cmd := lit "put", key := lit "a,b", value := lit "v" } := by
    decide +kernel
  refine ⟨by decide, hAnalyse, hOf, ?_⟩
  rintro ⟨line, q, hLine, hQuery, hSame⟩
  rw [hAnalyse, Except.ok.injEq] at hLine
  rw [hOf, Except.ok.injEq] at hQuery
  rw [← hLine, ← hQuery] at hSame
  exact absurd hSame (by decide)

end KvCall

end GDPRuler.PolicyCompiler
