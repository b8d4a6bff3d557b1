import GDPRuler.Verified.Words

/-!
# The query analyser

The baseline reads the same query texts as the controller, with a front end of
its own: `query_analyser.py` takes the predicates apart and `KV_interface.py`
turns the call into a command line.  Both work by splitting: at `&`, at the
name of the predicate, at `(` and at `,`.

A text is a list of characters here.  A script stops with an `IndexError` that
nothing catches, or with a message and `exit(1)`.

## Main results

* `strip_isPrefix`, `prefix_strip` — what `strip` leaves of a text;
* `queryMultiplexer_call` — the line of a call, by the arguments that are seen;
* `analyzeQuery_call` — the call that is seen in a query of one predicate.
-/

namespace GDPRuler.PolicyCompiler

open GDPRuler.Verified.Words

/-! ## Strings -/

abbrev PyStr := List Char

def py (s : String) : PyStr := s.toList

inductive PyStop
  | indexError
  | exit (message : PyStr)
  deriving DecidableEq

abbrev Py := Except PyStop

/-- `c.isspace()` -/
def isBlank (c : Char) : Bool :=
  let n := c.toNat
  (9 ≤ n && n ≤ 13) || (28 ≤ n && n ≤ 32) || n = 0x85 || n = 0xA0 ||
    n = 0x1680 || (0x2000 ≤ n && n ≤ 0x200A) || n = 0x2028 || n = 0x2029 ||
    n = 0x202F || n = 0x205F || n = 0x3000

/-- `s.strip()` -/
def strip (s : PyStr) : PyStr := (s.dropWhile isBlank).rdropWhile isBlank

/-- `s.lower()`, where `s` is compared with the names of commands.  The letters
outside ASCII that it maps into ASCII are not letters of these. -/
def lower (s : PyStr) : PyStr := s.map Char.toLower

/-- `s.split(sep)` -/
def split (sep s : PyStr) : List PyStr := splitWord sep s.length s

/-- `items[i]` -/
def item (items : List PyStr) (i : Nat) : Py PyStr :=
  items[i]?.elim (.error .indexError) .ok

/-- `s[1:-1]` -/
def slice (s : PyStr) : PyStr := s.tail.dropLast

/-- `except IndexError`: print and `exit(1)`. -/
def orExit {α : Type} (message : PyStr) : Py α → Py α
  | .error .indexError => .error (.exit message)
  | result => result

/-! ## The key-value interface -/

def getValue (queryArgs : PyStr) : Py PyStr :=
  orExit (py "No value specified for put query.") do
    let part ← item (split (py ",") queryArgs) 1
    return strip (slice part)

def getKey (queryArgs : PyStr) : Py PyStr :=
  orExit (py "No key specified for requested query.") do
    let part ← item (split (py ",") queryArgs) 0
    return strip (slice part)

def put (k v : PyStr) : PyStr := py "put " ++ k ++ py " " ++ v

def get (k : PyStr) : PyStr := py "get " ++ k

def delete (k : PyStr) : PyStr := py "del " ++ k

/-- `f"{line} {metadata}"`, where there is metadata. -/
def filtered (line metadata : PyStr) : PyStr :=
  if metadata = [] then line else line ++ py " " ++ metadata

def putFiltered (k v metadata : PyStr) : PyStr := filtered (put k v) metadata

def getFiltered (k metadata : PyStr) : PyStr := filtered (get k) metadata

def deleteFiltered (k metadata : PyStr) : PyStr :=
  filtered (delete k) metadata

def putm (k metadata : PyStr) : PyStr := py "putm " ++ k ++ py " " ++ metadata

def getm (k metadata : PyStr) : PyStr := py "getm " ++ k ++ py " " ++ metadata

/-- The empty key lists the directory. -/
def getLogs (k metadata : PyStr) : PyStr :=
  py "getLogs " ++ (if k = [] then py "dir" else k) ++ py " " ++ metadata

def queryMultiplexer (query metadata : PyStr) : Py PyStr := do
  let querySplit := split (py "(") query
  let queryCmd := strip (lower (← item querySplit 0))
  let queryArgs := (strip (← item querySplit 1)).dropLast
  let k ← getKey queryArgs
  if queryCmd = py "put" then
    let v ← getValue queryArgs
    return putFiltered k v metadata
  else if queryCmd = py "get" then
    return getFiltered k metadata
  else if queryCmd = py "delete" then
    return deleteFiltered k metadata
  else if queryCmd = py "putm" then
    return putm k metadata
  else if queryCmd = py "getm" then
    return getm k metadata
  else if queryCmd = py "getlogs" then
    return getLogs k metadata
  else
    .error (.exit (py "Query type " ++ queryCmd ++ py " not supported"))

def rewriteQuery (query metadata : PyStr) : Py PyStr :=
  queryMultiplexer query metadata

/-! ## The analyser -/

def policyPredicates : List PyStr :=
  [py "eq", py "le", py "lt", py "ge", py "gt", py "sessionKey",
    py "sessionKeyIs", py "objExp", py "objExpIs", py "objPur", py "objPurIs",
    py "objOrig", py "objOrigIs", py "objShare", py "objShareIs",
    py "objObjections", py "objObjectionsIs", py "objOwner", py "objOwnerIs",
    py "monitor", py "query"]

/-- The name without its `!`, and the `!`. -/
def hasNot : PyStr → Py (PyStr × PyStr)
  | [] => .error .indexError
  | '!' :: predAttr => .ok (predAttr, py "!")
  | predAttr => .ok (predAttr, [])

/-- The variables of the loop: `query_cmd` and `filter`. -/
abbrev Analysis := PyStr × PyStr

/-- One predicate: the call, or an option that is added to the filter. -/
def analyzePredicate (analysis : Analysis) (pred : PyStr) : Py Analysis := do
  let (predAttr, negated) ← hasNot (← item (split (py "(") pred) 0)
  if predAttr ∉ policyPredicates then
    .error (.exit (py "We do not support policy predicate: " ++ predAttr))
  else
    let predVal := slice (← item (split predAttr pred) 1)
    if predAttr = py "query" then
      return (predVal, analysis.2)
    else
      return (analysis.1, analysis.2 ++ py " -" ++ predAttr ++ py " " ++
        negated ++ slice predVal)

def analyzeQuery (query : PyStr) : Py PyStr := do
  let (queryCmd, filter) ←
    (split (py "&") (strip query)).foldlM analyzePredicate ([], [])
  rewriteQuery queryCmd filter

/-- A query with an option and one that is negated. -/
example : analyzeQuery
    (py "query(PUT(\"k\",\"v\"))&sessionKey(\"u\")&!objPurIs(\"ads\")") =
    .ok (py "put k v  -sessionKey u -objPurIs !ads") := by
  decide +kernel

/-! ## Stripping -/

theorem strip_sublist (s : PyStr) : (strip s).Sublist s :=
  (List.rdropWhile_prefix isBlank _).sublist.trans (List.dropWhile_sublist _)

/-- A text that does not begin with a blank loses blanks at its end only. -/
theorem strip_isPrefix {c : Char} (hHead : isBlank c = false) (s : PyStr) :
    strip (c :: s) <+: c :: s := by
  rw [strip, List.dropWhile_cons_of_neg (by simp [hHead])]
  exact List.rdropWhile_prefix isBlank _

/-- A text stays up to a character that is not blank. -/
theorem prefix_strip {c d : Char} (hHead : isBlank c = false)
    (hLast : isBlank d = false) (s rest : PyStr) :
    c :: (s ++ [d]) <+: strip (c :: (s ++ d :: rest)) := by
  rw [strip, List.dropWhile_cons_of_neg (by simp [hHead])]
  have hKept : ∀ front : PyStr,
      front ++ [d] <+: (front ++ d :: rest).rdropWhile isBlank := by
    intro front
    induction rest using List.reverseRecOn with
    | nil =>
        have hSelf : (front ++ [d]).rdropWhile isBlank = front ++ [d] :=
          List.rdropWhile_concat_neg _ _ _ (by simp [hLast])
        show front ++ [d] <+: (front ++ [d]).rdropWhile isBlank
        exact hSelf.symm ▸ List.prefix_refl _
    | append_singleton rest x ih =>
        have hEnd : front ++ d :: (rest ++ [x]) =
            (front ++ d :: rest) ++ [x] := by simp
        rw [hEnd]
        by_cases hBlank : isBlank x
        · rw [List.rdropWhile_concat_pos _ _ _ hBlank]
          exact ih
        · rw [List.rdropWhile_concat_neg _ _ _ hBlank]
          exact ⟨rest ++ [x], by simp⟩
  exact hKept (c :: s)

theorem strip_eq_self {c d : Char} (hHead : isBlank c = false)
    (hLast : isBlank d = false) (s : PyStr) :
    strip (c :: (s ++ [d])) = c :: (s ++ [d]) :=
  ((strip_sublist _).antisymm (prefix_strip hHead hLast s []).sublist)

/-! ## Pieces -/

theorem item_split_zero (sep s : PyStr) :
    item (split sep s) 0 = .ok (before sep s) := by
  rw [item, split, splitWord_zero (Nat.le_refl _)]
  rfl

theorem item_split_one {sep : PyStr} (hNe : sep ≠ []) (s : PyStr) :
    item (split sep s) 1 =
      ((behind sep s).map (before sep)).elim (.error .indexError) .ok := by
  rw [item, split, splitWord_one hNe (Nat.le_refl _)]

/-- What is read of the first piece between commas. -/
def field (args : PyStr) : PyStr := strip (slice (before (py ",") args))

theorem getKey_eq (args : PyStr) : getKey args = .ok (field args) := by
  rw [getKey, item_split_zero]
  rfl

theorem getValue_eq (args : PyStr) :
    getValue args = ((behind (py ",") args).map field).elim
      (.error (.exit (py "No value specified for put query."))) .ok := by
  rw [getValue, item_split_one (by decide)]
  cases behind (py ",") args <;> rfl

/-! ## A call -/

/-- The names of the commands that have a line of their own. -/
inductive KvCommand
  | put | get | delete
  deriving DecidableEq

def KvCommand.text : KvCommand → PyStr
  | .put => py "put"
  | .get => py "get"
  | .delete => py "delete"

/-- The line of a command without metadata. -/
def callLine (args : PyStr) : KvCommand → Py PyStr
  | .put => (getValue args).map (put (field args))
  | .get => .ok (get (field args))
  | .delete => .ok (delete (field args))

section Call

variable {spelled : PyStr} {command : KvCommand}
  (hSpelled : lower spelled = command.text)
include hSpelled

/-- What the letters of a command are not, the command is free of. -/
theorem not_mem_spelled {c : Char} (hCase : c.toLower = c)
    (hText : c ∉ command.text) : c ∉ spelled := by
  intro hMem
  rw [← hSpelled] at hText
  exact hText (List.mem_map.mpr ⟨c, hMem, hCase⟩)

private theorem paren_not_mem_spelled : '(' ∉ spelled :=
  not_mem_spelled hSpelled (by decide) (by cases command <;> decide)

/-- The line of a call, by what is seen of its arguments. -/
theorem queryMultiplexer_call (rest : PyStr) :
    queryMultiplexer (spelled ++ '(' :: rest) [] =
      callLine (strip (before (py "(") rest)).dropLast command := by
  have hParen := paren_not_mem_spelled hSpelled
  have hCmd : strip (lower spelled) = command.text := by
    rw [hSpelled]
    cases command <;> decide
  have hFront : before (py "(") (spelled ++ '(' :: rest) = spelled :=
    before_mark hParen rest
  have hBehind : behind (py "(") (spelled ++ '(' :: rest) = some rest :=
    behind_mark hParen rest
  have hNe : py "(" ≠ [] := by decide
  rw [queryMultiplexer, item_split_zero, item_split_one hNe, hFront, hBehind]
  show (getKey _ >>= fun k => _) = _
  rw [getKey_eq, hCmd]
  cases command with
  | put =>
      show (getValue _ >>= fun v => _) = (getValue _).map _
      cases getValue _ <;> rfl
  | get => rfl
  | delete => rfl

private theorem query_notIn_spelled : ¬ py "query" <:+: '(' :: spelled := by
  intro hInfix
  have hLetter : 'q' ∈ '(' :: spelled := hInfix.subset (by decide)
  have hNot : 'q' ∉ spelled :=
    not_mem_spelled hSpelled (by decide) (by cases command <;> decide)
  exact (List.mem_cons.mp hLetter).elim (by decide) hNot

/-- Splitting at the name of the predicate keeps what is in front of the next
`query`. -/
private theorem analyzePredicate_call (rest : PyStr) :
    analyzePredicate ([], [])
        (py "query" ++ '(' :: (spelled ++ '(' :: '"' :: rest)) =
      .ok (spelled ++ '(' :: ('"' :: before (py "query") rest).dropLast, []) := by
  have hNe : py "query" ≠ [] := by decide
  have hName : before (py "(")
      (py "query" ++ '(' :: (spelled ++ '(' :: '"' :: rest)) = py "query" :=
    before_mark (by decide) _
  have hMember : ¬ py "query" ∉ policyPredicates := by decide
  -- no mark of the call is in the name, so the name is found behind them only
  have hPiece : before (py "query") ('(' :: (spelled ++ '(' :: '"' :: rest)) =
      '(' :: (spelled ++ '(' :: '"' :: before (py "query") rest) := by
    have hParen := before_append_cons hNe (c := '(') (by decide)
      ('"' :: rest) (query_notIn_spelled hSpelled)
    have hQuote := before_append_cons hNe (c := '"') (by decide) rest
      (a := []) (by decide)
    rw [List.nil_append, List.nil_append] at hQuote
    rw [hQuote] at hParen
    simpa using hParen
  have hSlice :
      slice ('(' :: (spelled ++ '(' :: '"' :: before (py "query") rest)) =
        spelled ++ '(' :: ('"' :: before (py "query") rest).dropLast := by
    rw [slice, List.tail_cons, List.dropLast_append_of_ne_nil (by simp),
      List.dropLast_cons_of_ne_nil (by simp)]
  have hPlain : hasNot (py "query") = .ok (py "query", []) := rfl
  rw [analyzePredicate, item_split_zero, hName]
  simp only [bind, Except.bind, hPlain, if_neg hMember, if_true,
    item_split_one hNe, behind_append hNe, Option.map_some, Option.elim_some,
    hPiece, hSlice]
  rfl

/-- What is seen of the arguments of a call, the first quotation mark apart. -/
def seenArgs (rest : PyStr) : PyStr :=
  (strip (before (py "(")
    ('"' :: before (py "query") rest).dropLast)).dropLast

/-- The line of a query of one predicate. -/
theorem analyzeQuery_call {rest : PyStr} (hAmpersand : '&' ∉ rest) :
    analyzeQuery (py "query" ++
        '(' :: (spelled ++ '(' :: '"' :: (rest ++ [')', ')']))) =
      callLine (seenArgs (rest ++ [')', ')'])) command := by
  have hText : strip (py "query" ++
      '(' :: (spelled ++ '(' :: '"' :: (rest ++ [')', ')']))) =
      py "query" ++ '(' :: (spelled ++ '(' :: '"' :: (rest ++ [')', ')'])) := by
    have hSelf := strip_eq_self (c := 'q') (d := ')') (by decide) (by decide)
      (py "uery(" ++ spelled ++ py "(\"" ++ rest ++ [')'])
    simpa [py] using hSelf
  have hSpelledFree : '&' ∉ spelled :=
    not_mem_spelled hSpelled (by decide) (by cases command <;> decide)
  have hFree : '&' ∉ py "query" ++
      '(' :: (spelled ++ '(' :: '"' :: (rest ++ [')', ')'])) := by
    have hQuery : '&' ∉ py "query" := by decide
    simp [hQuery, hSpelledFree, hAmpersand]
  rw [analyzeQuery, hText]
  show ((splitWord ['&'] _ _).foldlM analyzePredicate ([], []) >>= _) = _
  rw [splitWord_of_not_mem hFree, List.foldlM_cons,
    analyzePredicate_call hSpelled]
  show queryMultiplexer _ [] = _
  exact queryMultiplexer_call hSpelled _

end Call

end GDPRuler.PolicyCompiler
