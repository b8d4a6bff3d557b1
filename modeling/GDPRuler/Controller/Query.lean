import GDPRuler.Controller.GdprMetadata

/-!
# Default policies and queries

Both are read from text a client sends.  A policy is a line of
`-option value` words; a query is `query(cmd("key","value"))` followed by
`&`-separated predicates `option("argument")`.

The query parser works with positions: a failed search yields `npos`, which
is then incremented or subtracted from, so `sizeAdd` and `sizeSub` wrap as the
machine does.  Nothing around the two constructors catches an exception; they
are the error results here.
-/

namespace GDPRuler.Controller

open GDPRuler.Verified.Delim GDPRuler.Verified.Decimal

/-! ## Default policies -/

structure DefaultPolicy where
  userKey : Str
  encryption : Bool
  purpose : BitVec 64
  objection : BitVec 64
  origin : Str
  expiration : Int64
  share : Str
  monitor : Bool
  deriving DecidableEq

namespace DefaultPolicy

/-- The words `stream >> word` extracts. -/
def words (input : Str) : List Str :=
  (input.splitOnP isSpace).filter (· ≠ [])

/-- The option map as written, a later entry overriding an earlier one.  An
option at the end of the input gets the empty value. -/
def readOptions : List Str → List (Str × Str)
  | [] => []
  | [option] => if option.head? = some 45 then [(option, [])] else []
  | option :: value :: rest =>
      if option.head? = some 45 then (option, value) :: readOptions rest
      else readOptions (value :: rest)

/-- `option_map[option]` -/
def optionValue (options : List (Str × Str)) (option : Str) : Str :=
  (options.reverse.lookup option).getD []

def requiredOptions : List Str :=
  [lit "-sessionKey", lit "-encryption", lit "-purpose", lit "-objection",
    lit "-origin", lit "-expTime", lit "-objShare", lit "-monitor"]

/-- Every required option is present. -/
def checkPolicy (options : List (Str × Str)) : Except Exn Unit :=
  requiredOptions.forM fun option =>
    if (options.lookup option).isSome then .ok ()
    else .error (.invalidArgument
      (lit "Error: option " ++ option ++ lit " not provided."))

/-- The policy constructor. -/
def ofText (input : Str) : Except Exn DefaultPolicy := do
  let options := readOptions (words input)
  checkPolicy options
  let expiration ← stoll (optionValue options (lit "-expTime"))
  let encryption ← strToBool (optionValue options (lit "-encryption"))
  let monitor ← strToBool (optionValue options (lit "-monitor"))
  return {
    userKey := optionValue options (lit "-sessionKey")
    encryption := encryption
    purpose := setBitmap 0
      (splitCommaString (optionValue options (lit "-purpose")))
    objection := setBitmap 0
      (splitCommaString (optionValue options (lit "-objection")))
    origin := optionValue options (lit "-origin")
    expiration := expiration
    share := optionValue options (lit "-objShare")
    monitor := monitor }

end DefaultPolicy

/-! ## Queries -/

/-- The data of a query; the `cond` fields are the `…Is` predicates. -/
structure Query where
  cmd : Str := []
  key : Str := []
  value : Str := []
  userKey : Option Str := none
  purpose : Option (BitVec 64) := none
  objection : Option (BitVec 64) := none
  origin : Option Str := none
  expiration : Option Int64 := none
  share : Option Str := none
  monitor : Option Bool := none
  condPurpose : BitVec 64 := 0
  condObjection : BitVec 64 := 0
  condOrigin : Str := []
  condExpiration : Int64 := 0
  condShare : Str := []
  condMonitor : Bool := false
  logKey : Str := []
  deriving DecidableEq

namespace Query

/-- `'"'` -/
def quote : UInt8 := 34

/-- What stands between the first two quotes. -/
def extractKey (query : Str) : Except Exn Str :=
  let openQuote := find quote query 0
  let closeQuote := find quote query (sizeAdd openQuote 1)
  if openQuote = npos ∨ closeQuote = npos ∨ closeQuote ≤ openQuote then .ok []
  else substr query (sizeAdd openQuote 1)
    (sizeSub (sizeSub closeQuote openQuote) 1)

/-- What stands between the third and the fourth quote. -/
def extractValue (query : Str) : Except Exn Str :=
  let firstQuote := find quote query 0
  let secondQuote := find quote query (sizeAdd firstQuote 1)
  let thirdQuote := find quote query (sizeAdd secondQuote 1)
  let fourthQuote := find quote query (sizeAdd thirdQuote 1)
  if firstQuote = npos ∨ secondQuote = npos ∨ thirdQuote = npos ∨
      fourthQuote = npos ∨ fourthQuote ≤ thirdQuote then .ok []
  else substr query (sizeAdd thirdQuote 1)
    (sizeSub (sizeSub fourthQuote thirdQuote) 1)

/-- The key, the value of a put, or the log key, by the command. -/
def parseQuery (q : Query) (regQueryArgs : Str) : Except Exn Query := do
  if q.cmd = lit "getlogs" then
    let logKey ← extractKey regQueryArgs
    return { q with logKey := logKey }
  else if q.cmd = lit "put" then
    let value ← extractValue regQueryArgs
    let key ← extractKey regQueryArgs
    return { q with value := value, key := key }
  else
    let key ← extractKey regQueryArgs
    return { q with key := key }

/-- One `option("value")` predicate.  Purpose lists replace what an earlier
predicate of the same name set; the conditional ones accumulate. -/
def parseOption (q : Query) (option value : Str) : Except Exn Query := do
  if option = lit "sessionKey" then
    return { q with userKey := some value }
  else if option = lit "objOrig" then
    return { q with origin := some value }
  else if option = lit "objShare" then
    return { q with share := some value }
  else if option = lit "objExp" then
    let expiration ← stoi value
    return { q with expiration := some expiration }
  else if option = lit "objPur" then
    return { q with purpose := some (setBitmap 0 (splitCommaString value)) }
  else if option = lit "objObjections" then
    return { q with objection := some (setBitmap 0 (splitCommaString value)) }
  else if option = lit "monitor" then
    let monitor ← strToBool value
    return { q with monitor := some monitor }
  else if option = lit "objOrigIs" then
    return { q with condOrigin := value }
  else if option = lit "objShareIs" then
    return { q with condShare := value }
  else if option = lit "objExpIs" then
    let expiration ← stoi value
    return { q with condExpiration := expiration }
  else if option = lit "objPurIs" then
    return { q with
      condPurpose := setBitmap q.condPurpose (splitCommaString value) }
  else if option = lit "objObjectionsIs" then
    return { q with
      condObjection := setBitmap q.condObjection (splitCommaString value) }
  else if option = lit "monitorIs" then
    let monitor ← strToBool value
    return { q with condMonitor := monitor }
  else
    .error (.invalidArgument
      (lit "Error: predicate " ++ option ++ lit " not supported."))

/-- `'('` -/
def openParen : UInt8 := 40

/-- `')'` -/
def closeParen : UInt8 := 41

/-- One predicate: the `query(...)` one or an option. -/
def processPredicate (q : Query) (predicate : Str) : Except Exn Query := do
  let attrEnd := find openParen predicate 0
  let attr ← substr predicate 0 attrEnd
  let valStart := sizeAdd attrEnd 1
  let valEnd := rfind closeParen predicate
  let val ← substr predicate valStart (sizeSub valEnd valStart)
  if attr = lit "query" then
    let cmd ← substr val 0 (find openParen val 0)
    let q := { q with cmd := cmd.map toLower }
    if q.cmd = lit "exit" then
      return q
    else
      parseQuery q val
  else
    let argument ← substr val 1 (sizeSub val.length 2)
    parseOption q attr argument

/-- `'&'` -/
def ampersand : UInt8 := 38

/-- The query constructor: the predicates between `&`, left to right. -/
def ofText (input : Str) : Except Exn Query :=
  (tokens ampersand input.length input).foldlM processPredicate {}

/-- The query of a trace line with every kind of option. -/
example : ofText
    (lit "query(PUT(\"k\",\"VAL\"))&sessionKey(\"u\")&objPur(\"purpose1\")") =
    .ok { cmd := lit "put", key := lit "k", value := lit "VAL",
          userKey := some (lit "u"), purpose := some 2 } := by
  decide +kernel

end Query

end GDPRuler.Controller
