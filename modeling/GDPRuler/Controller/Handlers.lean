import GDPRuler.Verified.Prog
import GDPRuler.Controller.LogFiles

/-!
# Request handlers

Each handler of `controller.cpp` is a program over the database messages and
the logger (`Op`), in the order in which the source performs them.  The clock
readings and random vectors a request meets are its `Readings`.

`World.exec` answers the operations when a request runs alone.
-/

namespace GDPRuler.Controller

open GDPRuler.Verified

/-! ## Operations -/

/-- The calls a handler makes on its database client, the logger and the
regulator. -/
inductive Op
  | gdprGet (key : Str)
  | gdprPut (key value : Str)
  | gdprDel (key : Str)
  | gdprGetm (key : Str)
  | gdprPutm (key value : Str)
  | logEncodedQuery (q : Query) (p : DefaultPolicy) (valid : Bool)
      (newVal : Str)
  | retrieveLogs
  | readLog (logName : Str) (timestampThres : Int64)
  | readKeyLog (key : Str) (timestampThres : Int64)

abbrev Op.Res : Op → Type
  | gdprGet _ => Option Str
  | gdprPut _ _ => Bool
  | gdprDel _ => Bool
  | gdprGetm _ => Option Str
  | gdprPutm _ _ => Bool
  | logEncodedQuery _ _ _ _ => Unit
  | retrieveLogs => List Str
  | readLog _ _ => Except Exn (List Str)
  | readKeyLog _ _ => Except Exn (List Str)

abbrev Handler (α : Type) := Prog Op Op.Res Exn α

/-- One call of a handler. -/
abbrev perform (op : Op) : Handler op.Res := Prog.perform op

/-- What the environment supplies while one request is served: the clock at
validation, at rewriting, at logging and for the regulator's threshold, and
the random vectors of the two encryptions. -/
structure Readings where
  validateTime : Int64
  rewriteTime : Int64
  log : LogReadings
  thresTime : Int64
  iv : Str
  deriving DecidableEq

/-- Readings of a clock that stands still. -/
def Readings.constant (now : Int64) : Readings :=
  { validateTime := now, rewriteTime := now
    log := { timestamp := now, iv := [] }, thresTime := now, iv := [] }

/-- A request: the query, the policy of its connection, and its readings. -/
structure Request where
  query : Query
  policy : DefaultPolicy
  readings : Readings
  deriving DecidableEq

/-- The policy of a monitored owner with one purpose, for examples. -/
def alicePolicy : DefaultPolicy :=
  { userKey := lit "alice", encryption := false, purpose := 2, objection := 0
    origin := lit "home", expiration := 0, share := [], monitor := true }

/-- It is read from the text a client sends. -/
example : DefaultPolicy.ofText
    (lit "-sessionKey alice -encryption false -purpose purpose1 -objection" ++
      lit " purpose1 -origin home -expTime 0 -monitor true -objShare") =
      .ok { alicePolicy with objection := 2 } := by
  decide +kernel

/-! ## Response codes -/

def GET_FAILED : Str := lit "0"
def PUT_SUCCESS : Str := lit "1"
def PUT_FAILED : Str := lit "2"
def DELETE_SUCCESS : Str := lit "3"
def DELETE_FAILED : Str := lit "4"
def GETM_FAILED : Str := lit "5"
def PUTM_SUCCESS : Str := lit "6"
def PUTM_FAILED : Str := lit "7"
def GET_LOGS_FAILED : Str := lit "8"
def INVALID_COMMAND : Str := lit "9"

/-- The text `handle_delete` answers a refused request with. -/
def deleteRefused : Str :=
  lit "DELETE_FAILED: Invalid key or does not comply with GDPR rules"

/-- The text `handle_put_metadata` answers for an absent key. -/
def putmAbsent : Str := lit "PUTM_FAILED: The specified key does not exist"

/-! ## Monitoring -/

structure GdprMonitor where
  query : Query
  policy : DefaultPolicy
  monitorNeeded : Bool

namespace GdprMonitor

/-- The monitor of a retrieved record. -/
def ofFilter (f : GdprFilter) (q : Query) (p : DefaultPolicy) : GdprMonitor :=
  ⟨q, p, f.checkMonitoring⟩

/-- The monitor of a first put. -/
def ofQuery (q : Query) (p : DefaultPolicy) : GdprMonitor :=
  ⟨q, p, q.monitor.getD p.monitor⟩

def monitorQuery (m : GdprMonitor) (valid : Bool) (newVal : Str) :
    Handler Unit :=
  if m.monitorNeeded then
    perform (.logEncodedQuery m.query m.policy valid newVal)
  else
    return ()

end GdprMonitor

/-! ## The handlers -/

def handleGet (q : Query) (p : DefaultPolicy) (r : Readings) : Handler Str := do
  let res : Option Str ← perform (.gdprGet q.key)
  let filter ← Prog.ofExcept (GdprFilter.ofValue res)
  let monitor := GdprMonitor.ofFilter filter q p
  let isValid := filter.validate q p r.validateTime
  monitor.monitorQuery isValid []
  if isValid then
    return removeGdprMetadata (res.getD [])
  else
    return GET_FAILED

def handlePut (q : Query) (p : DefaultPolicy) (r : Readings) : Handler Str := do
  let res : Option Str ← perform (.gdprGet q.key)
  match res with
  | none =>
      let monitor := GdprMonitor.ofQuery q p
      let newValue := QueryRewriter.insert q p q.value r.rewriteTime
      monitor.monitorQuery true newValue
      let retVal : Bool ← perform (.gdprPut q.key newValue)
      if retVal then return PUT_SUCCESS else return PUT_FAILED
  | some value =>
      let filter ← Prog.ofExcept (GdprFilter.ofValue res)
      let isValid := filter.validate q p r.validateTime
      if isValid then
        let monitor := GdprMonitor.ofFilter filter q p
        let newValue := QueryRewriter.update value q.value
        monitor.monitorQuery isValid newValue
        let retVal : Bool ← perform (.gdprPut q.key newValue)
        if retVal then return PUT_SUCCESS else return PUT_FAILED
      else
        let monitor := GdprMonitor.ofFilter filter q p
        monitor.monitorQuery isValid []
        return PUT_FAILED

def handleDelete (q : Query) (p : DefaultPolicy) (r : Readings) :
    Handler Str := do
  let res : Option Str ← perform (.gdprGet q.key)
  let filter ← Prog.ofExcept (GdprFilter.ofValue res)
  let monitor := GdprMonitor.ofFilter filter q p
  let isValid := filter.validate q p r.validateTime
  monitor.monitorQuery isValid []
  if isValid then
    let retVal : Bool ← perform (.gdprDel q.key)
    if retVal then return DELETE_SUCCESS else return DELETE_FAILED
  else
    return deleteRefused

def handleGetMetadata (q : Query) (p : DefaultPolicy) (r : Readings) :
    Handler Str := do
  let res : Option Str ← perform (.gdprGetm q.key)
  let filter ← Prog.ofExcept (GdprFilter.ofValue res)
  let monitor := GdprMonitor.ofFilter filter q p
  let isValid := filter.validate q p r.validateTime
  monitor.monitorQuery isValid []
  if isValid then
    return preserveOnlyGdprMetadata (res.getD [])
  else
    return GETM_FAILED

def handlePutMetadata (q : Query) (p : DefaultPolicy) (r : Readings) :
    Handler Str := do
  let res : Option Str ← perform (.gdprGet q.key)
  match res with
  | none => return putmAbsent
  | some value =>
      let filter ← Prog.ofExcept (GdprFilter.ofValue res)
      let isValid := filter.validate q p r.validateTime
      if isValid then
        let monitor := GdprMonitor.ofFilter filter q p
        let newValue ← Prog.ofExcept (QueryRewriter.putm value q r.rewriteTime)
        monitor.monitorQuery isValid newValue
        let retVal : Bool ← perform (.gdprPutm q.key newValue)
        if retVal then return PUTM_SUCCESS else return PUTM_FAILED
      else
        let monitor := GdprMonitor.ofFilter filter q p
        monitor.monitorQuery isValid []
        return PUTM_FAILED

/-! ## The regulator -/

def regulatorKey : Str := lit "reg"

def validateRegKey (q : Query) (p : DefaultPolicy) : Bool :=
  q.userKey.getD p.userKey == regulatorKey

/-- Every entry on a line of its own. -/
def entryLines (entries : List Str) : Str :=
  entries.flatMap fun entry => entry ++ lit "\n"

/-- The entries of all the given logs, under their names. -/
def readAllLogs (timestampThres : Int64) : List Str → Handler Str
  | [] => return []
  | log :: logs => do
      let read : Except Exn (List Str) ←
        perform (.readLog log timestampThres)
      let entries ← Prog.ofExcept read
      let rest ← readAllLogs timestampThres logs
      return lit "Log file: " ++ log ++ lit "\n" ++ entryLines entries ++ rest

def handleGetLogs (q : Query) (p : DefaultPolicy) (r : Readings) :
    Handler Str := do
  if !validateRegKey q p then
    return GET_LOGS_FAILED
  else if q.logKey = lit "read_all" then
    let logFiles : List Str ← perform .retrieveLogs
    let text ← readAllLogs r.thresTime logFiles
    return lit "Reading all the log files:\n" ++ text
  else if q.logKey = lit "dir" then
    let logFiles : List Str ← perform .retrieveLogs
    return lit "Available log files:\n" ++ entryLines logFiles
  else
    let read : Except Exn (List Str) ←
      perform (.readKeyLog q.logKey r.thresTime)
    let entries ← Prog.ofExcept read
    return lit "Reading the log file of key " ++ q.logKey ++ lit ":\n" ++
      entryLines entries

/-- The response to a query, as the connection loop picks the handler; `exit`
ends the connection and does not come here. -/
def respond (q : Query) (p : DefaultPolicy) (r : Readings) : Handler Str :=
  if q.cmd = lit "invalid" then return INVALID_COMMAND
  else if q.cmd = lit "get" then handleGet q p r
  else if q.cmd = lit "put" then handlePut q p r
  else if q.cmd = lit "delete" then handleDelete q p r
  else if q.cmd = lit "putm" then handlePutMetadata q p r
  else if q.cmd = lit "getm" then handleGetMetadata q p r
  else if q.cmd = lit "getlogs" then handleGetLogs q p r
  else return INVALID_COMMAND

/-! ## Running alone -/

/-- The database and the log files. -/
structure World (σ : Type) where
  kv : σ
  logs : LogFiles

/-- What the controller was started with. -/
structure Environment (σ : Type) where
  client : KvClient σ
  log : LogConfig

variable {σ : Type}

namespace World

/-- An operation of a request with readings `r`. -/
def exec (env : Environment σ) (r : Readings) :
    (op : Op) → World σ → op.Res × World σ
  | .gdprGet key, w =>
      ((env.client.gdprGet key w.kv).1,
        { w with kv := (env.client.gdprGet key w.kv).2 })
  | .gdprPut key value, w =>
      ((env.client.gdprPut r.iv key value w.kv).1,
        { w with kv := (env.client.gdprPut r.iv key value w.kv).2 })
  | .gdprDel key, w =>
      ((env.client.gdprDel key w.kv).1,
        { w with kv := (env.client.gdprDel key w.kv).2 })
  | .gdprGetm key, w =>
      ((env.client.gdprGetm key w.kv).1,
        { w with kv := (env.client.gdprGetm key w.kv).2 })
  | .gdprPutm key value, w =>
      ((env.client.gdprPutm r.iv key value w.kv).1,
        { w with kv := (env.client.gdprPutm r.iv key value w.kv).2 })
  | .logEncodedQuery q p valid newVal, w =>
      ((), { w with
        logs := Controller.logEncodedQuery env.log r.log q p valid newVal
          w.logs })
  | .retrieveLogs, w => (w.logs.map Prod.fst, w)
  | .readLog logName thres, w =>
      ((logDecode env.log logName thres w.logs).1,
        { w with logs := (logDecode env.log logName thres w.logs).2 })
  | .readKeyLog key thres, w =>
      ((logDecode env.log (env.log.logFilePath key) thres w.logs).1,
        { w with
          logs := (logDecode env.log (env.log.logFilePath key) thres w.logs).2 })

/-- Serve one request without interruption. -/
def serve (env : Environment σ) (req : Request) (w : World σ) :
    Except Exn Str × World σ :=
  (respond req.query req.policy req.readings).run (exec env req.readings) w

/-- The operations a request performs when served. -/
def operations (env : Environment σ) (req : Request) (w : World σ) :
    List (Sigma Op.Res) :=
  (respond req.query req.policy req.readings).trace (exec env req.readings) w

/-- Serve requests one after another; an exception leaves the connection's
thread and stops the controller. -/
def serveAll (env : Environment σ) :
    List Request → World σ → List (Except Exn Str) × World σ
  | [], w => ([], w)
  | req :: reqs, w =>
      match serve env req w with
      | (.error e, w') => ([.error e], w')
      | (.ok reply, w') =>
          (.ok reply :: (serveAll env reqs w').1, (serveAll env reqs w').2)

end World

end GDPRuler.Controller
