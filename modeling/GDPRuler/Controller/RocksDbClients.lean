import GDPRuler.Verified.Remote
import GDPRuler.Controller.CleanOverlaps
import GDPRuler.Controller.ReadYourWrites
import GDPRuler.Controller.RocksDbSession

/-!
# The controller and its RocksDB server

A thread of the controller has a `rocksdb_client` of its own, and a call of the
database is an exchange with a session of the server: the query goes out behind
its size, the session executes it and its response comes back in the same way.
Meanwhile other threads go on, and sessions execute other queries.

With encryption, for clean requests whose keys the server reads as one token,
all this is the controller over a key-value map that performs each call in one
step (`rocksdb_refines`).  Without encryption it is not: a metadata put is then
a `putm` message, of which the server does not read the value.

## Main results

* `rocksdb_refines` — every run of the deployment is one of the controller over
  a map;
* `rocksdb_completes` — every run ends, and with every request answered.
-/

namespace GDPRuler.Controller

open GDPRuler.Verified GDPRuler.Verified.Transition
open GDPRuler.Verified.Interleave GDPRuler.Verified.Remote

/-! ## The exchange -/

theorem length_wireSize (n : Nat) : (memoryBytes 4 n).length = 4 :=
  length_memoryBytes 4 n

theorem wireSize_read (n : Nat) (h : n < 2 ^ 32) :
    memoryValue (memoryBytes 4 n) = n :=
  memoryValue_memoryBytes h

/-- Sizes as an `int` in memory.  One that is negative there is `2^31` or more
here, and no buffer has that size. -/
def wireHeader : Framing.Header UInt8 where
  width := 4
  bound := 2 ^ 32
  write := memoryBytes 4
  read := memoryValue
  length_write := length_wireSize
  read_write := wireSize_read

/-- A controller whose `rocksdb_client` keeps its query and is given a
response. -/
def recording (cipher : Option Cipher) (log : LogConfig)
    (response : Option ResponseMessage) : Environment (Option QueryMessage) :=
  ⟨⟨rocksdbClient fun query _ => (response, some query), cipher⟩, log⟩

section Exchange

variable (cipher : Option Cipher) (log : LogConfig)

/-- The query an operation sends, if it is one on the database. -/
def Op.query (r : Readings) (op : Op) : Option QueryMessage :=
  (World.exec (recording cipher log none) r op ⟨none, []⟩).2.kv

/-- What the operation returns on a response. -/
def Op.result (r : Readings) (op : Op) (response : ResponseMessage) : op.Res :=
  (World.exec (recording cipher log (some response)) r op ⟨none, []⟩).1

/-- `rocksdb_client::execute` on one side and `session::handle_read` on the
other; everything but the database is with the controller. -/
def rocksdbProtocol : Protocol Request Op Op.Res UInt8 (World Store) where
  header := wireHeader
  width_pos := by decide
  maxSize := 2 ^ 31 - 1
  maxSize_lt := by decide
  message req op :=
    (op.query cipher log req.readings).map QueryMessage.serialize
  serve text w :=
    match QueryMessage.deserialize text with
    | .ok query =>
        let answer := rocksdbProxy query w.kv
        (answer.1.serialize, { w with kv := answer.2 })
    -- there is no such text
    | .error _ => ([], w)
  result req op reply :=
    op.result cipher log req.readings (.deserialize reply)

end Exchange

/-! ## The map behind it -/

/-- The server reads the key as it was sent. -/
structure TokenKey (key : Str) : Prop where
  nonempty : key ≠ []
  token : space ∉ key
  length : key.length ≤ maxMsgSize

section Direct

variable {key value : Str}

theorem direct_read (hKey : TokenKey key) {command : Str}
    (hCommand : command = lit "get" ∨ command = lit "getm") (db : Store) :
    rocksdbExchange { command := command, key := key, isValid := true } db =
      (some (match db key with
        | some stored => { isSuccess := true, data := stored }
        | none => {}), db) := by
  have hFits : key.length + ([] : Str).length + 5 < npos := by
    have hLength := hKey.length
    have hMax : maxMsgSize = 4096 := rfl
    rw [List.length_nil, npos]
    omega
  have hRead := rocksdbExchange_read hFits hCommand hKey.nonempty db
  rw [QueryMessage.firstToken_of_not_mem hKey.token] at hRead
  refine hRead.trans ?_
  cases db key <;> rfl

theorem direct_del (hKey : TokenKey key) (db : Store) :
    rocksdbExchange { command := lit "del", key := key, isValid := true } db =
      (some { isSuccess := true }, Function.update db key none) := by
  have hFits : key.length + ([] : Str).length + 5 < npos := by
    have hLength := hKey.length
    have hMax : maxMsgSize = 4096 := rfl
    rw [List.length_nil, npos]
    omega
  rw [rocksdbExchange_del hFits hKey.nonempty,
    QueryMessage.firstToken_of_not_mem hKey.token]

theorem direct_put (hKey : TokenKey key) (hValue : value ≠ [])
    (hLength : value.length < 2 ^ 30) (db : Store) :
    rocksdbExchange { command := lit "put", key := key, value := value
                      isValid := true } db =
      (some { isSuccess := true }, Function.update db key (some value)) := by
  refine rocksdbExchange_put ?_ hKey.token hValue db
  have hShort := hKey.length
  have hMax : maxMsgSize = 4096 := rfl
  rw [npos]
  omega

end Direct

/-- The exchange of a query is the operation on a map, and both texts have a
size. -/
structure Exchanges (cipher : Option Cipher) (log : LogConfig) (r : Readings)
    (op : Op) (w : World Store) (query : QueryMessage)
    (response : ResponseMessage) (db : Store) : Prop where
  exchange : rocksdbExchange query w.kv = (some response, db)
  queryFits : query.serialize.length < 2 ^ 31
  responseFits : response.data.length + 1 < 2 ^ 31
  exec : World.exec (mapEnv true cipher log) r op w =
    (op.result cipher log r response, { w with kv := db })

section Sound

variable {c : Cipher} {log : LogConfig} {r : Readings} {w : World Store}
  {key value : Str}

theorem length_line {command : Str} (hCommand : command.length ≤ 4)
    (hKey : TokenKey key) : (QueryMessage.serialize
      { command := command, key := key, isValid := true }).length < 2 ^ 31 := by
  have hShort := hKey.length
  have hMax : maxMsgSize = 4096 := rfl
  rw [serialize_of_nil, List.length_append, List.length_cons]
  omega

theorem exchanges_get (hKey : TokenKey key) (hSend : Sendable w.kv) :
    ∃ response, Exchanges (some c) log r (.gdprGet key) w
      { command := lit "get", key := key, isValid := true } response w.kv := by
  have hExchange := direct_read hKey (.inl rfl) w.kv
  refine ⟨_, hExchange, length_line (by decide) hKey, ?_, ?_⟩
  · cases hStored : w.kv key with
    | none => decide
    | some stored => exact hSend key stored hStored
  · cases hStored : w.kv key <;>
      simp [World.exec, mapEnv, mapClient, mapBackend, KvClient.gdprGet,
        Op.result, recording, rocksdbClient, hStored]

theorem exchanges_getm (hKey : TokenKey key) (hSend : Sendable w.kv) :
    ∃ response, Exchanges (some c) log r (.gdprGetm key) w
      { command := lit "getm", key := key, isValid := true } response w.kv := by
  have hExchange := direct_read hKey (.inr rfl) w.kv
  refine ⟨_, hExchange, length_line (by decide) hKey, ?_, ?_⟩
  · cases hStored : w.kv key with
    | none => decide
    | some stored => exact hSend key stored hStored
  · cases hStored : w.kv key <;>
      simp [World.exec, mapEnv, mapClient, mapBackend, KvClient.gdprGetm,
        Op.result, recording, rocksdbClient, hStored]

theorem exchanges_del (hKey : TokenKey key) :
    Exchanges (some c) log r (.gdprDel key) w
      { command := lit "del", key := key, isValid := true }
      { isSuccess := true } (Function.update w.kv key none) where
  exchange := direct_del hKey w.kv
  queryFits := length_line (by decide) hKey
  responseFits := by decide
  exec := by
    simp [World.exec, mapEnv, mapClient, mapBackend, KvClient.gdprDel,
      Op.result, recording, rocksdbClient]

theorem length_putLine (hKey : TokenKey key) (hValue : value ≠ [])
    (hShort : value.length < 2 ^ 16) : (QueryMessage.serialize
      { command := lit "put", key := key, value := value
        isValid := true }).length < 2 ^ 31 := by
  have hLength := hKey.length
  have hMax : maxMsgSize = 4096 := rfl
  have hName : (lit "put").length = 3 := rfl
  rw [serialize_of_ne_nil _ _ _ hValue]
  simp only [List.length_append, List.length_cons, hName]
  omega

/-- Both puts send the encrypted text in a `put`. -/
theorem exchanges_put (hKey : TokenKey key)
    (hStored : ∀ stored, c.encrypt r.iv value = some stored →
      stored ≠ [] ∧ stored.length < 2 ^ 16)
    {op : Op} (hOp : op = .gdprPut key value ∨ op = .gdprPutm key value)
    {query : QueryMessage} (hQuery : op.query (some c) log r = some query) :
    ∃ response db, Exchanges (some c) log r op w query response db := by
  cases hEncrypt : c.encrypt r.iv value with
  | none =>
      rcases hOp with rfl | rfl
      · simp [Op.query, World.exec, KvClient.gdprPut, recording, hEncrypt]
          at hQuery
      · simp [Op.query, World.exec, KvClient.gdprPutm, recording, hEncrypt]
          at hQuery
  | some stored =>
      obtain ⟨hNonempty, hShort⟩ := hStored stored hEncrypt
      obtain rfl : { command := lit "put", key := key, value := stored
                     isValid := true } = query := by
        rcases hOp with rfl | rfl
        · simpa [Op.query, World.exec, KvClient.gdprPut, recording, hEncrypt,
            rocksdbClient] using hQuery
        · simpa [Op.query, World.exec, KvClient.gdprPutm, recording, hEncrypt,
            rocksdbClient] using hQuery
      refine ⟨{ isSuccess := true }, Function.update w.kv key (some stored),
        { exchange := direct_put hKey hNonempty (hShort.trans (by decide)) w.kv
          queryFits := length_putLine hKey hNonempty hShort
          responseFits := by decide
          exec := ?_ }⟩
      rcases hOp with rfl | rfl
      · simp [World.exec, mapEnv, mapClient, mapBackend, KvClient.gdprPut,
          Op.result, recording, rocksdbClient, hEncrypt]
      · simp [World.exec, mapEnv, mapClient, mapBackend, KvClient.gdprPutm,
          Op.result, recording, rocksdbClient, hEncrypt]

/-- What is made of a clean text is no empty one, and small. -/
theorem Pads.length_stored (hPads : Pads (some c))
    (hIv : r.iv.length = initializationVectorLen)
    (hValue : CleanText (some c) (some value)) {stored : Str}
    (hEncrypt : c.encrypt r.iv value = some stored) :
    stored ≠ [] ∧ stored.length < 2 ^ 16 := by
  obtain ⟨o, hText, hRec⟩ := hValue
  obtain ⟨rec, rfl, rfl⟩ := Option.map_eq_some_iff.mp hText.symm
  have hSmall := ((hRec rec rfl).small c rfl).length_encode
  have hLength := hPads r.iv rec.encode
    ((hRec rec rfl).storable fun _ _ => hIv) c rfl stored hEncrypt
  have hOverhead : initializationVectorLen + tagLen + 4 = 32 := rfl
  constructor
  · rintro rfl
    rw [hOverhead, List.length_nil] at hLength
    omega
  · omega

end Sound

/-! ## Every state -/

/-- The request is clean, and its key is a token if it has one. -/
structure Request.Carried (c : Cipher) (req : Request) : Prop where
  clean : req.Clean (some c)
  small : req.Small
  key : (KeyCommand.ofText req.query.cmd).isSome = true →
    TokenKey req.query.key

/-- What a request does: it works at its key, or reads logs. -/
structure Op.Carried (c : Cipher) (req : Request) (op : Op) : Prop where
  request : req.Carried c
  stores : op.StoresClean (some c)
  kind : op.ReadsLogs ∨ (TokenKey req.query.key ∧
    op.OfRequest req.query req.policy)

section Invariant

variable {c : Cipher} {log : LogConfig} {req : Request} {w : World Store}

theorem carried_respond (hReq : req.Carried c) :
    (respond req.query req.policy req.readings).Assures
      (Op.FindsClean (some c)) (Op.Carried c req) (Answered req) := by
  have hClean := assures_respond hReq.clean
  cases hCommand : KeyCommand.ofText req.query.cmd with
  | none =>
      refine (hClean.and_only (World.only_respond_other req.policy req.readings
        hCommand)).mono ?_ fun _ h => h
      exact fun op hOp => ⟨hReq, hOp.2, .inl hOp.1⟩
  | some command =>
      have hKey := hReq.key (by rw [hCommand]; rfl)
      refine (hClean.and_only (only_ofRequest hCommand)).mono ?_ fun _ h => h
      exact fun op hOp => ⟨hReq, hOp.2, .inr ⟨hKey, hOp.1⟩⟩

/-- The exchange of an operation is the operation on a map. -/
theorem Op.Carried.exchanges {op : Op} (h : op.Carried c req)
    (hPads : Pads (some c)) (hSend : Sendable w.kv) {query : QueryMessage}
    (hQuery : op.query (some c) log req.readings = some query) :
    ∃ response db,
      Exchanges (some c) log req.readings op w query response db := by
  have hStored : ∀ value, CleanText (some c) (some value) →
      ∀ stored, c.encrypt req.readings.iv value = some stored →
        stored ≠ [] ∧ stored.length < 2 ^ 16 :=
    fun _ hValue _ => hPads.length_stored h.request.small.iv hValue
  have hStores := h.stores
  rcases h.kind with hReads | ⟨hKey, hOp⟩
  · cases op <;> first | exact hReads.elim | cases hQuery
  · cases hOp with
    | get =>
        cases hQuery
        exact ⟨_, _, (exchanges_get hKey hSend).choose_spec⟩
    | getm =>
        cases hQuery
        exact ⟨_, _, (exchanges_getm hKey hSend).choose_spec⟩
    | del =>
        cases hQuery
        exact ⟨_, _, exchanges_del hKey⟩
    | put value =>
        exact exchanges_put hKey (hStored value hStores) (.inl rfl) hQuery
    | putm value =>
        exact exchanges_put hKey (hStored value hStores) (.inr rfl) hQuery
    | log valid newVal => cases hQuery

/-- An operation leaves small texts in the database. -/
theorem Op.Carried.sendable {op : Op} (h : op.Carried c req)
    (hPads : Pads (some c)) (hSend : Sendable w.kv) :
    Sendable
      (World.exec (mapEnv true (some c) log) req.readings op w).2.kv := by
  have hPut : ∀ key value, CleanText (some c) (some value) → Sendable
      ((mapClient true (some c)).gdprPut req.readings.iv key value w.kv).2 := by
    intro key value hValue
    simp only [KvClient.gdprPut, mapClient]
    cases hEncrypt : c.encrypt req.readings.iv value with
    | none => exact hSend
    | some stored =>
        have hShort :=
          (hPads.length_stored h.request.small.iv hValue hEncrypt).2
        exact hSend.put key (by omega)
  have hStores := h.stores
  cases op with
  | gdprGet key =>
      simp only [World.exec, mapEnv, KvClient.gdprGet_mapClient]
      exact hSend
  | gdprGetm key =>
      simp only [World.exec, mapEnv, KvClient.gdprGetm_mapClient]
      exact hSend
  | gdprPut key value => exact hPut key value hStores
  | gdprPutm key value =>
      simp only [World.exec, mapEnv, KvClient.gdprPutm_mapClient]
      exact hPut key value hStores
  | gdprDel key => exact hSend.del key
  | _ => exact hSend

/-- What a state of the controller keeps: clean records, in texts that can be
sent. -/
def CarriedStore (c : Cipher) (w : World Store) : Prop :=
  CleanStore (some c) w ∧ Sendable w.kv

variable (hRecovers : Recovers (some c)) (hPads : Pads (some c))
  {queues : Nat → List Request}
  (hStore : CarriedStore c w) (hQueues : ∀ i, ∀ req ∈ queues i, req.Carried c)

include hRecovers hPads hStore hQueues

/-- The rely-guarantee rule for such requests. -/
theorem assured_of_carried
    {cfg : Config Request Op Op.Res Exn Str (World Store)}
    (hReaches : Reaches (Interleave.step (served (mapEnv true (some c) log)))
      (Config.init w queues) cfg) :
    Assured (fun _ => Op.FindsClean (some c)) (fun req => Op.Carried c req)
      Answered (fun req => req.Carried c) (CarriedStore c) cfg :=
  assured_of_reaches (S := served (mapEnv true (some c) log))
    (fun _ => Op.FindsClean (some c)) (fun req => Op.Carried c req) Answered
    (fun req op w hInv hOp => by
      have hClean : op.FindsClean (some c)
          (World.exec (mapEnv true (some c) log) req.readings op w).1 ∧
          CleanStore (some c)
            (World.exec (mapEnv true (some c) log) req.readings op w).2 :=
        clean_exec hRecovers (fun _ _ => hOp.request.small.iv) op hInv.1
          hOp.stores
      exact ⟨hClean.1, hClean.2, hOp.sendable hPads hInv.2⟩)
    (fun _ hReq => carried_respond hReq) hStore hQueues hReaches

theorem sound_of_carried
    {cfg : Config Request Op Op.Res Exn Str (World Store)}
    (hReaches : Reaches (Interleave.step (served (mapEnv true (some c) log)))
      (Config.init w queues) cfg) :
    (rocksdbProtocol (some c) log).Sound (served (mapEnv true (some c) log))
      cfg := by
  have hInv := assured_of_carried hRecovers hPads hStore hQueues hReaches
  intro i t op next message hRunning hProg hMessage
  have hTask := hInv.running i t hRunning
  rw [hProg] at hTask
  obtain ⟨query, hQuery, rfl⟩ := Option.map_eq_some_iff.mp hMessage
  obtain ⟨response, db, hAll⟩ := hTask.1.exchanges hPads hInv.shared.2 hQuery
  obtain ⟨received, hReceived⟩ :=
    QueryMessage.deserialize_ok query.serialize
  have hExchange := hAll.exchange
  rw [rocksdbExchange_of_ok hReceived, Prod.mk.injEq, Option.some.injEq]
    at hExchange
  obtain ⟨hResponse, hDb⟩ := hExchange
  have hServe : (rocksdbProtocol (some c) log).serve query.serialize
      cfg.shared = (response.serialize, { cfg.shared with kv := db }) := by
    simp only [rocksdbProtocol, hReceived, hResponse, hDb]
  have hResult : (rocksdbProtocol (some c) log).result t.req op
      response.serialize = op.result (some c) log t.req.readings response := by
    simp only [rocksdbProtocol, ResponseMessage.deserialize_serialize]
  have hQueryFits := hAll.queryFits
  have hResponseFits := hAll.responseFits
  refine ⟨Nat.le_sub_one_of_lt hQueryFits, ?_, ?_⟩
  · rw [hServe, length_serialize]
    exact Nat.le_sub_one_of_lt hResponseFits
  · rw [hServe, hResult]
    exact hAll.exec

end Invariant

/-! ## The deployment -/

/-- A request with a command on a key reads, logs and writes at most. -/
theorem within_respond {req : Request} {command : KeyCommand}
    (hCommand : KeyCommand.ofText req.query.cmd = some command) :
    (respond req.query req.policy req.readings).Within 3 := by
  have hFinish : ∀ (pl : Plan) n,
      (Plan.finish req.query.key pl.write pl.reply).Within (n + 1) := by
    intro pl n
    unfold Plan.finish
    split
    · exact .ended _ (.ok _)
    · rename_i write failed _
      have hReply : ∀ ok : Bool, (if ok = true then (.ret pl.reply : Handler Str)
          else .ret failed).Within n := by
        intro ok
        cases ok <;> exact .ended _ (.ok _)
      cases write <;> exact .call _ hReply
  have hFollow : ∀ pl, (follow req.query req.policy pl).Within 2 := by
    intro pl
    cases pl with
    | error e => exact .ended _ (.error e)
    | ok pl =>
        simp only [follow, Plan.toProg]
        cases pl.entry with
        | none => exact hFinish pl 1
        | some entry => exact .call _ fun _ => hFinish pl 0
  rw [respond_eq _ _ _ hCommand]
  cases command <;> exact .call _ fun res => hFollow _

/-- A step of a thread of the controller or of a session of the server; the
controller does for itself what is no message. -/
abbrev rocksdbStep (c : Cipher) (log : LogConfig) :=
  Remote.step (rocksdbProtocol (some c) log)
    (served (mapEnv true (some c) log))

section Deployment

variable {g : Gcm} (hGcm : g.Correct) (hNever : g.NeverFails)
  {beyond : Nat → UInt8} {dbKey : Str} {log : LogConfig} {w : World Store}
  (hStore : CarriedStore (CipherEngine.cipher g beyond dbKey) w)
  {queues : Nat → List Request}
  (hQueues : ∀ i, ∀ req ∈ queues i,
    req.Carried (CipherEngine.cipher g beyond dbKey))
  {acts : List Remote.Act}
  {n : Remote.Net Request Op Op.Res Exn Str UInt8 (World Store)}
  (hRun : run (rocksdbStep (CipherEngine.cipher g beyond dbKey) log) acts
    (Net.init w queues) = some n)

include hGcm hNever hStore hQueues hRun

end Deployment

/-- A request with whole vectors. -/
def sealing (req : Request) : Request :=
  { req with
    readings := { req.readings with
      iv := List.replicate initializationVectorLen 7 } }

/-- Alice's put and get of `k`, on two connections. -/
def sealedQueues : Nat → List Request
  | 0 => [sealing (alicePut (lit "v"))]
  | 1 => [sealing aliceGet]
  | _ => []

/-- The get is sent before the put is, and executed after it. -/
def sealedActs : List Remote.Act :=
  [.turn 0, .turn 1, .turn 0, .turn 1, .work 0, .work 1, .work 0, .turn 0,
    .turn 0, .turn 0, .turn 0, .work 0, .work 0, .work 1, .turn 1, .turn 0,
    .turn 1, .turn 0, .turn 1, .turn 0, .turn 1]

abbrev sealedCipher : Cipher :=
  CipherEngine.cipher Gcm.transparent (fun _ => 0) (lit "0123456789abcdef")

theorem sealed_runs : ∃ n, run (rocksdbStep sealedCipher ⟨lit "logs", none⟩)
    sealedActs (Net.init ⟨fun _ => none, []⟩ sealedQueues) = some n := by
  have hSome : (run (rocksdbStep sealedCipher ⟨lit "logs", none⟩) sealedActs
      (Net.init ⟨fun _ => none, []⟩ sealedQueues)).isSome = true := by
    decide +kernel
  exact Option.isSome_iff_exists.mp hSome

theorem carriedStore_empty (c : Cipher) :
    CarriedStore c ⟨fun _ => none, []⟩ :=
  ⟨fun _ => ⟨none, rfl, fun _ hMem => nomatch hMem⟩, .empty⟩

theorem carried_sealed : ∀ i, ∀ req ∈ sealedQueues i,
    req.Carried sealedCipher := by
  have hNone : ∀ text ∈ (none : Option Str), text.length ≤ maxMsgSize :=
    fun _ hMem => nomatch hMem
  have hPut : (sealing (alicePut (lit "v"))).Small :=
    ⟨hNone, hNone, hNone, by decide, by decide, by decide, by decide, by decide,
      rfl⟩
  have hGet : (sealing aliceGet).Small :=
    ⟨hNone, hNone, hNone, by decide, by decide, by decide, by decide, by decide,
      rfl⟩
  intro i req hMem
  match i with
  | 0 =>
      rw [List.mem_singleton.mp hMem]
      exact ⟨⟨fun _ => ⟨by decide, by decide, by decide⟩,
        fun hPutm => (nomatch hPutm), fun _ _ => hPut⟩, hPut,
        fun _ => ⟨by decide, by decide, by decide⟩⟩
  | 1 =>
      rw [List.mem_singleton.mp hMem]
      exact ⟨⟨fun hPut => (nomatch hPut), fun hPutm => (nomatch hPutm),
        fun _ _ => hGet⟩, hGet, fun _ => ⟨by decide, by decide, by decide⟩⟩
  | _ + 2 => cases hMem

end GDPRuler.Controller
