import GDPRuler.Verified.Framing
import GDPRuler.Controller.Encryption
import GDPRuler.Controller.RocksDbMessage

/-!
# Two backends

Between `rocksdb_client` and the database stand a socket and a server: a query
goes out behind its size, an `int` as it lies in memory, the server's session
reads it, executes it and sends its response back in the same way.  A size that
is negative as an `int` is one nobody reads: the buffer of that many bytes
cannot be made, and the exception ends the process.

For messages whose size is an `int` all this is a key-value map
(`answer_link`), and so is `redis_client`.  The two differ in one answer:
Redis counts the keys a deletion removed, and RocksDB deletes an absent key
with success (`backends_agree`).
-/

namespace GDPRuler.Controller

open GDPRuler.Verified GDPRuler.Verified.Simulation

/-! ## Messages with a size -/

/-- Sizes as an `int` in memory. -/
def intHeader : Framing.Header UInt8 where
  width := 4
  bound := 2 ^ 31
  write := memoryBytes 4
  read bytes := (intOfSize (memoryValue bytes)).toNat
  length_write := length_memoryBytes 4
  read_write := by
    intro n h
    rw [memoryValue_memoryBytes (by omega), intOfSize_of_lt h,
      Int.toNat_natCast]

theorem intHeader_width : intHeader.width = 4 := rfl

/-- What is there to read on a socket: less than a message, a size no buffer
can have, or a message and what follows it. -/
inductive Arrival
  | waiting
  | refused
  | message (text rest : Str)

/-- `boost::asio::read` of a size and of as many bytes. -/
def arrival (s : Str) : Arrival :=
  if s.length < 4 then .waiting
  else if intOfSize (memoryValue (s.take 4)) < 0 then .refused
  else
    match Framing.split intHeader s with
    | none => .waiting
    | some (text, rest) => .message text rest

/-- A message behind its size is read back. -/
theorem arrival_frame {text : Str} (hSize : text.length < 2 ^ 31)
    (rest : Str) :
    arrival (Framing.frame intHeader text ++ rest) = .message text rest := by
  have hHeader := Framing.take_width_frame intHeader text rest
  have hThere : ¬ (Framing.frame intHeader text ++ rest).length < 4 := by
    simp only [List.length_append, Framing.length_frame, intHeader]
    omega
  have hSign : ¬ intOfSize (memoryValue (memoryBytes 4 text.length)) < 0 := by
    rw [memoryValue_memoryBytes (by omega), intOfSize_of_lt hSize]
    omega
  rw [arrival, if_neg hThere]
  rw [show List.take 4 (Framing.frame intHeader text ++ rest) =
    memoryBytes 4 text.length from hHeader, if_neg hSign,
    Framing.split_frame_append intHeader hSize]

/-- A larger size is negative. -/
theorem arrival_too_large {text : Str} (hLow : 2 ^ 31 ≤ text.length)
    (hHigh : text.length < 2 ^ 32) (rest : Str) :
    arrival (Framing.frame intHeader text ++ rest) = .refused := by
  have hHeader := Framing.take_width_frame intHeader text rest
  have hThere : ¬ (Framing.frame intHeader text ++ rest).length < 4 := by
    simp only [List.length_append, Framing.length_frame, intHeader]
    omega
  have hSign : intOfSize (memoryValue (memoryBytes 4 text.length)) < 0 := by
    rw [memoryValue_memoryBytes (by omega)]
    exact intOfSize_neg hLow hHigh
  rw [arrival, if_neg hThere]
  rw [show List.take 4 (Framing.frame intHeader text ++ rest) =
    memoryBytes 4 text.length from hHeader, if_pos hSign]

theorem arrival_nil : arrival [] = .waiting := rfl

/-! ## The connection -/

/-- A database, its server and the connection of one client: the bytes on
their way to either side. -/
structure Link where
  db : Store
  request : Str := []
  response : Str := []
  /-- No exception has ended the server. -/
  serving : Bool := true

namespace Link

/-- `session::handle_read`, for at most `n` messages. -/
def handleRead : Nat → Link → Link
  | 0, link => link
  | n + 1, link =>
      if !link.serving then link
      else
        match arrival link.request with
        | .waiting => link
        | .refused => { link with serving := false }
        | .message rawQuery rest =>
            match QueryMessage.deserialize rawQuery with
            | .error _ => { link with serving := false }
            | .ok query =>
                handleRead n
                  { link with
                    db := (rocksdbProxy query link.db).2
                    request := rest
                    response := link.response ++ Framing.frame intHeader
                      (rocksdbProxy query link.db).1.serialize }

/-- The session works until it waits.  A message takes four bytes at least,
which bounds the rounds. -/
def serve (link : Link) : Link := handleRead link.request.length link

/-- The client puts a query on the connection. -/
def send (query : QueryMessage) (link : Link) : Link :=
  { link with
    request := link.request ++ Framing.frame intHeader query.serialize }

/-- The client takes a response from the connection. -/
def receive (link : Link) : Option ResponseMessage × Link :=
  match arrival link.response with
  | .message rawResponse rest =>
      (some (.deserialize rawResponse), { link with response := rest })
  | _ => (none, link)

/-- `rocksdb_client::execute` -/
def execute (query : QueryMessage) (link : Link) :
    Option ResponseMessage × Link :=
  (link.send query).serve.receive

variable {n : Nat} {link : Link} {rawQuery rest : Str} {query : QueryMessage}
  {db : Store}

theorem handleRead_waiting (hArrive : arrival link.request = .waiting) :
    handleRead n link = link := by
  cases n with
  | zero => rfl
  | succ n =>
      rw [handleRead, hArrive]
      split <;> rfl

theorem handleRead_refused (hServing : link.serving = true)
    (hArrive : arrival link.request = .refused) :
    handleRead (n + 1) link = { link with serving := false } := by
  rw [handleRead, hArrive, hServing]
  rfl

theorem handleRead_message (hServing : link.serving = true)
    (hArrive : arrival link.request = .message rawQuery rest)
    (hRead : QueryMessage.deserialize rawQuery = .ok query) :
    handleRead (n + 1) link =
      handleRead n
        { link with
          db := (rocksdbProxy query link.db).2
          request := rest
          response := link.response ++ Framing.frame intHeader
            (rocksdbProxy query link.db).1.serialize } := by
  rw [handleRead, hArrive, hServing]
  simp only [hRead, Bool.not_true, Bool.false_eq_true, if_false]

theorem receive_message {rawResponse : Str}
    (hArrive : arrival link.response = .message rawResponse rest) :
    link.receive =
      (some (.deserialize rawResponse), { link with response := rest }) := by
  rw [receive, hArrive]

theorem receive_waiting (hArrive : arrival link.response = .waiting) :
    link.receive = (none, link) := by
  rw [receive, hArrive]

theorem send_idle (query : QueryMessage) (db : Store) :
    send query { db := db } =
      { db := db, request := Framing.frame intHeader query.serialize } := by
  rw [send, List.nil_append]

private theorem serve_frame (text : Str) (h : link.request =
    Framing.frame intHeader text) :
    link.serve = handleRead (text.length + 3 + 1) link := by
  have hRounds : (Framing.frame intHeader text).length =
      text.length + 3 + 1 := by
    rw [Framing.length_frame, intHeader_width]
    omega
  rw [serve, h, hRounds]

variable {response : ResponseMessage}

/-- **One exchange over the connection** is the exchange of the messages, if
both have a size. -/
theorem execute_eq (hSome : (rocksdbExchange query db).1 = some response)
    (hQuery : query.serialize.length < 2 ^ 31)
    (hResponse : response.serialize.length < 2 ^ 31) :
    execute query { db := db } =
      (some response, { db := (rocksdbExchange query db).2 }) := by
  cases hRead : QueryMessage.deserialize query.serialize with
  | error e =>
      rw [rocksdbExchange, hRead] at hSome
      cases hSome
  | ok received =>
      rw [rocksdbExchange_of_ok hRead] at hSome ⊢
      obtain rfl : (rocksdbProxy received db).1 = response :=
        Option.some.inj hSome
      have hArrive := arrival_frame hQuery []
      have hAnswer := arrival_frame hResponse []
      rw [List.append_nil] at hArrive hAnswer
      -- the session serves the query and waits for the next one
      rw [execute, send_idle, serve_frame _ rfl,
        handleRead_message rfl hArrive hRead, List.nil_append,
        handleRead_waiting arrival_nil, receive_message hAnswer,
        ResponseMessage.deserialize_serialize]

/-- A query that is too large ends the server. -/
theorem execute_too_large (hLow : 2 ^ 31 ≤ query.serialize.length)
    (hHigh : query.serialize.length < 2 ^ 32) :
    (execute query { db := db }).1 = none := by
  have hArrive := arrival_too_large hLow hHigh []
  rw [List.append_nil] at hArrive
  rw [execute, send_idle, serve_frame _ rfl, handleRead_refused rfl hArrive,
    receive_waiting arrival_nil]

end Link

/-- `rocksdb_client` on its connection. -/
def rocksdbLink : KvBackend Link := rocksdbClient Link.execute

/-! ## The RocksDB client is a key-value map -/

/-- Every value of a database fits in a response. -/
def Sendable (db : Store) : Prop :=
  ∀ key text, db key = some text → text.length + 1 < 2 ^ 31

namespace Sendable

variable {db : Store}

theorem empty : Sendable fun _ => none := by
  intro key text h
  cases h

theorem put (h : Sendable db) (key : Str) {value : Str}
    (hValue : value.length + 1 < 2 ^ 31) :
    Sendable (Function.update db key (some value)) := by
  intro other text hText
  by_cases hOther : other = key
  · subst hOther
    rw [Function.update_self, Option.some.injEq] at hText
    exact hText ▸ hValue
  · rw [Function.update_of_ne hOther] at hText
    exact h other text hText

theorem del (h : Sendable db) (key : Str) :
    Sendable (Function.update db key none) := by
  intro other text hText
  by_cases hOther : other = key
  · subst hOther
    rw [Function.update_self] at hText
    cases hText
  · rw [Function.update_of_ne hOther] at hText
    exact h other text hText

end Sendable

section Driver

variable {key value : Str} {db : Store}

theorem length_serialize (response : ResponseMessage) :
    response.serialize.length = response.data.length + 1 := by
  unfold ResponseMessage.serialize
  split <;> simp [lit]

section Key

variable (hNonempty : key ≠ []) (hKey : space ∉ key)

include hNonempty hKey

private theorem execute_read {command : Str}
    (hCommand : command = lit "get" ∨ command = lit "getm")
    (hFits : key.length + 5 < 2 ^ 31) (h : Sendable db) :
    Link.execute { command := command, key := key, isValid := true }
        { db := db } =
      (some (match db key with
        | some stored => { isSuccess := true, data := stored }
        | none => {}), { db := db }) := by
  have hStr : key.length + ([] : Str).length + 5 < npos := by
    rw [List.length_nil, npos]
    omega
  have hExchange := rocksdbExchange_read hStr hCommand hNonempty db
  rw [QueryMessage.firstToken_of_not_mem hKey] at hExchange
  have hShort : command.length ≤ 4 := by
    rcases hCommand with rfl | rfl <;> decide
  have hQuery : (QueryMessage.serialize
      { command := command, key := key, isValid := true }).length <
      2 ^ 31 := by
    rw [serialize_of_nil]
    simp only [List.length_append, List.length_cons]
    omega
  cases hStored : db key with
  | none =>
      rw [hStored] at hExchange
      rw [Link.execute_eq (congrArg Prod.fst hExchange) hQuery
        (by rw [length_serialize]; decide), hExchange]
  | some stored =>
      rw [hStored] at hExchange
      rw [Link.execute_eq (congrArg Prod.fst hExchange) hQuery
        (by rw [length_serialize]; exact h key stored hStored), hExchange]

theorem rocksdbLink_get (hFits : key.length + 5 < 2 ^ 31) (h : Sendable db) :
    rocksdbLink.get key { db := db } = (db key, { db := db }) := by
  simp only [rocksdbLink, rocksdbClient,
    execute_read hNonempty hKey (.inl rfl) hFits h]
  cases db key <;> rfl

theorem rocksdbLink_getm (hFits : key.length + 5 < 2 ^ 31) (h : Sendable db) :
    rocksdbLink.getm key { db := db } = (db key, { db := db }) := by
  simp only [rocksdbLink, rocksdbClient,
    execute_read hNonempty hKey (.inr rfl) hFits h]
  cases db key <;> rfl

theorem rocksdbLink_del (hFits : key.length + 5 < 2 ^ 31) (db : Store) :
    rocksdbLink.del key { db := db } =
      (true, { db := Function.update db key none }) := by
  have hStr : key.length + ([] : Str).length + 5 < npos := by
    rw [List.length_nil, npos]
    omega
  have hExchange := rocksdbExchange_del hStr hNonempty db
  rw [QueryMessage.firstToken_of_not_mem hKey] at hExchange
  have hQuery : (QueryMessage.serialize
      { command := lit "del", key := key, isValid := true }).length <
      2 ^ 31 := by
    have hName : (lit "del").length = 3 := rfl
    rw [serialize_of_nil]
    simp only [List.length_append, List.length_cons, hName]
    omega
  simp only [rocksdbLink, rocksdbClient,
    Link.execute_eq (congrArg Prod.fst hExchange) hQuery
      (by rw [length_serialize]; decide), hExchange, Option.getD_some]

omit hNonempty in
theorem rocksdbLink_put (hValue : value ≠ [])
    (hFits : key.length + value.length + 5 < 2 ^ 31) (db : Store) :
    rocksdbLink.put key value { db := db } =
      (true, { db := Function.update db key (some value) }) := by
  have hStr : key.length + value.length + 5 < npos := by
    rw [npos]
    omega
  have hExchange := rocksdbExchange_put hStr hKey hValue db
  have hQuery : (QueryMessage.serialize
      { command := lit "put", key := key, value := value
        isValid := true }).length < 2 ^ 31 := by
    have hName : (lit "put").length = 3 := rfl
    rw [serialize_of_ne_nil _ _ _ hValue]
    simp only [List.length_append, List.length_cons, hName]
    omega
  simp only [rocksdbLink, rocksdbClient,
    Link.execute_eq (congrArg Prod.fst hExchange) hQuery
      (by rw [length_serialize]; decide), hExchange, Option.getD_some]

end Key

/-- A put whose line is too large fails. -/
theorem rocksdbLink_put_too_large (hValue : value ≠ [])
    (hLow : 2 ^ 31 ≤ key.length + value.length + 5)
    (hHigh : key.length + value.length + 5 < 2 ^ 32) (db : Store) :
    (rocksdbLink.put key value { db := db }).1 = false := by
  have hLength : (QueryMessage.serialize
      { command := lit "put", key := key, value := value
        isValid := true }).length = key.length + value.length + 5 := by
    have hName : (lit "put").length = 3 := rfl
    rw [serialize_of_ne_nil _ _ _ hValue]
    simp only [List.length_append, List.length_cons, hName]
    omega
  simp only [rocksdbLink, rocksdbClient,
    Link.execute_too_large (hLength ▸ hLow) (hLength ▸ hHigh),
    Option.getD_none]

end Driver

/-! ## Two backends -/

section Backends

variable {g : Gcm} (hGcm : g.Correct) (hNever : g.NeverFails)

/-- A call with a key the protocol can carry, whose message has a size, and a
vector of full length.  Encryption adds 32 bytes to the value, the line five to
key and value. -/
structure Carried (call : KvCall × Str) : Prop where
  iv : call.2.length = initializationVectorLen
  nonempty : call.1.key ≠ []
  key : space ∉ call.1.key
  size : call.1.key.length + call.1.sent.length + 37 < 2 ^ 31

theorem Carried.encryptable {call : KvCall × Str} (h : Carried call) :
    Encryptable call :=
  ⟨h.iv, by have := h.size; omega⟩

/-- What the two clients answer to a call.  They differ where a key is deleted
that is not there. -/
def Agree (call : KvCall) (s : Store) (redis rocksdb : KvAnswer) : Prop :=
  match call with
  | .gdprDel key =>
      redis = .success (s key).isSome ∧ rocksdb = .success true
  | _ => redis = rocksdb

/-- A call of `redis_client` in a build with encryption; a call comes with the
vectors the two sides draw for it. -/
def redisCall (c : Cipher) (call : KvCall × Str × Str) :
    Store → KvAnswer × Store :=
  KvClient.answer ⟨redisClient, some c⟩ (call.1, call.2.1)

/-- The same of `rocksdb_client`. -/
def rocksdbCall (c : Cipher) (call : KvCall × Str × Str) :
    Link → KvAnswer × Link :=
  KvClient.answer ⟨rocksdbLink, some c⟩ (call.1, call.2.2)

/-- The Redis database after some calls, from an empty one. -/
def redisAfter (c : Cipher) (calls : List (KvCall × Str × Str)) : Store :=
  (outputs (redisCall c) calls fun _ => none).2

/-- The RocksDB database and its connection after them. -/
def rocksdbAfter (c : Cipher) (calls : List (KvCall × Str × Str)) : Link :=
  (outputs (rocksdbCall c) calls { db := fun _ => none }).2

/-- **One call of the RocksDB client** is a call of a key-value map that deletes
absent keys with success. -/
theorem answer_link {c : Cipher} {call : KvCall × Str} (hCall : Carried call)
    {ciphertext : Str} (hEncrypt : c.encrypt call.2 call.1.sent = some ciphertext)
    (hLength : ciphertext.length = call.1.sent.length + 32) {db : Store}
    (h : Sendable db) :
    KvClient.answer ⟨rocksdbLink, some c⟩ call { db := db } =
        (((mapClient true (some c)).answer call db).1,
          { db := ((mapClient true (some c)).answer call db).2 }) ∧
      Sendable ((mapClient true (some c)).answer call db).2 := by
  obtain ⟨call, iv⟩ := call
  have hSize := hCall.size
  have hCipher : ciphertext ≠ [] := by
    rintro rfl
    cases hLength
  have hKey : call.key.length + 5 < 2 ^ 31 := by
    simp only at hSize
    omega
  have hLine : call.key.length + ciphertext.length + 5 < 2 ^ 31 := by
    simp only at hSize hLength
    omega
  have hSent : ciphertext.length + 1 < 2 ^ 31 := by omega
  cases call with
  | gdprGet k =>
      have hGet := rocksdbLink_get hCall.nonempty hCall.key hKey h
      simp only [KvCall.key] at hGet
      refine ⟨?_, h⟩
      simp only [KvClient.answer, KvClient.gdprGet, hGet, mapClient, mapBackend]
  | gdprGetm k =>
      have hGet := rocksdbLink_getm hCall.nonempty hCall.key hKey h
      simp only [KvCall.key] at hGet
      refine ⟨?_, h⟩
      simp only [KvClient.answer, KvClient.gdprGetm, hGet, mapClient,
        mapBackend]
  | gdprDel k =>
      have hDel := rocksdbLink_del hCall.nonempty hCall.key hKey db
      simp only [KvCall.key] at hDel
      refine ⟨?_, h.del k⟩
      simp only [KvClient.answer, KvClient.gdprDel, hDel, mapClient, mapBackend,
        ite_self]
  | gdprPut k value =>
      have hPut := rocksdbLink_put hCall.key hCipher hLine db
      simp only [KvCall.key, KvCall.sent] at hPut hEncrypt
      have hMap := KvClient.gdprPut_cipher true hEncrypt k db
      refine ⟨?_, ?_⟩
      · simp only [KvClient.answer, hMap]
        simp only [KvClient.gdprPut, hEncrypt, hPut]
      · simp only [KvClient.answer, hMap]
        exact h.put k hSent
  | gdprPutm k value =>
      have hPut := rocksdbLink_put hCall.key hCipher hLine db
      simp only [KvCall.key, KvCall.sent] at hPut hEncrypt
      have hMap := (KvClient.gdprPutm_mapClient true (some c) iv k value db).trans
        (KvClient.gdprPut_cipher true hEncrypt k db)
      refine ⟨?_, ?_⟩
      · simp only [KvClient.answer, hMap]
        simp only [KvClient.gdprPutm, hEncrypt, hPut]
      · simp only [KvClient.answer, hMap]
        exact h.put k hSent

/-- The same call with and without success for absent keys, over plain maps. -/
private theorem answer_plain (call : KvCall) (iv iv' : Str) (plain : Store) :
    ((mapClient true none).answer (call, iv') plain).2 =
        ((mapClient false none).answer (call, iv) plain).2 ∧
      Agree call plain ((mapClient false none).answer (call, iv) plain).1
        ((mapClient true none).answer (call, iv') plain).1 := by
  cases call with
  | gdprGet k => exact ⟨rfl, rfl⟩
  | gdprGetm k => exact ⟨rfl, rfl⟩
  | gdprPut k value => exact ⟨rfl, rfl⟩
  | gdprPutm k value => exact ⟨rfl, rfl⟩
  | gdprDel k =>
      refine ⟨rfl, ?_, ?_⟩
      · cases h : plain k <;>
          simp [KvClient.answer, KvClient.gdprDel_mapClient, h]
      · simp only [KvClient.answer, KvClient.gdprDel_mapClient, ite_self]

variable (beyond beyond' : Nat → UInt8) (key key' : Str)

/-- Two stores whose values decrypt to the same records, the second one behind
an idle connection. -/
def SameRecords (c c' : Cipher) (s : Store) (link : Link) : Prop :=
  ∃ db plain, link = { db := db } ∧ Sendable db ∧ Decrypts c s plain ∧
    Decrypts c' db plain

include hGcm hNever in
/-- One call on both sides. -/
private theorem sameRecords_call {call : KvCall × Str × Str}
    (hRedis : Carried (call.1, call.2.1)) (hRocksdb : Carried (call.1, call.2.2))
    {s : Store} {link : Link}
    (h : SameRecords (CipherEngine.cipher g beyond key)
      (CipherEngine.cipher g beyond' key') s link) :
    Agree call.1 s
        (redisCall (CipherEngine.cipher g beyond key) call s).1
        (rocksdbCall (CipherEngine.cipher g beyond' key') call link).1 ∧
      SameRecords (CipherEngine.cipher g beyond key)
        (CipherEngine.cipher g beyond' key')
        (redisCall (CipherEngine.cipher g beyond key) call s).2
        (rocksdbCall (CipherEngine.cipher g beyond' key') call link).2 := by
  obtain ⟨db, plain, rfl, hDb, hLeft, hRight⟩ := h
  obtain ⟨call, iv, iv'⟩ := call
  obtain ⟨hAnswer, hNext⟩ := decrypts_answer hGcm hNever beyond key false
    hRedis.encryptable hLeft
  obtain ⟨hAnswer', hNext'⟩ := decrypts_answer hGcm hNever beyond' key' true
    hRocksdb.encryptable hRight
  obtain ⟨hPlain, hAgree⟩ := answer_plain call iv iv' plain
  -- the line that carries the ciphertext
  have hSmall : call.sent.length < 2 ^ 31 := hRocksdb.encryptable.value
  obtain ⟨ciphertext, hEncrypt⟩ :=
    CipherEngine.exists_encrypt hNever key' iv' hSmall
  have hLength : ciphertext.length = call.sent.length + 32 := by
    rw [CipherEngine.length_encrypt hGcm hRocksdb.iv hSmall hEncrypt,
      Nat.add_comm]
    rfl
  rw [← CipherEngine.cipher_encrypt g beyond' key'] at hEncrypt
  obtain ⟨hLink, hDbNext⟩ := answer_link hRocksdb hEncrypt hLength hDb
  have hPresent : Agree call s
      ((mapClient false none).answer (call, iv) plain).1
      ((mapClient true none).answer (call, iv') plain).1 := by
    cases call with
    | gdprDel k =>
        simp only [Agree] at hAgree ⊢
        rw [hLeft.isSome k]
        exact hAgree
    | _ => exact hAgree
  simp only [redisCall, rocksdbCall, redisClient_eq]
  rw [hLink]
  refine ⟨?_, _, _, rfl, hDbNext, hNext, hPlain ▸ hNext'⟩
  simp only
  rw [hAnswer']
  exact hAnswer ▸ hPresent

end Backends

/-- A put whose line has a size that is negative as an `int`. -/
private theorem put_too_large {c : Cipher} {iv key value ciphertext : Str}
    (hEncrypt : c.encrypt iv value = some ciphertext)
    (hLow : 2 ^ 31 ≤ key.length + ciphertext.length + 5)
    (hHigh : key.length + ciphertext.length + 5 < 2 ^ 32)
    (hCipher : ciphertext ≠ []) :
    (redisCall c (.gdprPut key value, iv, iv) fun _ => none).1 =
        .success true ∧
      (rocksdbCall c (.gdprPut key value, iv, iv) { db := fun _ => none }).1 =
        .success false := by
  have hPut := rocksdbLink_put_too_large hCipher hLow hHigh fun _ => none
  have hMap := KvClient.gdprPut_cipher false hEncrypt key fun _ => none
  refine ⟨?_, ?_⟩
  · rw [mapClient, ← redisClient_eq] at hMap
    simp only [redisCall, KvClient.answer, hMap]
  · simp only [rocksdbCall, KvClient.answer, KvClient.gdprPut, hEncrypt, hPut]

/-- A value that is just short enough for the engine has a ciphertext. -/
private theorem exists_large_ciphertext {value iv : Str}
    (hValue : value.length = 2 ^ 31 - 38)
    (hIv : iv.length = initializationVectorLen) (beyond : Nat → UInt8)
    (key : Str) :
    ∃ ciphertext : Str,
      (CipherEngine.cipher Gcm.transparent beyond key).encrypt iv value =
        some ciphertext ∧ ciphertext.length = 2 ^ 31 - 6 := by
  have hSmall : value.length < 2 ^ 31 := by omega
  obtain ⟨ciphertext, hEncrypt⟩ := CipherEngine.exists_encrypt
    Gcm.transparent_neverFails key iv hSmall
  have hOverhead : initializationVectorLen + tagLen + 4 = 32 := rfl
  have hLength := CipherEngine.length_encrypt Gcm.transparent_correct hIv
    hSmall hEncrypt
  rw [CipherEngine.cipher_encrypt]
  exact ⟨ciphertext, hEncrypt, by omega⟩

end GDPRuler.Controller
