import GDPRuler.Controller.CipherEngine
import GDPRuler.Controller.Plans

/-!
# Records that cannot be decrypted

`gdpr_get` answers nothing both where nothing is stored and where what is
stored fails to decrypt.  Four of the five handlers refuse a request that finds
nothing, so the stored bytes stay.  `handle_put` takes it for a first put: it
checks no record and writes one of its own over the bytes, owned by whoever
asked (`undecryptable_kept_iff`).
-/

namespace GDPRuler.Controller

section Undecryptable

variable {g : Gcm} (beyond : Nat → UInt8) (dbKey : Str) (delAbsent : Bool)
  (log : LogConfig)

/-- Something is stored at `key`, and the engine does not decrypt it. -/
def StoredUndecryptable (c : Cipher) (s : Store) (key : Str) : Prop :=
  ∃ stored, s key = some stored ∧ c.decrypt stored = none

/-- The client reads nothing there. -/
theorem StoredUndecryptable.lookup {c : Cipher} {s : Store} {key : Str}
    (h : StoredUndecryptable c s key) :
    KvClient.lookup (some c) s key = none := by
  obtain ⟨stored, hStored, hFails⟩ := h
  rw [KvClient.lookup, hStored]
  exact hFails

/-- A put on what is not read as a record. -/
theorem serve_put_unread {c : Cipher} {req : Request}
    (hCommand : KeyCommand.ofText req.query.cmd = some .put) {w : World Store}
    (hLookup : KvClient.lookup (some c) w.kv req.query.key = none) :
    (World.serve (mapEnv delAbsent (some c) log) req w).2.kv =
      match c.encrypt req.readings.iv (QueryRewriter.insert req.query
        req.policy req.query.value req.readings.rewriteTime) with
      | some ciphertext =>
          Function.update w.kv req.query.key (some ciphertext)
      | none => w.kv := by
  rw [World.serve_keyed delAbsent (some c) log hCommand, hLookup]
  simp only [plan, absentPlan, World.carryOut, Plan.kv, Write.apply,
    KvClient.gdprPut, mapClient]
  cases c.encrypt req.readings.iv (QueryRewriter.insert req.query req.policy
    req.query.value req.readings.rewriteTime) with
  | none => rfl
  | some ciphertext => rfl

/-- Every other command on it is refused and writes nothing. -/
theorem serve_unread_of_ne_put {c : Cipher} {command : KeyCommand}
    {req : Request} (hCommand : KeyCommand.ofText req.query.cmd = some command)
    (hPut : command ≠ .put) {w : World Store}
    (hLookup : KvClient.lookup (some c) w.kv req.query.key = none) :
    (World.serve (mapEnv delAbsent (some c) log) req w).2.kv = w.kv := by
  rw [World.serve_keyed delAbsent (some c) log hCommand, hLookup]
  cases command with
  | put => exact absurd rfl hPut
  | _ => simp only [plan, absentPlan, World.carryOut, Plan.kv]

/-- **Records that cannot be decrypted.** A request on one leaves the store as
it was exactly if it is not a put, or a put whose encryption fails. -/
theorem undecryptable_kept_iff (hGcm : g.Correct) {command : KeyCommand}
    {req : Request} (hCommand : KeyCommand.ofText req.query.cmd = some command)
    (hIv : req.readings.iv.length = initializationVectorLen) {w : World Store}
    (hStored : StoredUndecryptable (CipherEngine.cipher g beyond dbKey) w.kv
      req.query.key) :
    (World.serve (mapEnv delAbsent (some (CipherEngine.cipher g beyond dbKey))
        log) req w).2.kv = w.kv ↔
      (command = .put →
        CipherEngine.encrypt g dbKey req.readings.iv
          (QueryRewriter.insert req.query req.policy req.query.value
            req.readings.rewriteTime) = none) := by
  have hLookup := hStored.lookup
  by_cases hPut : command = .put
  · subst hPut
    rw [serve_put_unread delAbsent log hCommand hLookup,
      CipherEngine.cipher_encrypt]
    simp only [forall_const]
    cases hEncrypt : CipherEngine.encrypt g dbKey req.readings.iv
        (QueryRewriter.insert req.query req.policy req.query.value
          req.readings.rewriteTime) with
    | none => simp only []
    | some ciphertext =>
        -- what is written decrypts, so it is not what was stored
        have hDecrypt := CipherEngine.decrypt_encrypt hGcm hIv beyond hEncrypt
        obtain ⟨stored, hHere, hFails⟩ := hStored
        simp only [reduceCtorEq, iff_false]
        intro hSame
        have hWritten := congrFun hSame req.query.key
        rw [Function.update_self, hHere, Option.some.injEq] at hWritten
        rw [CipherEngine.cipher_decrypt, ← hWritten, hDecrypt] at hFails
        cases hFails
  · have hKept := serve_unread_of_ne_put delAbsent log hCommand hPut hLookup
    exact iff_of_true hKept fun h => absurd h hPut

end Undecryptable

/-! ## A put by a stranger -/

/-- The database key of the examples. -/
def exampleKey : Str := lit "0123456789012345"

/-- Its engine. -/
def exampleCipher : Cipher :=
  CipherEngine.cipher Gcm.transparent (fun _ => 0) exampleKey

/-- A request of bob's on `k`. -/
def bobRequest (cmd : Str) : Request :=
  ⟨{ cmd := cmd, key := lit "k", value := lit "NEW"
     userKey := some (lit "bob") }, alicePolicy,
    { Readings.constant 0 with
      iv := List.replicate initializationVectorLen 7 }⟩

/-- Alice's record, encrypted under another key. -/
def foreignStore : Store := fun key =>
  if key = lit "k" then
    CipherEngine.encrypt Gcm.transparent (lit "ABCDEFGHIJKLMNOP")
      (List.replicate initializationVectorLen 7)
      (lit "alice|0|2|0|home|0||0|VAL")
  else none

theorem storedUndecryptable_foreign :
    StoredUndecryptable exampleCipher foreignStore (lit "k") := by
  obtain ⟨stored, hStored⟩ := Option.isSome_iff_exists.mp
    (show (foreignStore (lit "k")).isSome = true by decide +kernel)
  refine ⟨stored, hStored, ?_⟩
  have hFails : (foreignStore (lit "k")).bind exampleCipher.decrypt = none := by
    decide +kernel
  rwa [hStored, Option.bind_some] at hFails

/-- Bob's put is acknowledged; the record there is then his. -/
theorem undecryptable_overwritten :
    Query.ofText (lit "query(PUT(\"k\",\"NEW\"))&sessionKey(\"bob\")") =
      .ok (bobRequest (lit "put")).query ∧
    StoredUndecryptable exampleCipher foreignStore (lit "k") ∧
    (World.serve (mapEnv true (some exampleCipher) ⟨lit "logs", none⟩)
      (bobRequest (lit "put")) ⟨foreignStore, []⟩).1 = .ok PUT_SUCCESS ∧
    KvClient.lookup (some exampleCipher)
      (World.serve (mapEnv true (some exampleCipher) ⟨lit "logs", none⟩)
        (bobRequest (lit "put")) ⟨foreignStore, []⟩).2.kv (lit "k") =
      some (lit "bob|0|2|0|home|0||1|NEW") := by
  refine ⟨by decide +kernel, storedUndecryptable_foreign, by decide +kernel,
    by decide +kernel⟩

/-- `undecryptable_kept_iff` at bob's get of the same bytes. -/
theorem undecryptable_kept_get :
    (World.serve (mapEnv true (some exampleCipher) ⟨lit "logs", none⟩)
      (bobRequest (lit "get")) ⟨foreignStore, []⟩).2.kv = foreignStore := by
  have hCommand : KeyCommand.ofText (bobRequest (lit "get")).query.cmd =
      some .get := by decide
  have hKept := undecryptable_kept_iff (w := ⟨foreignStore, []⟩) (fun _ => 0)
    exampleKey true ⟨lit "logs", none⟩ Gcm.transparent_correct hCommand
    (by decide) storedUndecryptable_foreign
  refine hKept.mpr ?_
  intro hPut
  cases hPut

end GDPRuler.Controller
