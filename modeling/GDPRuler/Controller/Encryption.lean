import GDPRuler.Verified.Simulation
import GDPRuler.Controller.CipherEngine

/-!
# Transparent encryption

`kv_client` is compiled in two ways.  With encryption each value is encrypted
on its way to the database and decrypted on its way back, and `gdpr_putm` goes
through `put` in place of `putm`.  Over a database that is a key-value map
nobody can tell the two builds apart: they answer every sequence of calls
alike (`encryption_transparent`).

What is kept is `Decrypts`: decrypting each stored value of the one build gives
the stored value of the other.
-/

namespace GDPRuler.Controller

open GDPRuler.Verified.Simulation

/-! ## Calls of the client -/

/-- A call of one of the public functions of `kv_client`. -/
inductive KvCall
  | gdprGet (key : Str)
  | gdprPut (key value : Str)
  | gdprDel (key : Str)
  | gdprGetm (key : Str)
  | gdprPutm (key value : Str)

/-- What a call returns. -/
inductive KvAnswer
  | value (result : Option Str)
  | success (result : Bool)
  deriving DecidableEq

namespace KvCall

def key : KvCall → Str
  | gdprGet key => key
  | gdprPut key _ => key
  | gdprDel key => key
  | gdprGetm key => key
  | gdprPutm key _ => key

/-- The value a call sends; nothing for the calls without one. -/
def sent : KvCall → Str
  | gdprPut _ value => value
  | gdprPutm _ value => value
  | _ => []

end KvCall

/-- Make a call; the second component is the vector its encryption draws. -/
def KvClient.answer {σ : Type} (client : KvClient σ) :
    KvCall × Str → σ → KvAnswer × σ
  | (.gdprGet key, _), s =>
      (.value (client.gdprGet key s).1, (client.gdprGet key s).2)
  | (.gdprPut key value, iv), s =>
      (.success (client.gdprPut iv key value s).1,
        (client.gdprPut iv key value s).2)
  | (.gdprDel key, _), s =>
      (.success (client.gdprDel key s).1, (client.gdprDel key s).2)
  | (.gdprGetm key, _), s =>
      (.value (client.gdprGetm key s).1, (client.gdprGetm key s).2)
  | (.gdprPutm key value, iv), s =>
      (.success (client.gdprPutm iv key value s).1,
        (client.gdprPutm iv key value s).2)

/-! ## The Redis driver -/

namespace Redis

/-- The server's `GET`. -/
def get (key : Str) (s : Store) : Option Str := s key

/-- The server's `SET`. -/
def set (key value : Str) (s : Store) : Bool × Store :=
  (true, Function.update s key (some value))

/-- The server's `DEL`: the number of keys it removed. -/
def del (key : Str) (s : Store) : Nat × Store :=
  (if (s key).isSome then 1 else 0, Function.update s key none)

end Redis

/-- `redis_client` -/
def redisClient : KvBackend Store where
  get key s := (Redis.get key s, s)
  put key value s :=
    (if (Redis.set key value s).1 then true else false,
      (Redis.set key value s).2)
  del key s :=
    (if (Redis.del key s).1 = 1 then true
      else if (Redis.del key s).1 = 0 then false else true,
      (Redis.del key s).2)
  getm key s := (Redis.get key s, s)
  putm key value s :=
    (if (Redis.set key value s).1 then true else false,
      (Redis.set key value s).2)

/-- It is a map that fails to delete an absent key. -/
theorem redisClient_eq : redisClient = mapBackend false := by
  have hDel : redisClient.del = (mapBackend false).del := by
    funext key s
    cases h : s key <;> simp [redisClient, mapBackend, Redis.del, h]
  unfold redisClient mapBackend at hDel ⊢
  simp only [KvBackend.mk.injEq]
  exact ⟨rfl, rfl, hDel, rfl, rfl⟩

/-! ## The relation -/

/-- Decrypting each value of `s` gives the value of `t`. -/
def Decrypts (c : Cipher) (s t : Store) : Prop :=
  ∀ key, (s key).map c.decrypt = (t key).map some

namespace Decrypts

variable {c : Cipher} {s t : Store}

theorem empty (c : Cipher) : Decrypts c (fun _ => none) fun _ => none :=
  fun _ => rfl

theorem lookup (h : Decrypts c s t) (key : Str) :
    KvClient.lookup (some c) s key = t key := by
  have hKey := h key
  unfold KvClient.lookup
  cases hs : s key with
  | none =>
      rw [hs, Option.map_none] at hKey
      exact (Option.map_eq_none_iff.mp hKey.symm).symm
  | some ciphertext =>
      rw [hs, Option.map_some] at hKey
      obtain ⟨value, ht, hValue⟩ := Option.map_eq_some_iff.mp hKey.symm
      rw [ht]
      exact hValue.symm

theorem isSome (h : Decrypts c s t) (key : Str) :
    (s key).isSome = (t key).isSome := by
  have hKey := congrArg Option.isSome (h key)
  simpa using hKey

theorem put (h : Decrypts c s t) (key : Str) {ciphertext value : Str}
    (hValue : c.decrypt ciphertext = some value) :
    Decrypts c (Function.update s key (some ciphertext))
      (Function.update t key (some value)) := by
  intro other
  by_cases hOther : other = key
  · subst hOther
    simp [hValue]
  · rw [Function.update_of_ne hOther, Function.update_of_ne hOther]
    exact h other

theorem del (h : Decrypts c s t) (key : Str) :
    Decrypts c (Function.update s key none) (Function.update t key none) := by
  intro other
  by_cases hOther : other = key
  · subst hOther
    simp
  · rw [Function.update_of_ne hOther, Function.update_of_ne hOther]
    exact h other

end Decrypts

/-! ## The two builds -/

section Builds

variable {g : Gcm} (hGcm : g.Correct) (hNever : g.NeverFails)
  (beyond : Nat → UInt8) (key : Str)

/-- A call the engine can serve: a vector of full length, and a value whose
size is an `int`. -/
structure Encryptable (call : KvCall × Str) : Prop where
  iv : call.2.length = initializationVectorLen
  value : call.1.sent.length < 2 ^ 31

include hGcm hNever in
/-- The value of a call is encrypted to a text that is decrypted to it. -/
private theorem exists_ciphertext {iv : Str}
    (hIv : iv.length = initializationVectorLen) (value : Str)
    (hValue : value.length < 2 ^ 31) :
    ∃ ciphertext,
      (CipherEngine.cipher g beyond key).encrypt iv value = some ciphertext ∧
      (CipherEngine.cipher g beyond key).decrypt ciphertext = some value := by
  obtain ⟨ciphertext, hEncrypt⟩ :=
    CipherEngine.exists_encrypt hNever key iv hValue
  rw [CipherEngine.cipher_encrypt, CipherEngine.cipher_decrypt]
  exact ⟨ciphertext, hEncrypt,
    CipherEngine.decrypt_encrypt_of_lt hGcm hIv beyond hValue hEncrypt⟩

include hGcm hNever in
/-- One call: the same answer, and the stores stay related. -/
theorem decrypts_answer (delAbsent : Bool) {call : KvCall × Str}
    (hCall : Encryptable call) {s t : Store}
    (h : Decrypts (CipherEngine.cipher g beyond key) s t) :
    ((mapClient delAbsent (some (CipherEngine.cipher g beyond key))).answer
        call s).1 = ((mapClient delAbsent none).answer call t).1 ∧
      Decrypts (CipherEngine.cipher g beyond key)
        ((mapClient delAbsent (some (CipherEngine.cipher g beyond key))).answer
          call s).2
        ((mapClient delAbsent none).answer call t).2 := by
  obtain ⟨call, iv⟩ := call
  cases call with
  | gdprGet k =>
      refine ⟨?_, h⟩
      simp only [KvClient.answer, KvClient.gdprGet_mapClient, h.lookup,
        KvClient.lookup_plain]
  | gdprGetm k =>
      refine ⟨?_, h⟩
      simp only [KvClient.answer, KvClient.gdprGetm_mapClient, h.lookup,
        KvClient.lookup_plain]
  | gdprDel k =>
      refine ⟨?_, h.del k⟩
      simp only [KvClient.answer, KvClient.gdprDel_mapClient, h.isSome]
  | gdprPut k value =>
      obtain ⟨ciphertext, hEncrypt, hDecrypt⟩ :=
        exists_ciphertext hGcm hNever beyond key hCall.iv value hCall.value
      simp only [KvClient.answer, KvClient.gdprPut_plain,
        KvClient.gdprPut_cipher delAbsent hEncrypt]
      exact ⟨trivial, h.put k hDecrypt⟩
  | gdprPutm k value =>
      obtain ⟨ciphertext, hEncrypt, hDecrypt⟩ :=
        exists_ciphertext hGcm hNever beyond key hCall.iv value hCall.value
      simp only [KvClient.answer, KvClient.gdprPutm_mapClient,
        KvClient.gdprPut_plain, KvClient.gdprPut_cipher delAbsent hEncrypt]
      exact ⟨trivial, h.put k hDecrypt⟩

include hGcm hNever in
/-- **Transparent encryption.** Over `redis_client` the build with encryption
answers every sequence of calls like the build without, and after it each value
it stored decrypts to the value the other stored. -/
theorem encryption_transparent {calls : List (KvCall × Str)}
    (hCalls : ∀ call ∈ calls, Encryptable call) {s t : Store}
    (hInit : Decrypts (CipherEngine.cipher g beyond key) s t) :
    (outputs (KvClient.answer
        ⟨redisClient, some (CipherEngine.cipher g beyond key)⟩) calls s).1 =
      (outputs (KvClient.answer ⟨redisClient, none⟩) calls t).1 ∧
    Decrypts (CipherEngine.cipher g beyond key)
      (outputs (KvClient.answer
        ⟨redisClient, some (CipherEngine.cipher g beyond key)⟩) calls s).2
      (outputs (KvClient.answer ⟨redisClient, none⟩) calls t).2 := by
  rw [redisClient_eq]
  have hStep : ∀ call s t, Encryptable call →
      Decrypts (CipherEngine.cipher g beyond key) s t →
      ((mapClient false (some (CipherEngine.cipher g beyond key))).answer
          call s).1 = ((mapClient false none).answer call t).1 ∧
        Decrypts (CipherEngine.cipher g beyond key)
          ((mapClient false (some (CipherEngine.cipher g beyond key))).answer
            call s).2
          ((mapClient false none).answer call t).2 :=
    fun call s t hCall h =>
      decrypts_answer hGcm hNever beyond key false hCall h
  exact ⟨outputs_eq hStep hCalls hInit,
    outputs_related (fun call s t hCall h => (hStep call s t hCall h).2)
      hCalls hInit⟩

end Builds

/-- `encryption_transparent` at a put, a metadata put and a get. -/
theorem encryption_transparent_putm :
    let c := CipherEngine.cipher Gcm.transparent (fun _ => 0)
      (lit "012345678901234")
    let iv := List.replicate initializationVectorLen 7
    let calls : List (KvCall × Str) :=
      [(.gdprPut (lit "k") (lit "VAL"), iv),
        (.gdprPutm (lit "k") (lit "NEW"), iv), (.gdprGet (lit "k"), iv)]
    (outputs (KvClient.answer ⟨redisClient, some c⟩) calls
        fun _ => none).1 =
      (outputs (KvClient.answer ⟨redisClient, none⟩) calls
        fun _ => none).1 ∧
    Decrypts c
      (outputs (KvClient.answer ⟨redisClient, some c⟩) calls
        fun _ => none).2
      (outputs (KvClient.answer ⟨redisClient, none⟩) calls
        fun _ => none).2 := by
  refine encryption_transparent Gcm.transparent_correct
    Gcm.transparent_neverFails _ _ ?_ (Decrypts.empty _)
  intro call hCall
  simp only [List.mem_cons, List.not_mem_nil, or_false] at hCall
  rcases hCall with rfl | rfl | rfl <;> exact ⟨by decide, by decide⟩

end GDPRuler.Controller
