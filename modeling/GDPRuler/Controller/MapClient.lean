import GDPRuler.Controller.CipherEngine

/-!
# A key-value map behind a cipher

With encryption a client of a key-value map reads at each key what the engine
decrypts there.  As long as what is put can be encrypted (`Storable`: a whole
vector, and a text whose size is an `int`) such a client is itself a map: a put
succeeds and changes its key, to the value that was put, and a deletion empties
its key.  The engine of the repository meets the assumption
(`recovers_engine`), and so does a build without encryption.
-/

namespace GDPRuler.Controller

/-- With encryption: the vector is whole, and the size of the text is an
`int`. -/
def Storable (cipher : Option Cipher) (iv value : Str) : Prop :=
  ∀ c ∈ cipher, iv.length = initializationVectorLen ∧ value.length < 2 ^ 31

theorem storable_none (iv value : Str) : Storable none iv value :=
  fun _ hNone => nomatch hNone

/-- What can be encrypted is, to a text that is decrypted to it. -/
def Recovers (cipher : Option Cipher) : Prop :=
  ∀ iv value, Storable cipher iv value → ∀ c ∈ cipher,
    ∃ stored, c.encrypt iv value = some stored ∧ c.decrypt stored = some value

theorem recovers_none : Recovers none :=
  fun _ _ _ _ hNone => nomatch hNone

/-- The engine of the repository. -/
theorem recovers_engine {g : Gcm} (hGcm : g.Correct) (hNever : g.NeverFails)
    (beyond : Nat → UInt8) (key : Str) :
    Recovers (some (CipherEngine.cipher g beyond key)) := by
  intro iv value hStorable c hCipher
  obtain ⟨hIv, hValue⟩ := hStorable c hCipher
  obtain rfl := Option.some.inj hCipher
  obtain ⟨stored, hEncrypt⟩ := CipherEngine.exists_encrypt hNever key iv hValue
  exact ⟨stored, hEncrypt,
    CipherEngine.decrypt_encrypt_of_lt hGcm hIv beyond hValue hEncrypt⟩

/-- What is encrypted becomes longer by a vector, a tag and a size. -/
def Pads (cipher : Option Cipher) : Prop :=
  ∀ iv value, Storable cipher iv value → ∀ c ∈ cipher,
    ∀ stored, c.encrypt iv value = some stored →
      stored.length = initializationVectorLen + tagLen + 4 + value.length

theorem pads_engine {g : Gcm} (hGcm : g.Correct) (beyond : Nat → UInt8)
    (key : Str) : Pads (some (CipherEngine.cipher g beyond key)) := by
  intro iv value hStorable c hCipher stored hEncrypt
  obtain ⟨hIv, hValue⟩ := hStorable c hCipher
  obtain rfl := Option.some.inj hCipher
  exact CipherEngine.length_encrypt hGcm hIv hValue hEncrypt

section Map

variable {cipher : Option Cipher}

/-- Each key is read by itself. -/
theorem lookup_update (cipher : Option Cipher) (s : Store) (key : Str)
    (stored : Option Str) (other : Str) :
    KvClient.lookup cipher (Function.update s key stored) other =
      if other = key then KvClient.lookup cipher (fun _ => stored) key
      else KvClient.lookup cipher s other := by
  by_cases hKey : other = key
  · subst hKey
    rw [if_pos rfl]
    cases cipher <;> simp only [KvClient.lookup, Function.update_self]
  · rw [if_neg hKey]
    cases cipher <;> simp only [KvClient.lookup, Function.update_of_ne hKey]

/-- **A put** succeeds and stores a text that is read as the value. -/
theorem Recovers.put (h : Recovers cipher) (delAbsent : Bool) {iv value : Str}
    (hStorable : Storable cipher iv value) (key : Str) (s : Store) :
    ∃ stored, (mapClient delAbsent cipher).gdprPut iv key value s =
        (true, Function.update s key (some stored)) ∧
      KvClient.lookup cipher (fun _ => some stored) key = some value := by
  cases cipher with
  | none => exact ⟨value, rfl, rfl⟩
  | some c =>
      obtain ⟨stored, hEncrypt, hDecrypt⟩ := h iv value hStorable c rfl
      exact ⟨stored, KvClient.gdprPut_cipher delAbsent hEncrypt key s, hDecrypt⟩

/-- What is read after a put. -/
theorem Recovers.lookup_put (h : Recovers cipher) (delAbsent : Bool)
    {iv value : Str} (hStorable : Storable cipher iv value) (key : Str)
    (s : Store) (other : Str) :
    KvClient.lookup cipher
        ((mapClient delAbsent cipher).gdprPut iv key value s).2 other =
      if other = key then some value else KvClient.lookup cipher s other := by
  obtain ⟨stored, hPut, hLookup⟩ := h.put delAbsent hStorable key s
  rw [hPut, lookup_update, hLookup]

/-- What is read after a deletion. -/
theorem lookup_del (delAbsent : Bool) (cipher : Option Cipher) (key : Str)
    (s : Store) (other : Str) :
    KvClient.lookup cipher
        ((mapClient delAbsent cipher).gdprDel key s).2 other =
      if other = key then none else KvClient.lookup cipher s other := by
  rw [KvClient.gdprDel_mapClient, lookup_update]
  cases cipher <;> rfl

end Map

end GDPRuler.Controller
