import GDPRuler.Controller.KvClient

/-!
# The cipher engine

`encrypt` writes the initialization vector, the tag, the length of the
ciphertext as an `int` and the ciphertext; `decrypt` takes a text apart at the
same positions.  AES-GCM itself is OpenSSL's and a parameter, `Gcm`.

Two conversions of the source are kept.  The size of the input is cast to an
`int`, so an input of `2^31` bytes or more is cut or refused.  And `decrypt`
never looks at the size of its argument: what it reads past the end is whatever
memory holds there, the parameter `beyond`.

## Main results

* `memoryAt_eq` — inside the text, memory is the text;
* `decrypt_encrypt` — what one writes the other reads, whatever is beyond.
-/

namespace GDPRuler.Controller

def initializationVectorLen : Nat := 12

def tagLen : Nat := 16

/-! ## OpenSSL -/

/-- AES-128-GCM under a key and an initialization vector: ciphertext and tag of
a plaintext, and the plaintext back; `none` is a call that fails. -/
structure Gcm where
  evpEncrypt : (key iv plaintext : Str) → Option (Str × Str)
  evpDecrypt : (key iv ciphertext mac : Str) → Option Str

/-- What OpenSSL documents: ciphertext and plaintext are equally long, tags
have 16 bytes, and decryption with the same key, vector and tag inverts
encryption. -/
structure Gcm.Correct (g : Gcm) : Prop where
  ciphertextLength : ∀ {key iv text ciphertext mac},
    g.evpEncrypt key iv text = some (ciphertext, mac) →
      ciphertext.length = text.length
  macLength : ∀ {key iv text ciphertext mac},
    g.evpEncrypt key iv text = some (ciphertext, mac) → mac.length = tagLen
  inverse : ∀ {key iv text ciphertext mac},
    g.evpEncrypt key iv text = some (ciphertext, mac) →
      g.evpDecrypt key iv ciphertext mac = some text

/-- No call fails. -/
def Gcm.NeverFails (g : Gcm) : Prop :=
  ∀ key iv text, (g.evpEncrypt key iv text).isSome = true

/-- A stand-in for examples: nothing is hidden, and the key is the tag, so
that only the key that sealed a text opens it. -/
def Gcm.transparent : Gcm where
  evpEncrypt key _ text := some (text, (key ++ List.replicate tagLen 0).take tagLen)
  evpDecrypt key _ ciphertext mac :=
    if mac = (key ++ List.replicate tagLen 0).take tagLen then some ciphertext
    else none

theorem Gcm.transparent_correct : Gcm.transparent.Correct where
  ciphertextLength := by
    intro key iv text ciphertext mac h
    cases h
    rfl
  macLength := by
    intro key iv text ciphertext mac h
    cases h
    simp
  inverse := by
    intro key iv text ciphertext mac h
    cases h
    simp [transparent]

theorem Gcm.transparent_neverFails : Gcm.transparent.NeverFails :=
  fun _ _ _ => rfl

namespace CipherEngine

/-! ## The engine -/

/-- The bytes memory holds from position `pos` of a text on. -/
def memoryAt (beyond : Nat → UInt8) (text : Str) (pos n : Nat) : Str :=
  (List.range n).map fun i => text.getD (pos + i) (beyond (pos + i))

/-- `encrypt` under a key; `RAND_bytes` gave `iv`.  `EVP_EncryptUpdate` refuses
a negative length. -/
def encrypt (g : Gcm) (key iv input : Str) : Option Str :=
  let inputLen := intOfSize input.length
  if inputLen < 0 then none
  else
    match g.evpEncrypt key iv (input.take inputLen.toNat) with
    | none => none
    | some (ciphertext, mac) =>
        some (iv ++ mac ++ memoryBytes 4 ciphertext.length ++ ciphertext)

/-- `decrypt` under a key; `EVP_DecryptUpdate` refuses a negative length. -/
def decrypt (g : Gcm) (beyond : Nat → UInt8) (key ciphertext : Str) :
    Option Str :=
  let iv := memoryAt beyond ciphertext 0 initializationVectorLen
  let mac := memoryAt beyond ciphertext initializationVectorLen tagLen
  let lenBytes :=
    memoryAt beyond ciphertext (initializationVectorLen + tagLen) 4
  let ciphertextLen := intOfSize (memoryValue lenBytes)
  if ciphertextLen < 0 then none
  else
    g.evpDecrypt key iv
      (memoryAt beyond ciphertext (initializationVectorLen + tagLen + 4)
        ciphertextLen.toNat)
      mac

/-- The engine under one of its keys, as the database client uses it. -/
def cipher (g : Gcm) (beyond : Nat → UInt8) (key : Str) : Cipher where
  encrypt := encrypt g key
  decrypt := decrypt g beyond key

@[simp] theorem cipher_encrypt (g : Gcm) (beyond : Nat → UInt8) (key : Str) :
    (cipher g beyond key).encrypt = encrypt g key := rfl

@[simp] theorem cipher_decrypt (g : Gcm) (beyond : Nat → UInt8) (key : Str) :
    (cipher g beyond key).decrypt = decrypt g beyond key := rfl

/-! ## The layout -/

theorem memoryAt_eq (beyond : Nat → UInt8) {text : Str} {pos n : Nat}
    (h : pos + n ≤ text.length) :
    memoryAt beyond text pos n = (text.drop pos).take n := by
  refine List.ext_getElem ?_ fun i hLeft hRight => ?_
  · simp only [memoryAt, List.length_map, List.length_range, List.length_take,
      List.length_drop]
    omega
  · have hi : i < n := by simpa [memoryAt] using hLeft
    have hPos : pos + i < text.length := by omega
    simp [memoryAt, List.getElem_take, List.getElem_drop, hPos]

/-- A part of a text that is put together is found at its position. -/
theorem memoryAt_append (beyond : Nat → UInt8) (before part after : Str) :
    memoryAt beyond (before ++ (part ++ after)) before.length part.length =
      part := by
  have hFits : before.length + part.length ≤
      (before ++ (part ++ after)).length := by
    simp only [List.length_append]
    omega
  rw [memoryAt_eq beyond hFits, List.drop_left, List.take_left]

/-- The four parts of a text that `encrypt` puts together, each where `decrypt`
looks for it. -/
theorem memoryAt_parts (beyond : Nat → UInt8) {iv mac lenBytes : Str}
    (hIv : iv.length = initializationVectorLen) (hMac : mac.length = tagLen)
    (hLen : lenBytes.length = 4) (ciphertext : Str) :
    memoryAt beyond (iv ++ mac ++ lenBytes ++ ciphertext) 0
        initializationVectorLen = iv ∧
      memoryAt beyond (iv ++ mac ++ lenBytes ++ ciphertext)
        initializationVectorLen tagLen = mac ∧
      memoryAt beyond (iv ++ mac ++ lenBytes ++ ciphertext)
        (initializationVectorLen + tagLen) 4 = lenBytes ∧
      memoryAt beyond (iv ++ mac ++ lenBytes ++ ciphertext)
        (initializationVectorLen + tagLen + 4) ciphertext.length =
          ciphertext := by
  have hIvAt := memoryAt_append beyond [] iv (mac ++ (lenBytes ++ ciphertext))
  have hMacAt := memoryAt_append beyond iv mac (lenBytes ++ ciphertext)
  have hLenAt := memoryAt_append beyond (iv ++ mac) lenBytes ciphertext
  have hTextAt := memoryAt_append beyond (iv ++ mac ++ lenBytes) ciphertext []
  simp only [List.nil_append, List.length_nil, List.append_nil,
    List.append_assoc, List.length_append, hIv, hMac, hLen, ← Nat.add_assoc]
    at hIvAt hMacAt hLenAt hTextAt ⊢
  exact ⟨hIvAt, hMacAt, hLenAt, hTextAt⟩

variable {g : Gcm} {key iv input text : Str}

/-- What `encrypt` answers: the four parts, one behind the other. -/
theorem encrypt_eq_some (hEncrypt : encrypt g key iv input = some text) :
    ∃ ciphertext mac,
      g.evpEncrypt key iv (input.take (intOfSize input.length).toNat) =
        some (ciphertext, mac) ∧
      text = iv ++ mac ++ memoryBytes 4 ciphertext.length ++ ciphertext := by
  simp only [encrypt] at hEncrypt
  split at hEncrypt
  · cases hEncrypt
  · cases hSeal : g.evpEncrypt key iv
        (input.take (intOfSize input.length).toNat) with
    | none =>
        simp only [hSeal] at hEncrypt
        cases hEncrypt
    | some parts =>
        obtain ⟨ciphertext, mac⟩ := parts
        simp only [hSeal, Option.some.injEq] at hEncrypt
        exact ⟨ciphertext, mac, rfl, hEncrypt.symm⟩

/-- The engine encrypts whatever OpenSSL does not refuse. -/
theorem exists_encrypt (hGcm : g.NeverFails) (key iv : Str)
    (hInput : input.length < 2 ^ 31) :
    ∃ text, encrypt g key iv input = some text := by
  have hLen := intOfSize_of_lt hInput
  have hNonneg : ¬ intOfSize input.length < 0 := by rw [hLen]; omega
  obtain ⟨parts, hSeal⟩ := Option.isSome_iff_exists.mp
    (hGcm key iv (input.take (intOfSize input.length).toNat))
  exact ⟨_, by rw [encrypt, if_neg hNonneg, hSeal]⟩

/-- At most `2^31 - 1` bytes are encrypted. -/
theorem length_take_intOfSize (input : Str) :
    (input.take (intOfSize input.length).toNat).length < 2 ^ 31 := by
  have hBound := intOfSize_lt input.length
  rw [List.length_take]
  omega

/-- **What `encrypt` writes, `decrypt` reads**, whatever lies behind it in
memory: the part of the input its size as an `int` covers. -/
theorem decrypt_encrypt (hGcm : g.Correct)
    (hIv : iv.length = initializationVectorLen) (beyond : Nat → UInt8)
    (hEncrypt : encrypt g key iv input = some text) :
    decrypt g beyond key text =
      some (input.take (intOfSize input.length).toNat) := by
  obtain ⟨ciphertext, mac, hSeal, rfl⟩ := encrypt_eq_some hEncrypt
  have hMac : mac.length = tagLen := hGcm.macLength hSeal
  have hSmall : ciphertext.length < 2 ^ 31 := by
    rw [hGcm.ciphertextLength hSeal]
    exact length_take_intOfSize input
  obtain ⟨hIvAt, hMacAt, hLenAt, hTextAt⟩ := memoryAt_parts beyond hIv hMac
    (length_memoryBytes 4 ciphertext.length) ciphertext
  have hValue : memoryValue (memoryBytes 4 ciphertext.length) =
      ciphertext.length := memoryValue_memoryBytes (by omega)
  have hInt : intOfSize ciphertext.length = ciphertext.length :=
    intOfSize_of_lt hSmall
  have hNonneg : ¬ ((ciphertext.length : Int) < 0) := by omega
  unfold decrypt
  simp only
  rw [hIvAt, hMacAt, hLenAt, hValue, hInt, if_neg hNonneg, Int.toNat_natCast,
    hTextAt]
  exact hGcm.inverse hSeal

/-- An input of fewer than `2^31` bytes comes back whole. -/
theorem decrypt_encrypt_of_lt (hGcm : g.Correct)
    (hIv : iv.length = initializationVectorLen) (beyond : Nat → UInt8)
    (hInput : input.length < 2 ^ 31)
    (hEncrypt : encrypt g key iv input = some text) :
    decrypt g beyond key text = some input := by
  rw [decrypt_encrypt hGcm hIv beyond hEncrypt, intOfSize_of_lt hInput,
    Int.toNat_natCast, List.take_length]

/-- Encrypted texts have a fixed overhead. -/
theorem length_encrypt (hGcm : g.Correct)
    (hIv : iv.length = initializationVectorLen)
    (hInput : input.length < 2 ^ 31)
    (hEncrypt : encrypt g key iv input = some text) :
    text.length = initializationVectorLen + tagLen + 4 + input.length := by
  obtain ⟨ciphertext, mac, hSeal, rfl⟩ := encrypt_eq_some hEncrypt
  have hTake : input.take (intOfSize input.length).toNat = input := by
    rw [intOfSize_of_lt hInput, Int.toNat_natCast, List.take_length]
  rw [hTake] at hSeal
  simp only [List.length_append, length_memoryBytes, hIv,
    hGcm.macLength hSeal, hGcm.ciphertextLength hSeal]

end CipherEngine

end GDPRuler.Controller
