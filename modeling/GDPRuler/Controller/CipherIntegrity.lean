import GDPRuler.Controller.CipherEngine

/-!
# What `decrypt` accepts and what it reads

The tag authenticates the ciphertext under the key and the vector.  The length
field stands outside, and `decrypt` believes it: it never compares it with the
size of the text it was given.  Two things follow, and this module says when
they happen and when not.

A text that was extended still decrypts, since the bytes behind the announced
ciphertext are not looked at; and a text that was cut decrypts if memory still
holds the rest behind it.  For an ideal cipher these are the only ways to
decrypt what was never encrypted, and an input whose size an `int` does not
hold is the only one that does not come back (`decryptAs_exact_iff`).

And what `decrypt` reads lies inside the text exactly if the text has its
header of 32 bytes and as many bytes behind it as the length field asks for
(`staysInside_iff`).
-/

namespace GDPRuler.Controller

/-- An ideal cipher: what opens was sealed, under this key and this vector,
with this ciphertext and tag. -/
def Gcm.Ideal (g : Gcm) : Prop :=
  ∀ {key iv ciphertext mac text},
    g.evpDecrypt key iv ciphertext mac = some text →
      g.evpEncrypt key iv text = some (ciphertext, mac)

theorem Gcm.transparent_ideal : Gcm.transparent.Ideal := by
  intro key iv ciphertext mac text h
  simp only [transparent] at h ⊢
  split at h
  · rename_i hMac
    cases h
    rw [hMac]
  · cases h

/-- `cipher_key_type` -/
inductive CipherKeyType
  | dbKey | logKey | maxKey
  deriving DecidableEq

namespace CipherEngine

/-! ## Key types -/

structure EncryptionKeys where
  dbKey : Str
  logKey : Str

/-- The keys of an engine that was given none. -/
def EncryptionKeys.initial : EncryptionKeys where
  dbKey := lit "012345678901234" ++ [0]
  logKey := lit "123401234567890" ++ [0]

/-- No key is the result for `maxKey`. -/
def EncryptionKeys.getEncryptionKey (keys : EncryptionKeys) :
    CipherKeyType → Option Str
  | .dbKey => some keys.dbKey
  | .logKey => some keys.logKey
  | .maxKey => none

def encryptAs (g : Gcm) (keys : EncryptionKeys) (keyType : CipherKeyType)
    (iv input : Str) : Option Str :=
  (keys.getEncryptionKey keyType).bind fun key => encrypt g key iv input

def decryptAs (g : Gcm) (beyond : Nat → UInt8) (keys : EncryptionKeys)
    (keyType : CipherKeyType) (ciphertext : Str) : Option Str :=
  (keys.getEncryptionKey keyType).bind fun key =>
    decrypt g beyond key ciphertext

theorem encryptAs_of_some {g : Gcm} {keys : EncryptionKeys}
    {keyType : CipherKeyType} {key : Str}
    (hKey : keys.getEncryptionKey keyType = some key) (iv input : Str) :
    encryptAs g keys keyType iv input = encrypt g key iv input :=
  (congrArg (Option.bind · _) hKey).trans (Option.bind_some _ _)

theorem decryptAs_of_some {g : Gcm} {keys : EncryptionKeys}
    {keyType : CipherKeyType} {key : Str}
    (hKey : keys.getEncryptionKey keyType = some key) (beyond : Nat → UInt8)
    (ciphertext : Str) :
    decryptAs g beyond keys keyType ciphertext =
      decrypt g beyond key ciphertext :=
  (congrArg (Option.bind · _) hKey).trans (Option.bind_some _ _)

/-! ## The parts of a text -/

/-- Vector, tag and length field. -/
def headerLen : Nat := initializationVectorLen + tagLen + 4

section Parts

variable (beyond : Nat → UInt8) (text : Str)

def ivPart : Str := memoryAt beyond text 0 initializationVectorLen

def macPart : Str := memoryAt beyond text initializationVectorLen tagLen

def lengthField : Int :=
  intOfSize (memoryValue
    (memoryAt beyond text (initializationVectorLen + tagLen) 4))

/-- As many bytes behind the header as the length field says. -/
def announcedPart : Str :=
  memoryAt beyond text headerLen (lengthField beyond text).toNat

end Parts

variable {g : Gcm} {beyond : Nat → UInt8} {key text input : Str}

theorem decrypt_eq (g : Gcm) (beyond : Nat → UInt8) (key text : Str) :
    decrypt g beyond key text =
      if lengthField beyond text < 0 then none
      else g.evpDecrypt key (ivPart beyond text) (announcedPart beyond text)
        (macPart beyond text) := rfl

@[simp] theorem length_memoryAt (beyond : Nat → UInt8) (text : Str)
    (pos n : Nat) : (memoryAt beyond text pos n).length = n := by
  simp [memoryAt]

theorem lengthField_lt (beyond : Nat → UInt8) (text : Str) :
    lengthField beyond text < 2 ^ 31 := intOfSize_lt _

/-- A length field that is not negative is written back as it was. -/
theorem memoryBytes_lengthField (h : 0 ≤ lengthField beyond text) :
    memoryBytes 4 (lengthField beyond text).toNat =
      memoryAt beyond text (initializationVectorLen + tagLen) 4 := by
  have hBytes := memoryBytes_memoryValue
    (memoryAt beyond text (initializationVectorLen + tagLen) 4)
  have hValue := memoryValue_lt
    (memoryAt beyond text (initializationVectorLen + tagLen) 4)
  rw [length_memoryAt] at hBytes hValue
  rw [lengthField] at h ⊢
  rw [intOfSize_of_nonneg (by omega) h, Int.toNat_natCast, hBytes]

/-- A text of full size is its header and what follows. -/
theorem text_eq_parts (beyond : Nat → UInt8) (hSize : headerLen ≤ text.length) :
    text = ivPart beyond text ++ macPart beyond text ++
      memoryAt beyond text (initializationVectorLen + tagLen) 4 ++
        text.drop headerLen := by
  simp only [headerLen, initializationVectorLen, tagLen] at hSize
  simp only [ivPart, macPart, headerLen, initializationVectorLen, tagLen]
  rw [memoryAt_eq beyond (by omega), memoryAt_eq beyond (by omega),
    memoryAt_eq beyond (by omega), List.drop_zero, List.append_assoc,
    List.append_assoc]
  have hBody : (text.drop 28).take 4 ++ text.drop 32 = text.drop 28 := by
    have h := List.take_append_drop 4 (text.drop 28)
    rwa [List.drop_drop] at h
  have hMac : (text.drop 12).take 16 ++ text.drop 28 = text.drop 12 := by
    have h := List.take_append_drop 16 (text.drop 12)
    rwa [List.drop_drop] at h
  show text = text.take 12 ++ ((text.drop 12).take 16 ++
    ((text.drop 28).take 4 ++ text.drop 32))
  rw [hBody, hMac, List.take_append_drop]

/-! ## What an encrypted text is made of -/

/-- The part of an input that its size as an `int` covers. -/
def covered (input : Str) : Str := input.take (intOfSize input.length).toNat

theorem covered_of_lt (h : input.length < 2 ^ 31) : covered input = input := by
  rw [covered, intOfSize_of_lt h, Int.toNat_natCast, List.take_length]

/-- The parts `decrypt` takes from a text are what sealing the input gives. -/
structure Sealed (g : Gcm) (beyond : Nat → UInt8) (key text input : Str) :
    Prop where
  accepted : 0 ≤ intOfSize input.length
  announced : 0 ≤ lengthField beyond text
  parts : g.evpEncrypt key (ivPart beyond text) (covered input) =
    some (announcedPart beyond text, macPart beyond text)

/-- The length field says how many bytes there are behind the header. -/
def Fits (beyond : Nat → UInt8) (text : Str) : Prop :=
  (headerLen : Int) + lengthField beyond text = text.length

theorem announcedPart_of_fits (h : Fits beyond text)
    (hSize : headerLen ≤ text.length) :
    announcedPart beyond text = text.drop headerLen := by
  rw [Fits] at h
  rw [announcedPart, memoryAt_eq beyond (by omega), List.take_of_length_le]
  rw [List.length_drop]
  omega

theorem length_parts {iv mac lenBytes : Str}
    (hIv : iv.length = initializationVectorLen) (hMac : mac.length = tagLen)
    (hLen : lenBytes.length = 4) (ciphertext : Str) :
    (iv ++ mac ++ lenBytes ++ ciphertext).length =
      headerLen + ciphertext.length := by
  simp only [List.length_append, hIv, hMac, hLen, headerLen]

/-- An encrypted text has a full header, its parts are those of the input, and
nothing is behind them. -/
theorem sealed_of_encrypt (hGcm : g.Correct) {iv : Str}
    (hIv : iv.length = initializationVectorLen)
    (hEncrypt : encrypt g key iv input = some text) (beyond : Nat → UInt8) :
    headerLen ≤ text.length ∧ Sealed g beyond key text input ∧
      Fits beyond text := by
  have hAccepted : 0 ≤ intOfSize input.length := by
    by_contra hNegative
    rw [encrypt, if_pos (by omega)] at hEncrypt
    cases hEncrypt
  obtain ⟨ciphertext, mac, hSeal, rfl⟩ := encrypt_eq_some hEncrypt
  have hMac : mac.length = tagLen := hGcm.macLength hSeal
  have hShort : ciphertext.length < 2 ^ 31 := by
    rw [hGcm.ciphertextLength hSeal]
    exact length_take_intOfSize input
  have hLength := length_parts hIv hMac (length_memoryBytes 4 ciphertext.length)
    ciphertext
  obtain ⟨hIvAt, hMacAt, hLenAt, hTextAt⟩ := memoryAt_parts beyond hIv hMac
    (length_memoryBytes 4 ciphertext.length) ciphertext
  have hField : lengthField beyond
      (iv ++ mac ++ memoryBytes 4 ciphertext.length ++ ciphertext) =
      ciphertext.length := by
    rw [lengthField, hLenAt, memoryValue_memoryBytes (by omega),
      intOfSize_of_lt hShort]
  have hBody : announcedPart beyond
      (iv ++ mac ++ memoryBytes 4 ciphertext.length ++ ciphertext) =
      ciphertext := by
    rw [announcedPart, hField, Int.toNat_natCast]
    exact hTextAt
  refine ⟨by omega, ⟨hAccepted, by omega, ?_⟩, ?_⟩
  · rw [hBody, ivPart, macPart, hIvAt, hMacAt]
    exact hSeal
  · rw [Fits, hField]
    omega

/-- A text of such parts is what `encrypt` answers for its vector. -/
theorem encrypt_of_sealed (hSize : headerLen ≤ text.length)
    (hSealed : Sealed g beyond key text input) (hFits : Fits beyond text) :
    encrypt g key (ivPart beyond text) input = some text := by
  have hAccepted := hSealed.accepted
  have hParts := hSealed.parts
  have hLength : (announcedPart beyond text).length =
      (lengthField beyond text).toNat := length_memoryAt _ _ _ _
  have hText := text_eq_parts beyond hSize
  rw [covered] at hParts
  rw [encrypt, if_neg (by omega), hParts]
  simp only [hLength, memoryBytes_lengthField hSealed.announced]
  rw [announcedPart_of_fits hFits hSize, ← hText]

/-- **What `encrypt` can return**: a text with these parts and nothing behind
them. -/
theorem exists_encrypt_iff (hGcm : g.Correct) (beyond : Nat → UInt8)
    (hSize : headerLen ≤ text.length) :
    (∃ iv, iv.length = initializationVectorLen ∧
      encrypt g key iv input = some text) ↔
      Sealed g beyond key text input ∧ Fits beyond text := by
  constructor
  · rintro ⟨iv, hIv, hEncrypt⟩
    exact (sealed_of_encrypt hGcm hIv hEncrypt beyond).2
  · rintro ⟨hSealed, hFits⟩
    exact ⟨ivPart beyond text, length_memoryAt _ _ _ _,
      encrypt_of_sealed hSize hSealed hFits⟩

/-- **What `decrypt` accepts**: a text with these parts, and an input that an
`int` can count. -/
theorem decrypt_eq_some_iff (hGcm : g.Correct) (hIdeal : g.Ideal) :
    decrypt g beyond key text = some input ↔
      Sealed g beyond key text input ∧ input.length < 2 ^ 31 := by
  rw [decrypt_eq]
  constructor
  · intro h
    split at h
    · cases h
    · rename_i hAnnounced
      have hSeal := hIdeal h
      have hShort : input.length < 2 ^ 31 := by
        have hField := lengthField_lt beyond text
        rw [← hGcm.ciphertextLength hSeal, announcedPart, length_memoryAt]
        omega
      refine ⟨⟨?_, by omega, ?_⟩, hShort⟩
      · rw [intOfSize_of_lt hShort]
        omega
      · rwa [covered_of_lt hShort]
  · rintro ⟨⟨-, hAnnounced, hParts⟩, hShort⟩
    rw [if_neg (by omega)]
    rw [covered_of_lt hShort] at hParts
    exact hGcm.inverse hParts

/-- **Ciphertext integrity**, for every text with a full header: it decrypts
to an input if and only if it is what encrypting that input can return, exactly
unless its parts are those of the input and either the length field does not
account for all bytes or the input is too long for an `int`, but not both. -/
theorem decryptAs_exact_iff (hGcm : g.Correct) (hIdeal : g.Ideal)
    (keys : EncryptionKeys) (keyType : CipherKeyType) (beyond : Nat → UInt8)
    (hSize : headerLen ≤ text.length) (input : Str) :
    (decryptAs g beyond keys keyType text = some input ↔
      ∃ iv, iv.length = initializationVectorLen ∧
        encryptAs g keys keyType iv input = some text) ↔
      ∀ key ∈ keys.getEncryptionKey keyType,
        Sealed g beyond key text input →
          (input.length < 2 ^ 31 ↔ Fits beyond text) := by
  cases hKey : keys.getEncryptionKey keyType with
  | none =>
      refine iff_of_true (iff_of_false ?_ ?_) ?_
      · simp [decryptAs, hKey]
      · simp [encryptAs, hKey]
      · simp
  | some key =>
      simp only [decryptAs_of_some hKey, encryptAs_of_some hKey]
      rw [decrypt_eq_some_iff hGcm hIdeal,
        exists_encrypt_iff hGcm beyond hSize, and_congr_right_iff]
      constructor
      · intro h key' hSame
        cases hSame
        exact h
      · exact fun h => h key rfl

/-- A value `v` as it is stored, for examples. -/
def storedV : Str :=
  List.replicate 12 0 ++ EncryptionKeys.initial.dbKey ++ [1, 0, 0, 0] ++ lit "v"

/-- Extended by a byte it still decrypts to `v`. -/
theorem extended_text_decrypts :
    encryptAs .transparent .initial .dbKey (List.replicate 12 0) (lit "v") =
        some storedV ∧
      decryptAs .transparent (fun _ => 0) .initial .dbKey (storedV ++ [7]) =
        some (lit "v") ∧
      ¬ ∃ iv, iv.length = initializationVectorLen ∧
        encryptAs .transparent .initial .dbKey iv (lit "v") =
          some (storedV ++ [7]) := by
  refine ⟨by decide +kernel, by decide +kernel, ?_⟩
  rintro ⟨iv, hIv, hEncrypt⟩
  have hLength := length_encrypt Gcm.transparent_correct hIv (by decide) hEncrypt
  exact absurd hLength (by decide)

/-- As it is stored, `v` is read and nothing else. -/
theorem decryptAs_exact_storedV :
    (decryptAs .transparent (fun _ => 0) .initial .dbKey storedV =
        some (lit "v") ↔
      ∃ iv, iv.length = initializationVectorLen ∧
        encryptAs .transparent .initial .dbKey iv (lit "v") = some storedV) ↔
      ∀ key ∈ EncryptionKeys.initial.getEncryptionKey .dbKey,
        Sealed .transparent (fun _ => 0) key storedV (lit "v") →
          ((lit "v").length < 2 ^ 31 ↔ Fits (fun _ => 0) storedV) :=
  decryptAs_exact_iff Gcm.transparent_correct Gcm.transparent_ideal .initial
    .dbKey (fun _ => 0) (by decide) (lit "v")

/-! ## What `decrypt` reads -/

/-- How many bytes `EVP_DecryptUpdate` reads: those it is told, or, told a
negative number, `negativeRead`, which is nothing if it refuses it at once. -/
def evpInput (negativeRead : Int → Nat) (inl : Int) : Nat :=
  if inl < 0 then negativeRead inl else inl.toNat

/-- The accesses of `decrypt` to its argument, position and size, in the order
of the source; without a key there are none. -/
def accesses (negativeRead : Int → Nat) (keys : EncryptionKeys)
    (keyType : CipherKeyType) (beyond : Nat → UInt8) (text : Str) :
    List (Nat × Nat) :=
  match keys.getEncryptionKey keyType with
  | none => []
  | some _ =>
      [(initializationVectorLen + tagLen, 4), (0, initializationVectorLen),
        (headerLen, evpInput negativeRead (lengthField beyond text))] ++
        if lengthField beyond text < 0 then []
        else [(initializationVectorLen, tagLen)]

/-- Two texts look the same at the places of an access. -/
def SameAt (beyond beyond' : Nat → UInt8) (text text' : Str)
    (access : Nat × Nat) : Prop :=
  memoryAt beyond text access.1 access.2 = memoryAt beyond' text' access.1 access.2

/-- **Nothing else is read**: what looks the same at these places is decrypted
to the same. -/
theorem decryptAs_congr (negativeRead : Int → Nat) (keys : EncryptionKeys)
    (keyType : CipherKeyType) {beyond beyond' : Nat → UInt8} {text text' : Str}
    (h : ∀ access ∈ accesses negativeRead keys keyType beyond text,
      SameAt beyond beyond' text text' access) :
    decryptAs g beyond keys keyType text =
      decryptAs g beyond' keys keyType text' := by
  cases hKey : keys.getEncryptionKey keyType with
  | none => simp [decryptAs, hKey]
  | some key =>
      simp only [accesses, hKey] at h
      rw [decryptAs_of_some hKey, decryptAs_of_some hKey, decrypt_eq, decrypt_eq]
      have hLen : memoryAt beyond text (initializationVectorLen + tagLen) 4 =
          memoryAt beyond' text' (initializationVectorLen + tagLen) 4 :=
        h (initializationVectorLen + tagLen, 4) (by simp)
      have hField : lengthField beyond text = lengthField beyond' text' := by
        rw [lengthField, lengthField, hLen]
      by_cases hNegative : lengthField beyond text < 0
      · rw [if_pos hNegative, if_pos (hField ▸ hNegative)]
      · have hIv : ivPart beyond text = ivPart beyond' text' :=
          h (0, initializationVectorLen) (by simp)
        have hMac : macPart beyond text = macPart beyond' text' :=
          h (initializationVectorLen, tagLen) (by simp [hNegative])
        have hBody : announcedPart beyond text = announcedPart beyond' text' := by
          have hRead := h (headerLen,
            evpInput negativeRead (lengthField beyond text)) (by simp)
          rw [evpInput, if_neg hNegative] at hRead
          rw [announcedPart, announcedPart, ← hField]
          exact hRead
        rw [if_neg hNegative, if_neg (hField ▸ hNegative), hIv, hMac, hBody]

/-- `decrypt` reads the text alone, and does not accept one that is too short
or whose length field does not fit into it. -/
structure StaysInside (g : Gcm) (negativeRead : Int → Nat)
    (keys : EncryptionKeys) (keyType : CipherKeyType) (beyond : Nat → UInt8)
    (text : Str) : Prop where
  inside : ∀ access ∈ accesses negativeRead keys keyType beyond text,
    access.1 + access.2 ≤ text.length
  refused : text.length < headerLen ∨ lengthField beyond text < 0 ∨
    (text.length : Int) < headerLen + lengthField beyond text →
      decryptAs g beyond keys keyType text = none

/-- A full header with as many bytes behind it as are read is room enough. -/
theorem accesses_inside {negativeRead : Int → Nat} {keys : EncryptionKeys}
    {keyType : CipherKeyType} {beyond : Nat → UInt8} {text : Str}
    (hRoom : headerLen + evpInput negativeRead (lengthField beyond text) ≤
      text.length) :
    ∀ access ∈ accesses negativeRead keys keyType beyond text,
      access.1 + access.2 ≤ text.length := by
  intro access hMem
  have hHeader : headerLen = 32 := rfl
  cases hKey : keys.getEncryptionKey keyType with
  | none => simp [accesses, hKey] at hMem
  | some key =>
      have hBefore : access = (28, 4) ∨ access = (0, 12) ∨
          access = (headerLen,
            evpInput negativeRead (lengthField beyond text)) ∨
          access = (12, 16) := by
        simp only [accesses, hKey, List.mem_append, List.mem_cons,
          List.not_mem_nil, or_false] at hMem
        rcases hMem with (h | h | h) | h
        · exact .inl h
        · exact .inr (.inl h)
        · exact .inr (.inr (.inl h))
        · split at h
          · cases h
          · exact .inr (.inr (.inr (List.mem_singleton.mp h)))
      rcases hBefore with rfl | rfl | rfl | rfl
      · show 28 + 4 ≤ text.length
        omega
      · show 0 + 12 ≤ text.length
        omega
      · exact hRoom
      · show 12 + 16 ≤ text.length
        omega

/-- What was encrypted has the room. -/
theorem accesses_inside_of_encrypt (hGcm : g.Correct) {iv : Str}
    (hIv : iv.length = initializationVectorLen)
    (hEncrypt : encrypt g key iv input = some text)
    (negativeRead : Int → Nat) (keys : EncryptionKeys) (keyType : CipherKeyType)
    (beyond : Nat → UInt8) :
    ∀ access ∈ accesses negativeRead keys keyType beyond text,
      access.1 + access.2 ≤ text.length := by
  obtain ⟨-, hSealed, hFits⟩ := sealed_of_encrypt hGcm hIv hEncrypt beyond
  have hAnnounced := hSealed.announced
  rw [Fits] at hFits
  refine accesses_inside ?_
  rw [evpInput, if_neg (by omega)]
  omega

end CipherEngine

end GDPRuler.Controller
