import GDPRuler.Controller.CxxString

/-!
# The database client

`kv_client` is an interface of five database operations; its public functions
`gdpr_get … gdpr_putm` put an optional encryption layer around them.  A
build without encryption is a client without a cipher.

`mapBackend` is a database that is a correct key-value map.  Databases differ
in one answer only, that to a deletion of an absent key: Redis counts the
removed keys and reports failure, RocksDB reports success.
-/

namespace GDPRuler.Controller

/-- The virtual functions of `kv_client`, on database states `σ`. -/
structure KvBackend (σ : Type) where
  get : Str → σ → Option Str × σ
  put : Str → Str → σ → Bool × σ
  del : Str → σ → Bool × σ
  getm : Str → σ → Option Str × σ
  putm : Str → Str → σ → Bool × σ

/-- The cipher engine under one key: `none` is its failure result, and the
first argument of `encrypt` the random initialization vector. -/
structure Cipher where
  encrypt : Str → Str → Option Str
  decrypt : Str → Option Str

structure KvClient (σ : Type) where
  backend : KvBackend σ
  /-- `none` in a build without `ENCRYPTION_ENABLED`. -/
  cipher : Option Cipher

namespace KvClient

variable {σ : Type}

def gdprGet (client : KvClient σ) (key : Str) (s : σ) : Option Str × σ :=
  match client.cipher with
  | none => client.backend.get key s
  | some c =>
      ((client.backend.get key s).1.bind c.decrypt,
        (client.backend.get key s).2)

def gdprPut (client : KvClient σ) (iv key value : Str) (s : σ) : Bool × σ :=
  match client.cipher with
  | none => client.backend.put key value s
  | some c =>
      match c.encrypt iv value with
      | some ciphertext => client.backend.put key ciphertext s
      | none => (false, s)

def gdprDel (client : KvClient σ) (key : Str) (s : σ) : Bool × σ :=
  client.backend.del key s

def gdprGetm (client : KvClient σ) (key : Str) (s : σ) : Option Str × σ :=
  match client.cipher with
  | none => client.backend.getm key s
  | some c =>
      ((client.backend.getm key s).1.bind c.decrypt,
        (client.backend.getm key s).2)

/-- With encryption the metadata operation uses the backend's `put`. -/
def gdprPutm (client : KvClient σ) (iv key value : Str) (s : σ) : Bool × σ :=
  match client.cipher with
  | none => client.backend.putm key value s
  | some c =>
      match c.encrypt iv value with
      | some ciphertext => client.backend.put key ciphertext s
      | none => (false, s)

/-- Reading leaves the database alone and sees `view` of it. -/
structure Reads (client : KvClient σ) (view : σ → Str → Option Str) : Prop where
  get : ∀ key s, client.gdprGet key s = (view s key, s)
  getm : ∀ key s, client.gdprGetm key s = (view s key, s)

end KvClient

/-! ## Correct key-value maps -/

/-- The contents of a key-value map. -/
abbrev Store := Str → Option Str

/-- A database that is a key-value map; `delAbsent` is its answer to the
deletion of an absent key. -/
def mapBackend (delAbsent : Bool) : KvBackend Store where
  get key s := (s key, s)
  put key value s := (true, Function.update s key (some value))
  del key s := (if (s key).isSome then true else delAbsent,
    Function.update s key none)
  getm key s := (s key, s)
  putm key value s := (true, Function.update s key (some value))

/-- A client of a correct key-value map. -/
def mapClient (delAbsent : Bool) (cipher : Option Cipher) : KvClient Store :=
  ⟨mapBackend delAbsent, cipher⟩

namespace KvClient

/-- The record a client reads at a key. -/
def lookup (cipher : Option Cipher) (s : Store) (key : Str) : Option Str :=
  match cipher with
  | none => s key
  | some c => (s key).bind c.decrypt

variable (delAbsent : Bool) (cipher : Option Cipher)

@[simp] theorem gdprGet_mapClient (key : Str) (s : Store) :
    (mapClient delAbsent cipher).gdprGet key s = (lookup cipher s key, s) := by
  cases cipher <;> rfl

@[simp] theorem gdprGetm_mapClient (key : Str) (s : Store) :
    (mapClient delAbsent cipher).gdprGetm key s = (lookup cipher s key, s) := by
  cases cipher <;> rfl

theorem reads_mapClient :
    (mapClient delAbsent cipher).Reads (lookup cipher) :=
  ⟨gdprGet_mapClient delAbsent cipher, gdprGetm_mapClient delAbsent cipher⟩

/-- Storing a record changes its own key at most. -/
theorem gdprPut_mapClient_of_ne (iv key value : Str) (s : Store) {other : Str}
    (h : other ≠ key) :
    ((mapClient delAbsent cipher).gdprPut iv key value s).2 other = s other := by
  cases cipher with
  | none => exact Function.update_of_ne h _ _
  | some c =>
      simp only [gdprPut, mapClient]
      cases c.encrypt iv value with
      | none => rfl
      | some ciphertext => exact Function.update_of_ne h _ _

theorem gdprPutm_mapClient (iv key value : Str) (s : Store) :
    (mapClient delAbsent cipher).gdprPutm iv key value s =
      (mapClient delAbsent cipher).gdprPut iv key value s := by
  cases cipher <;> rfl

theorem gdprDel_mapClient (key : Str) (s : Store) :
    (mapClient delAbsent cipher).gdprDel key s =
      (if (s key).isSome then true else delAbsent, Function.update s key none) :=
  rfl

@[simp] theorem gdprPut_plain (iv key value : Str) (s : Store) :
    (mapClient delAbsent none).gdprPut iv key value s =
      (true, Function.update s key (some value)) := rfl

/-- With encryption the ciphertext is stored. -/
theorem gdprPut_cipher {c : Cipher} {iv value ciphertext : Str}
    (hEncrypt : c.encrypt iv value = some ciphertext) (key : Str) (s : Store) :
    (mapClient delAbsent (some c)).gdprPut iv key value s =
      (true, Function.update s key (some ciphertext)) := by
  simp only [gdprPut, mapClient, hEncrypt]
  rfl

@[simp] theorem lookup_plain (s : Store) (key : Str) :
    lookup none s key = s key := rfl

end KvClient

end GDPRuler.Controller
