import GDPRuler.Controller.WellFormed

/-!
# The controller as a typed store

What the controller is for, without strings: a map from keys to typed
records.  A put on an absent key creates a record from the query's fields, the
default policy standing in for what it leaves open; a put on a present key
replaces the value; a metadata update replaces the fields supplied; a get
returns the value and a metadata get the encoded metadata.

Requests and records whose strings hold no separator are types of their own
here, so the abstract controller cannot leave them.  For such requests the
controller over `'|'`-joined strings gives the same replies and, decoded, the
same store, over runs of any length (`serveAll_encode`).
-/

namespace GDPRuler.Controller

/-! ## Typed records and clean requests -/

/-- A record that its text determines. -/
structure TypedRecord where
  metadata : Metadata
  value : Str
  clean : metadata.Clean
  noBar : bar ∉ value
  nonempty : value ≠ []

/-- A request on a key whose session key, origin, share list and value hold no
separator, and whose value, if it is a put, is not empty. -/
structure CleanRequest extends KeyedRequest where
  effective : QueryRewriter.InsertClean query policy
  supplied : QueryRewriter.SuppliedClean query
  noBar : bar ∉ query.value
  nonempty : command = .put → query.value ≠ []

abbrev TypedStore := Str → Option TypedRecord

namespace TypedRecord

/-- The record a first put creates. -/
def create (req : CleanRequest) (h : req.command = .put) : TypedRecord where
  metadata :=
    { userKey := req.query.userKey.getD req.policy.userKey
      encryption := req.policy.encryption
      purpose := req.query.purpose.getD req.policy.purpose
      objection := req.query.objection.getD req.policy.objection
      origin := req.query.origin.getD req.policy.origin
      expiration := getExpirationTime req.readings.rewriteTime
        (req.query.expiration.getD req.policy.expiration)
      share := req.query.share.getD req.policy.share
      monitor := req.query.monitor.getD req.policy.monitor }
  value := req.query.value
  clean := req.effective.metadata req.readings.rewriteTime
  noBar := req.noBar
  nonempty := req.nonempty h

/-- The record with the value of a put. -/
def withValue (rec : TypedRecord) (req : CleanRequest)
    (h : req.command = .put) : TypedRecord where
  metadata := rec.metadata
  value := req.query.value
  clean := rec.clean
  noBar := req.noBar
  nonempty := req.nonempty h

/-- The record with the fields the query supplies. -/
def withFields (rec : TypedRecord) (req : CleanRequest) : TypedRecord where
  metadata :=
    { userKey := req.query.userKey.getD rec.metadata.userKey
      encryption := rec.metadata.encryption
      purpose := req.query.purpose.getD rec.metadata.purpose
      objection := req.query.objection.getD rec.metadata.objection
      origin := req.query.origin.getD rec.metadata.origin
      expiration := (req.query.expiration.map
        (getExpirationTime req.readings.rewriteTime)).getD
          rec.metadata.expiration
      share := req.query.share.getD rec.metadata.share
      monitor := req.query.monitor.getD rec.metadata.monitor }
  value := rec.value
  clean := req.supplied.metadata rec.clean req.readings.rewriteTime
  noBar := rec.noBar
  nonempty := rec.nonempty

/-- A granted request on a typed record. -/
def serveGranted (rec : TypedRecord) (req : CleanRequest) :
    (c : KeyCommand) → req.command = c → Str × Option TypedRecord
  | .get, _ => (rec.value, some rec)
  | .put, h => (PUT_SUCCESS, some (rec.withValue req h))
  | .delete, _ => (DELETE_SUCCESS, none)
  | .getm, _ => (rec.metadata.encode [], some rec)
  | .putm, _ => (PUTM_SUCCESS, some (rec.withFields req))

/-- A request on an absent key. -/
def serveAbsent (req : CleanRequest) :
    (c : KeyCommand) → req.command = c → Str × Option TypedRecord
  | .put, h => (PUT_SUCCESS, some (create req h))
  | c, _ => (c.absent, none)

/-- A request on the typed record of its key. -/
def serve (req : CleanRequest) : Option TypedRecord → Str × Option TypedRecord
  | none => serveAbsent req req.command rfl
  | some rec =>
      if rec.metadata.permits req.toRequest then
        rec.serveGranted req req.command rfl
      else (req.command.refused, some rec)

def toRecord (rec : TypedRecord) : Record := ⟨rec.metadata, rec.value⟩

end TypedRecord

namespace TypedStore

/-- The text of every record. -/
def encode (T : TypedStore) : Store :=
  fun key => (T key).map fun rec => rec.toRecord.encode

theorem encode_apply (T : TypedStore) (key : Str) :
    T.encode key = (T key).map fun rec => rec.toRecord.encode := rfl

/-- The abstract controller: one request after another. -/
def serveAll : List CleanRequest → TypedStore → List Str × TypedStore
  | [], T => ([], T)
  | req :: reqs, T =>
      let served := TypedRecord.serve req (T req.query.key)
      let rest := serveAll reqs (Function.update T req.query.key served.2)
      (served.1 :: rest.1, rest.2)

/-! ## Refinement -/

private theorem record_serve_absent (req : CleanRequest) (c : KeyCommand)
    (h : req.command = c) :
    Record.serve c req.toRequest none =
      ((TypedRecord.serveAbsent req c h).1,
        (TypedRecord.serveAbsent req c h).2.map TypedRecord.toRecord) := by
  cases c <;> rfl

private theorem record_serve_granted (rec : TypedRecord) (req : CleanRequest)
    (hPermits : rec.metadata.permits req.toRequest = true) (c : KeyCommand)
    (h : req.command = c) :
    Record.serve c req.toRequest (some rec.toRecord) =
      ((rec.serveGranted req c h).1,
        (rec.serveGranted req c h).2.map TypedRecord.toRecord) := by
  have hPermits' : rec.toRecord.metadata.permits req.toRequest = true :=
    hPermits
  simp only [Record.serve, hPermits', if_true]
  cases c with
  | get =>
      have hGet := rec.metadata.removeGdprMetadata_encode rec.noBar rec.nonempty
      exact congrArg (fun reply => (reply, some rec.toRecord)) hGet
  | put =>
      have hPut := QueryRewriter.updateValue_eq_self rec.noBar req.query.value
      exact congrArg
        (fun value => (PUT_SUCCESS, some (Record.mk rec.metadata value))) hPut
  | delete => rfl
  | getm =>
      have hGetm := rec.metadata.preserveOnlyGdprMetadata_encode rec.noBar
      exact congrArg (fun reply => (reply, some rec.toRecord)) hGetm
  | putm =>
      have hPutm := QueryRewriter.putmValue_eq_self rec.noBar
      exact congrArg
        (fun value => (PUTM_SUCCESS, some (Record.mk (QueryRewriter.putmMetadata
          rec.metadata req.query req.readings.rewriteTime) value))) hPutm

/-- On a typed record the decoded controller is the typed one. -/
theorem record_serve_toRecord (req : CleanRequest) (o : Option TypedRecord) :
    Record.serve req.command req.toRequest (o.map TypedRecord.toRecord) =
      ((TypedRecord.serve req o).1,
        (TypedRecord.serve req o).2.map TypedRecord.toRecord) := by
  cases o with
  | none => exact record_serve_absent req _ rfl
  | some rec =>
      cases hPermits : rec.metadata.permits req.toRequest with
      | false =>
          simp only [TypedRecord.serve, Option.map_some, Record.serve,
            TypedRecord.toRecord, hPermits, Bool.false_eq_true, if_false]
      | true =>
          simp only [TypedRecord.serve, hPermits, if_true]
          exact record_serve_granted rec req hPermits _ rfl

/-- Decoded, a store is the typed one: the same keys, and under each the
metadata the filter finds and the value without them. -/
def Represents (s : Store) (T : TypedStore) : Prop :=
  ∀ key, (s key = none ↔ T key = none) ∧
    ∀ value rec, s key = some value → T key = some rec →
      GdprFilter.ofValue (some value) =
          .ok { rec.metadata with valid := true } ∧
        removeGdprMetadata value = rec.value

theorem represents_encode (T : TypedStore) : Represents T.encode T := by
  intro key
  refine ⟨by rw [encode_apply, Option.map_eq_none_iff], ?_⟩
  intro value rec hValue hRec
  rw [encode_apply, hRec] at hValue
  obtain rfl : rec.toRecord.encode = value := Option.some.inj hValue
  exact ⟨GdprFilter.ofValue_encode rec.clean rec.value,
    rec.metadata.removeGdprMetadata_encode rec.noBar rec.nonempty⟩

variable (delAbsent : Bool) (log : LogConfig)

/-- One request on an encoded typed store. -/
theorem serve_encode (req : CleanRequest) (T : TypedStore) (logs : LogFiles) :
    (World.serve (mapEnv delAbsent none log) req.toRequest
        ⟨T.encode, logs⟩).1 =
        .ok (TypedRecord.serve req (T req.query.key)).1 ∧
      (World.serve (mapEnv delAbsent none log) req.toRequest
        ⟨T.encode, logs⟩).2.kv =
        encode (Function.update T req.query.key
          (TypedRecord.serve req (T req.query.key)).2) := by
  have hClean : ∀ rec ∈ (T req.query.key).map TypedRecord.toRecord,
      rec.metadata.Clean := by
    intro rec hRec
    obtain ⟨typed, _, rfl⟩ := Option.map_eq_some_iff.mp hRec
    exact typed.clean
  have hKv : T.encode req.query.key =
      ((T req.query.key).map TypedRecord.toRecord).map Record.encode := by
    rw [Option.map_map]
    rfl
  obtain ⟨hReply, hStore⟩ := serve_record delAbsent log (w := ⟨T.encode, logs⟩)
    req.isCommand hClean hKv
  rw [record_serve_toRecord] at hReply hStore
  refine ⟨hReply, ?_⟩
  rw [hStore]
  funext key
  by_cases hKey : key = req.query.key
  · subst hKey
    rw [Function.update_self, encode_apply, Function.update_self,
      Option.map_map]
    rfl
  · rw [Function.update_of_ne hKey, encode_apply, Function.update_of_ne hKey]
    rfl

private theorem serveAll_eq_encode (reqs : List CleanRequest)
    (T : TypedStore) (logs : LogFiles) :
    (World.serveAll (mapEnv delAbsent none log)
        (reqs.map fun req => req.toRequest) ⟨T.encode, logs⟩).1 =
        (T.serveAll reqs).1.map Except.ok ∧
      (World.serveAll (mapEnv delAbsent none log)
        (reqs.map fun req => req.toRequest) ⟨T.encode, logs⟩).2.kv =
        (T.serveAll reqs).2.encode := by
  induction reqs generalizing T logs with
  | nil => exact ⟨rfl, rfl⟩
  | cons req reqs ih =>
      obtain ⟨hReply, hStore⟩ := serve_encode delAbsent log req T logs
      cases hServe : World.serve (mapEnv delAbsent none log) req.toRequest
          ⟨T.encode, logs⟩ with
      | mk outcome w =>
          rw [hServe] at hReply hStore
          obtain rfl : outcome = .ok _ := hReply
          obtain ⟨hReplies, hRest⟩ := ih (Function.update T req.query.key
            (TypedRecord.serve req (T req.query.key)).2) w.logs
          rw [← hStore] at hReplies hRest
          rw [List.map_cons, World.serveAll, hServe]
          exact ⟨congrArg (List.cons _) hReplies, hRest⟩

/-- **The controller refines the typed store.** Any sequence of clean requests
gets the replies of the abstract controller, and what it leaves is, decoded,
the store of the abstract controller. -/
theorem serveAll_encode (reqs : List CleanRequest) (T : TypedStore)
    (logs : LogFiles) :
    (World.serveAll (mapEnv delAbsent none log)
        (reqs.map fun req => req.toRequest) ⟨T.encode, logs⟩).1 =
        (T.serveAll reqs).1.map Except.ok ∧
      Represents (World.serveAll (mapEnv delAbsent none log)
        (reqs.map fun req => req.toRequest) ⟨T.encode, logs⟩).2.kv
        (T.serveAll reqs).2 := by
  obtain ⟨hReplies, hStore⟩ := serveAll_eq_encode delAbsent log reqs T logs
  rw [hStore]
  exact ⟨hReplies, represents_encode _⟩

end TypedStore

end GDPRuler.Controller
