import GDPRuler.Verified.Transition
import GDPRuler.Controller.Plans

/-!
# Well-formed records

As long as nobody writes a separator into a free string, the store holds
encoded records only, and the controller acts on them as `Record.serve` acts
on their metadata and value parts (`serve_record`).  The value part is
whatever the clients put there; separators in it never reach the metadata.

From this follows what whole runs keep (`wellFormed_run`): no request raises,
and every record decodes to the metadata its writers supplied.  The condition
is on the strings about to be written, and it is exact: a record with a
separator in a free string never decodes as supplied (`ofValue_encode_iff`).

## Main results

* `serve_record` — a keyed request on an encoded record or an absent key;
* `wellFormed_run` — every run of requests with separator-free strings.
-/

namespace GDPRuler.Controller

open GDPRuler.Verified GDPRuler.Verified.Transition

/-! ## The controller on decoded records -/

/-- The filter's verdict on decoded metadata. -/
def Metadata.permits (m : Metadata) (req : Request) : Bool :=
  ({ m with valid := true } : GdprFilter).validate req.query req.policy
    req.readings.validateTime

/-- A command on the record of its key: the reply, and the record left. -/
def Record.serve (c : KeyCommand) (req : Request) :
    Option Record → Str × Option Record
  | none =>
      if c = .put then
        (PUT_SUCCESS,
          some ⟨QueryRewriter.insertMetadata req.query req.policy
            req.readings.rewriteTime, req.query.value⟩)
      else (c.absent, none)
  | some rec =>
      if rec.metadata.permits req then
        match c with
        | .get => (removeGdprMetadata rec.encode, some rec)
        | .put => (PUT_SUCCESS,
            some { rec with
              value := QueryRewriter.updateValue rec.value req.query.value })
        | .delete => (DELETE_SUCCESS, none)
        | .getm => (preserveOnlyGdprMetadata rec.encode, some rec)
        | .putm => (PUTM_SUCCESS,
            some ⟨QueryRewriter.putmMetadata rec.metadata req.query
                req.readings.rewriteTime,
              QueryRewriter.putmValue rec.value⟩)
      else (c.refused, some rec)

section Serve

variable (delAbsent : Bool) (log : LogConfig)

theorem serve_absent {c : KeyCommand} {req : Request}
    (hCommand : KeyCommand.ofText req.query.cmd = some c) {w : World Store}
    (hKv : w.kv req.query.key = none) :
    (World.serve (mapEnv delAbsent none log) req w).1 =
        .ok (Record.serve c req none).1 ∧
      (World.serve (mapEnv delAbsent none log) req w).2.kv =
        Function.update w.kv req.query.key
          ((Record.serve c req none).2.map Record.encode) := by
  have hSame : Function.update w.kv req.query.key none = w.kv := by
    rw [← hKv, Function.update_eq_self]
  rw [World.serve_keyed delAbsent none log hCommand, KvClient.lookup_plain, hKv]
  cases c with
  | put =>
      refine ⟨rfl, ?_⟩
      simp only [plan, absentPlan, World.carryOut, Plan.kv, Write.apply,
        KvClient.gdprPut_plain, Record.serve, if_true, Option.map_some,
        Record.encode, QueryRewriter.insert_eq]
  | _ => exact ⟨rfl, hSame.symm⟩

theorem serve_present {c : KeyCommand} {req : Request}
    (hCommand : KeyCommand.ofText req.query.cmd = some c) {w : World Store}
    {rec : Record} (hClean : rec.metadata.Clean)
    (hKv : w.kv req.query.key = some rec.encode) :
    (World.serve (mapEnv delAbsent none log) req w).1 =
        .ok (Record.serve c req (some rec)).1 ∧
      (World.serve (mapEnv delAbsent none log) req w).2.kv =
        Function.update w.kv req.query.key
          ((Record.serve c req (some rec)).2.map Record.encode) := by
  have hValue : GdprFilter.ofValue (some rec.encode) =
      .ok { rec.metadata with valid := true } :=
    GdprFilter.ofValue_encode hClean rec.value
  have hSame : Function.update w.kv req.query.key (some rec.encode) = w.kv := by
    rw [← hKv, Function.update_eq_self]
  rw [World.serve_keyed delAbsent none log hCommand, KvClient.lookup_plain, hKv]
  cases hPermits : rec.metadata.permits req with
  | false =>
      rw [plan_denied hValue hPermits]
      simp only [Record.serve, hPermits, Bool.false_eq_true, if_false]
      exact ⟨rfl, hSame.symm⟩
  | true =>
      rw [plan_granted hValue hPermits]
      simp only [Record.serve, hPermits, if_true]
      cases c with
      | get => exact ⟨rfl, hSame.symm⟩
      | getm => exact ⟨rfl, hSame.symm⟩
      | put =>
          refine ⟨rfl, ?_⟩
          simp only [grantedPlan, World.carryOut, Plan.kv, Write.apply,
            KvClient.gdprPut_plain, Option.map_some, Record.encode,
            QueryRewriter.update_encode]
      | delete =>
          have hSome : (w.kv req.query.key).isSome = true := by rw [hKv]; rfl
          refine ⟨?_, rfl⟩
          simp only [grantedPlan, World.carryOut, Plan.outcome, Write.apply,
            KvClient.gdprDel_mapClient, hSome, if_true]
      | putm =>
          have hPutm := QueryRewriter.putm_encode hClean rec.value req.query
            req.readings.rewriteTime
          rw [← Record.encode] at hPutm
          simp only [grantedPlan, hPutm, bind, Except.bind, pure, Except.pure,
            World.carryOut, Plan.outcome, Plan.kv, Write.apply,
            KvClient.gdprPutm_mapClient, KvClient.gdprPut_plain, if_true,
            Option.map_some]
          exact ⟨trivial, rfl⟩

/-- **A keyed request on an encoded record** or on an absent key. -/
theorem serve_record {c : KeyCommand} {req : Request}
    (hCommand : KeyCommand.ofText req.query.cmd = some c) {w : World Store}
    {o : Option Record} (hClean : ∀ rec ∈ o, rec.metadata.Clean)
    (hKv : w.kv req.query.key = o.map Record.encode) :
    (World.serve (mapEnv delAbsent none log) req w).1 =
        .ok (Record.serve c req o).1 ∧
      (World.serve (mapEnv delAbsent none log) req w).2.kv =
        Function.update w.kv req.query.key
          ((Record.serve c req o).2.map Record.encode) := by
  cases o with
  | none => exact serve_absent delAbsent log hCommand hKv
  | some rec =>
      exact serve_present delAbsent log hCommand (hClean rec rfl) hKv

end Serve

/-! ## What the requests supply -/

/-- The metadata a command leaves its key with, whatever the values are. -/
def Metadata.after (c : KeyCommand) (req : Request) :
    Option Metadata → Option Metadata
  | none =>
      if c = .put then
        some (QueryRewriter.insertMetadata req.query req.policy
          req.readings.rewriteTime)
      else none
  | some m =>
      if m.permits req then
        match c with
        | .delete => none
        | .putm => some (QueryRewriter.putmMetadata m req.query
            req.readings.rewriteTime)
        | _ => some m
      else some m

theorem map_metadata_serve (c : KeyCommand) (req : Request)
    (o : Option Record) :
    (Record.serve c req o).2.map Record.metadata =
      Metadata.after c req (o.map Record.metadata) := by
  cases o with
  | none => cases c <;> rfl
  | some rec =>
      simp only [Record.serve, Metadata.after, Option.map_some]
      split
      · cases c <;> rfl
      · rfl

/-- The strings a command is about to write hold no separator: those of a
record it creates, and those a granted metadata update supplies. -/
structure WritesClean (c : KeyCommand) (req : Request) (o : Option Metadata) :
    Prop where
  creates : c = .put → o = none →
    QueryRewriter.InsertClean req.query req.policy
  supplies : c = .putm → ∀ m ∈ o, m.permits req = true →
    QueryRewriter.SuppliedClean req.query

/-- Clean writers leave clean metadata. -/
theorem WritesClean.after {c : KeyCommand} {req : Request}
    {o : Option Metadata} (h : WritesClean c req o)
    (hClean : ∀ m ∈ o, m.Clean) : ∀ m ∈ Metadata.after c req o, m.Clean := by
  cases o with
  | none =>
      intro m hm
      simp only [Metadata.after] at hm
      split at hm
      · rename_i hPut
        rw [Option.mem_some] at hm
        exact hm ▸ (h.creates hPut rfl).metadata _
      · cases hm
  | some m₀ =>
      intro m hm
      simp only [Metadata.after] at hm
      split at hm
      · rename_i hPermits
        cases c with
        | delete => cases hm
        | putm =>
            simp only [Option.mem_some] at hm
            exact hm ▸ (h.supplies rfl m₀ rfl hPermits).metadata
              (hClean m₀ rfl) _
        | _ => exact hClean m hm
      · exact hClean m hm

/-! ## Runs -/

/-- The world, and the metadata the requests so far supplied for each key. -/
structure Tracked where
  world : World Store
  supplied : Str → Option Metadata

namespace Tracked

/-- An empty store. -/
def empty (logs : LogFiles) : Tracked := ⟨⟨fun _ => none, logs⟩, fun _ => none⟩

/-- Serve one request; an exception stops the controller. -/
def step (env : Environment Store) (s : Tracked) (req : KeyedRequest) :
    Option Tracked :=
  match World.serve env req.toRequest s.world with
  | (.error _, _) => none
  | (.ok _, w) => some ⟨w, Function.update s.supplied req.query.key
      (Metadata.after req.command req.toRequest
        (s.supplied req.query.key))⟩

/-- Every record is decoded, and as supplied. -/
def Decodes (s : Tracked) : Prop :=
  ∀ key,
    (s.world.kv key = none → s.supplied key = none) ∧
    ∀ value, s.world.kv key = some value →
      ∃ m, s.supplied key = some m ∧
        GdprFilter.ofValue (some value) = .ok { m with valid := true }

/-- A request whose writes are clean. -/
def CleanStep (s : Tracked) (req : KeyedRequest) : Prop :=
  WritesClean req.command req.toRequest (s.supplied req.query.key)

/-- Every key holds an encoded record with the supplied, clean metadata. -/
def WellFormed (s : Tracked) : Prop :=
  ∀ key, ∃ o : Option Record,
    s.world.kv key = o.map Record.encode ∧
    s.supplied key = o.map Record.metadata ∧
    ∀ rec ∈ o, rec.metadata.Clean

theorem first_wellFormed (logs : LogFiles) : (empty logs).WellFormed :=
  fun _ => ⟨none, rfl, rfl, fun _ h => by cases h⟩

theorem WellFormed.decodes {s : Tracked} (h : s.WellFormed) : s.Decodes := by
  intro key
  obtain ⟨o, hKv, hSupplied, hClean⟩ := h key
  cases o with
  | none =>
      refine ⟨fun _ => hSupplied, fun value hValue => ?_⟩
      rw [hKv] at hValue
      cases hValue
  | some rec =>
      rw [hKv]
      refine ⟨fun hNone => absurd hNone (by simp), fun value hValue => ?_⟩
      obtain rfl : rec.encode = value := Option.some.inj hValue
      exact ⟨rec.metadata, hSupplied,
        GdprFilter.ofValue_encode (hClean rec rfl) rec.value⟩

variable (delAbsent : Bool) (log : LogConfig)

/-- A clean request goes through and keeps the store well-formed. -/
theorem WellFormed.step {s : Tracked} (h : s.WellFormed) {req : KeyedRequest}
    (hClean : s.CleanStep req) :
    ∃ s', step (mapEnv delAbsent none log) s req = some s' ∧
      s'.WellFormed := by
  obtain ⟨o, hKv, hSupplied, hRecords⟩ := h req.query.key
  obtain ⟨hOutcome, hStore⟩ :=
    serve_record delAbsent log req.isCommand hRecords hKv
  refine ⟨⟨(World.serve (mapEnv delAbsent none log) req.toRequest s.world).2,
    Function.update s.supplied req.query.key
      (Metadata.after req.command req.toRequest
        (s.supplied req.query.key))⟩, ?_, ?_⟩
  · cases hServe : World.serve (mapEnv delAbsent none log) req.toRequest
        s.world with
    | mk outcome w =>
        rw [hServe] at hOutcome
        obtain rfl :
          outcome = .ok (Record.serve req.command req.toRequest o).1 := hOutcome
        simp only [Tracked.step, hServe]
  · intro key
    simp only [hStore]
    by_cases hKey : key = req.query.key
    · subst hKey
      refine ⟨(Record.serve req.command req.toRequest o).2,
        Function.update_self .., ?_, ?_⟩
      · rw [Function.update_self, hSupplied, map_metadata_serve]
      · intro rec hRec
        have hBefore : ∀ m ∈ s.supplied req.query.key, m.Clean := by
          rw [hSupplied]
          intro m hm
          obtain ⟨rec, hMem, rfl⟩ := Option.map_eq_some_iff.mp hm
          exact hRecords rec hMem
        refine WritesClean.after hClean hBefore rec.metadata ?_
        rw [hSupplied, ← map_metadata_serve]
        exact Option.mem_map_of_mem _ hRec
    · rw [Function.update_of_ne hKey, Function.update_of_ne hKey]
      exact h key

/-- **Well-formed runs.** From an empty store, a run of keyed requests that
write no separator into a free string raises nothing, and every record it
leaves is decoded as its writers supplied it. -/
theorem wellFormed_run (logs : LogFiles) {reqs : List KeyedRequest}
    (hClean : AllSteps (step (mapEnv delAbsent none log)) CleanStep reqs
      (empty logs)) :
    ∃ s, run (step (mapEnv delAbsent none log)) reqs (empty logs) = some s ∧
      s.Decodes := by
  obtain ⟨s, hRun, hInv⟩ := run_progress
    (fun s req hInv hHere => WellFormed.step delAbsent log hInv hHere) hClean
    (first_wellFormed logs)
  exact ⟨s, hRun, hInv.decodes⟩

/-- A put whose session key holds a separator is acknowledged; the next get of
the key raises, since `home` stands where the expiration is looked for. -/
theorem separator_in_session_key_raises :
    ∃ (put get : Query),
      Query.ofText
        (lit "query(PUT(\"k\",\"VAL\"))&sessionKey(\"alice|1\")") = .ok put ∧
      Query.ofText (lit "query(GET(\"k\"))") = .ok get ∧
      (World.serveAll (mapEnv true none ⟨lit "logs", none⟩)
        [⟨put, alicePolicy, Readings.constant 0⟩,
          ⟨get, alicePolicy, Readings.constant 0⟩] ⟨fun _ => none, []⟩).1 =
        [.ok PUT_SUCCESS, .error (.invalidArgument (lit "stoll"))] := by
  refine ⟨{ cmd := lit "put", key := lit "k", value := lit "VAL",
            userKey := some (lit "alice|1") },
    { cmd := lit "get", key := lit "k" }, ?_, ?_, ?_⟩ <;> decide +kernel

/-- `wellFormed_run` at a put and a get. -/
theorem wellFormed_put_get :
    ∃ s, run (step (mapEnv true none ⟨lit "logs", none⟩))
        [⟨⟨{ cmd := lit "put", key := lit "k", value := lit "a|b" },
            alicePolicy, Readings.constant 0⟩, .put, by decide⟩,
          ⟨⟨{ cmd := lit "get", key := lit "k" }, alicePolicy,
            Readings.constant 0⟩, .get, by decide⟩] (empty []) = some s ∧
      s.Decodes := by
  refine wellFormed_run true ⟨lit "logs", none⟩ [] ⟨?_, fun s _ => ⟨?_, ?_⟩⟩
  · refine ⟨fun _ _ => ?_, fun hPutm => nomatch hPutm⟩
    exact ⟨by decide, by decide, by decide⟩
  · exact ⟨fun hPut => (nomatch hPut), fun hPutm => (nomatch hPutm)⟩
  · exact fun _ _ => trivial

end Tracked

end GDPRuler.Controller
