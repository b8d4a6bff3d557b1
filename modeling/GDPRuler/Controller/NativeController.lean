import GDPRuler.Verified.Atomic
import GDPRuler.Controller.MapClient
import GDPRuler.Controller.ReadYourWrites
import GDPRuler.Controller.WellFormed

/-!
# The native controller

`native_controller.cpp` is the same server without data protection: a get, a
put or a deletion is one call of the database client, and every other command
is invalid.  It is what the controller is measured against.

A request of it is a single call, so its connections, each with a thread of its
own, share a key-value map however their requests overlap, and encryption
cannot be seen (`linearizable_map`).  The controller with data protection has
no such order in general (`GDPRuler.Controller.Races`).

What the data protection costs users who need none is nothing but the text of
one reply: requests that are made by the user of their key, under a policy that
permits them, are answered alike by both controllers (`transparent`).

## Main results

* `linearizable_map` — overlapping requests act on a key-value map;
* `transparent` — both controllers answer users of their own keys alike.
-/

namespace GDPRuler.Controller.NativeController

open GDPRuler.Verified GDPRuler.Verified.Transition
open GDPRuler.Verified.Interleave

/-! ## The handlers -/

/-- The calls of the database client. -/
inductive Call
  | gdprGet (key : Str)
  | gdprPut (key value : Str)
  | gdprDel (key : Str)

abbrev Call.Res : Call → Type
  | gdprGet _ => Option Str
  | gdprPut _ _ => Bool
  | gdprDel _ => Bool

abbrev Handler := Prog Call Call.Res Exn Str

/-- One call of a handler. -/
abbrev perform (call : Call) : Prog Call Call.Res Exn call.Res :=
  Prog.perform call

def handleGet (q : Query) : Handler := do
  let retVal : Option Str ← perform (.gdprGet q.key)
  match retVal with
  | some value => return value
  | none => return GET_FAILED

def handlePut (q : Query) : Handler := do
  let success : Bool ← perform (.gdprPut q.key q.value)
  if success then return PUT_SUCCESS else return PUT_FAILED

def handleDelete (q : Query) : Handler := do
  let success : Bool ← perform (.gdprDel q.key)
  if success then return DELETE_SUCCESS else return DELETE_FAILED

/-- The response to a query, as the connection loop picks the handler; `exit`
never gets here. -/
def respond (q : Query) : Handler :=
  if q.cmd = lit "invalid" then return INVALID_COMMAND
  else if q.cmd = lit "get" then handleGet q
  else if q.cmd = lit "put" then handlePut q
  else if q.cmd = lit "delete" then handleDelete q
  else return INVALID_COMMAND

/-- A call with the random vector of its encryption. -/
def exec {σ : Type} (client : KvClient σ) (iv : Str) :
    (call : Call) → σ → call.Res × σ
  | .gdprGet key, s => client.gdprGet key s
  | .gdprPut key value, s => client.gdprPut iv key value s
  | .gdprDel key, s => client.gdprDel key s

/-! ## Commands -/

/-- What a query asks of the database. -/
inductive Command
  | get | put | delete | invalid
  deriving DecidableEq

def Command.ofText (cmd : Str) : Command :=
  if cmd = lit "invalid" then invalid
  else if cmd = lit "get" then get
  else if cmd = lit "put" then put
  else if cmd = lit "delete" then delete
  else invalid

/-- The text of a command; an invalid one has many. -/
def Command.text : Command → Str
  | get => lit "get"
  | put => lit "put"
  | delete => lit "delete"
  | invalid => lit "invalid"

theorem Command.text_of_ofText {cmd : Str} {command : Command}
    (h : ofText cmd = command) (hValid : command ≠ .invalid) :
    cmd = command.text := by
  unfold ofText at h
  split at h
  · exact absurd h.symm hValid
  split at h
  case isTrue hCmd => cases h; exact hCmd
  split at h
  case isTrue hCmd => cases h; exact hCmd
  split at h
  case isTrue hCmd => cases h; exact hCmd
  exact absurd h.symm hValid

/-- The response, command by command. -/
def Command.respond (q : Query) : Command → Handler
  | get => .call (.gdprGet q.key) fun res =>
      .ofExcept (.ok (res.getD GET_FAILED))
  | put => .call (.gdprPut q.key q.value) fun success =>
      .ofExcept (.ok (if success then PUT_SUCCESS else PUT_FAILED))
  | delete => .call (.gdprDel q.key) fun success =>
      .ofExcept (.ok (if success then DELETE_SUCCESS else DELETE_FAILED))
  | invalid => .ofExcept (.ok INVALID_COMMAND)

/-- The handlers respond as their commands do. -/
theorem respond_eq (q : Query) :
    respond q = (Command.ofText q.cmd).respond q := by
  unfold respond Command.ofText
  split
  · rfl
  split
  · show Prog.call _ _ = Prog.call _ _
    congr 1
    funext res
    cases res <;> rfl
  split
  · show Prog.call _ _ = Prog.call _ _
    congr 1
    funext success
    cases success <;> rfl
  split
  · show Prog.call _ _ = Prog.call _ _
    congr 1
    funext success
    cases success <;> rfl
  · rfl

/-- A request is one call at most. -/
theorem single_respond (q : Query) : (respond q).Single := by
  rw [respond_eq]
  cases Command.ofText q.cmd with
  | get => exact .call _ _
  | put => exact .call _ _
  | delete => exact .call _ _
  | invalid => exact .ended (.ok INVALID_COMMAND)

/-! ## The map behind it -/

/-- A query with the random vector its encryption meets. -/
structure Asked where
  query : Query
  iv : Str

/-- The handlers over a database, one request per connection at a time. -/
def served {σ : Type} (client : KvClient σ) :
    System Asked Call Call.Res Exn Str σ where
  body req := respond req.query
  exec req := exec client req.iv

/-- A key-value map that answers queries; `delAbsent` is its answer to the
deletion of an absent key. -/
def onMap (delAbsent : Bool) (q : Query) (t : Store) : Str × Store :=
  match Command.ofText q.cmd with
  | .get => ((t q.key).getD GET_FAILED, t)
  | .put => (PUT_SUCCESS, Function.update t q.key (some q.value))
  | .delete =>
      (if (t q.key).isSome || delAbsent then DELETE_SUCCESS else DELETE_FAILED,
        Function.update t q.key none)
  | .invalid => (INVALID_COMMAND, t)

section Map

variable {delAbsent : Bool} {cipher : Option Cipher}

/-- `t` is what a client reads in `s`, and nothing in `s` is unreadable. -/
def Holds (cipher : Option Cipher) (s t : Store) : Prop :=
  ∀ key, KvClient.lookup cipher s key = t key ∧
    (s key).isSome = (t key).isSome

/-- The value of a request can be stored. -/
def Asked.Storable (cipher : Option Cipher) (req : Asked) : Prop :=
  Controller.Storable cipher req.iv req.query.value

theorem Holds.update {s t : Store} (h : Holds cipher s t) (key : Str)
    {stored value : Option Str}
    (hLookup : KvClient.lookup cipher (fun _ => stored) key = value)
    (hSome : stored.isSome = value.isSome) :
    Holds cipher (Function.update s key stored)
      (Function.update t key value) := by
  intro other
  rw [lookup_update]
  by_cases hKey : other = key
  · subst hKey
    rw [if_pos rfl, Function.update_self, Function.update_self]
    exact ⟨hLookup, hSome⟩
  · rw [if_neg hKey, Function.update_of_ne hKey, Function.update_of_ne hKey]
    exact h other

variable (delAbsent) in
/-- **One request** of the native controller is one of the map. -/
theorem holds_run (hRecovers : Recovers cipher) {req : Asked}
    (hReq : req.Storable cipher) {s t : Store} (h : Holds cipher s t) :
    ((respond req.query).run (exec (mapClient delAbsent cipher) req.iv) s).1 =
        .ok (onMap delAbsent req.query t).1 ∧
      Holds cipher
        ((respond req.query).run (exec (mapClient delAbsent cipher) req.iv) s).2
        (onMap delAbsent req.query t).2 := by
  obtain ⟨q, iv⟩ := req
  rw [respond_eq, onMap]
  cases Command.ofText q.cmd with
  | invalid => exact ⟨rfl, h⟩
  | get =>
      have hKey := (h q.key).1
      simp only [Command.respond, Prog.run_call, exec,
        KvClient.gdprGet_mapClient, hKey]
      exact ⟨rfl, h⟩
  | delete =>
      have hKey := (h q.key).2
      simp only [Command.respond, Prog.run_call, exec,
        KvClient.gdprDel_mapClient, hKey]
      refine ⟨?_, h.update q.key (by cases cipher <;> rfl) rfl⟩
      cases (t q.key).isSome <;> rfl
  | put =>
      obtain ⟨stored, hPut, hLookup⟩ := hRecovers.put delAbsent hReq q.key s
      simp only [Command.respond, Prog.run_call, exec, hPut]
      exact ⟨rfl, h.update q.key hLookup rfl⟩

/-- **The native controller is a key-value map.** However the requests of any
number of connections overlap, some order of them that keeps to real time
explains all replies and the store as those of a map without encryption. -/
theorem linearizable_map (hRecovers : Recovers cipher) {s t : Store}
    (hInit : Holds cipher s t) {queues : Nat → List Asked}
    (hQueues : ∀ i, ∀ req ∈ queues i, req.Storable cipher)
    {schedule : List Nat}
    {c : Config Asked Call Call.Res Exn Str Store}
    (hRun : run (step (served (mapClient delAbsent cipher))) schedule
      (Config.init s queues) = some c)
    (hFinished : c.Finished) :
    ∃ order : List (Done Asked Exn Str), order.Perm c.done ∧
      order.Pairwise (fun a b => ¬ b.stop < a.start) ∧
      order.map Done.outcome = (Simulation.outputs (onMap delAbsent)
        (order.map fun d => d.req.query) t).1.map .ok ∧
      Holds cipher c.shared (Simulation.outputs (onMap delAbsent)
        (order.map fun d => d.req.query) t).2 :=
  explained_of_single (S := served (mapClient delAbsent cipher))
    (fun req => single_respond req.query) Asked.query (onMap delAbsent)
    (fun _ _ _ hReq h => holds_run delAbsent hRecovers hReq h) hInit hQueues
    hRun hFinished

/-- A put of `v` at `k` and a get of it, on two connections. -/
def putAndGet : Nat → List Asked
  | 0 => [⟨{ cmd := lit "put", key := lit "k", value := lit "v" }, []⟩]
  | 1 => [⟨{ cmd := lit "get", key := lit "k" }, []⟩]
  | _ => []

/-- `linearizable_map` at a put and a get that overlap. -/
theorem linearizable_put_get :
    ∃ c : Config Asked Call Call.Res Exn Str Store,
      run (step (served (mapClient true none))) [0, 1, 1, 0, 0, 1]
        (Config.init (fun _ => none) putAndGet) = some c ∧
      ∃ order : List (Done Asked Exn Str), order.Perm c.done ∧
        order.Pairwise (fun a b => ¬ b.stop < a.start) ∧
        order.map Done.outcome = (Simulation.outputs (onMap true)
          (order.map fun d => d.req.query) fun _ => none).1.map .ok ∧
        Holds none c.shared (Simulation.outputs (onMap true)
          (order.map fun d => d.req.query) fun _ => none).2 := by
  have hSome : (run (step (served (mapClient true none))) [0, 1, 1, 0, 0, 1]
      (Config.init (fun _ => none) putAndGet)).isSome = true := by
    decide +kernel
  obtain ⟨c, hRun⟩ := Option.isSome_iff_exists.mp hSome
  have hFinished := finished_of_idle hRun (by decide) (fun _ => rfl)
    (by decide +kernel)
  exact ⟨c, hRun, linearizable_map recovers_none (fun _ => ⟨rfl, rfl⟩)
    (fun _ _ _ => storable_none _ _) hRun hFinished⟩

end Map

/-! ## Users of their own keys -/

/-- One query, served by the native controller. -/
def serve {σ : Type} (client : KvClient σ) (req : Request) (s : σ) :
    Except Exn Str × σ :=
  (respond req.query).run (exec client req.readings.iv) s

/-- Queries one after another. -/
def serveAll {σ : Type} (client : KvClient σ) :
    List Request → σ → List (Except Exn Str) × σ :=
  Simulation.outputs (serve client)

/-- The policy of a user lets it do with a record what it likes. -/
structure Permits (p : DefaultPolicy) (m : Metadata) : Prop where
  clean : m.Clean
  user : m.userKey = p.userKey
  purposes : m.purpose &&& p.purpose = p.purpose
  objections : m.objection &&& p.purpose = 0
  unlimited : m.expiration = 0

/-- A request by the user of its key, as `policyOf` has it: for a value, a new
value or a deletion, in the user's own name and for the purposes of its policy;
a record it creates is its own. -/
structure Compliant (policyOf : Str → DefaultPolicy) (req : Request) : Prop where
  command : Command.ofText req.query.cmd ≠ .invalid
  policy : req.policy = policyOf req.query.key
  user : req.query.userKey = none
  purpose : req.query.condPurpose = 0
  creates : Command.ofText req.query.cmd = .put →
    Permits req.policy (QueryRewriter.insertMetadata req.query req.policy
      req.readings.rewriteTime) ∧ req.query.value ≠ [] ∧
        bar ∉ req.query.value

/-- `s` holds the values of `t`, each in a record of its key's user. -/
def Wraps (policyOf : Str → DefaultPolicy) (s t : Store) : Prop :=
  ∀ key, ∃ o : Option Record, s key = o.map Record.encode ∧
    t key = o.map Record.value ∧
    ∀ rec ∈ o, Permits (policyOf key) rec.metadata ∧ rec.value ≠ [] ∧
      bar ∉ rec.value

/-- The reply of the controller, and that of the native one: they differ when
an absent key is to be deleted, if at all. -/
def Alike (delAbsent : Bool) (req : Request) (guarded native : Except Exn Str) :
    Prop :=
  guarded = native ∨
    (Command.ofText req.query.cmd = .delete ∧ guarded = .ok deleteRefused ∧
      native = .ok (if delAbsent then DELETE_SUCCESS else DELETE_FAILED))

theorem serve_plain (delAbsent : Bool) (req : Request) (t : Store) :
    serve (mapClient delAbsent none) req t =
      (.ok (onMap delAbsent req.query t).1, (onMap delAbsent req.query t).2) := by
  have hSame : ∀ s t : Store, Holds none s t ↔ s = t := by
    intro s t
    constructor
    · exact fun h => funext fun key => (h key).1
    · rintro rfl key
      exact ⟨rfl, rfl⟩
  have hReq : Asked.Storable none ⟨req.query, req.readings.iv⟩ :=
    storable_none _ _
  obtain ⟨hReply, hStore⟩ :=
    holds_run delAbsent recovers_none hReq ((hSame t t).mpr rfl)
  exact Prod.ext hReply ((hSame _ _).mp hStore)

/-- A permitted user passes the filter. -/
theorem Permits.permits {m : Metadata} {req : Request}
    (h : Permits req.policy m) (hUser : req.query.userKey = none)
    (hPurpose : req.query.condPurpose = 0) : m.permits req = true := by
  simp [Metadata.permits, GdprFilter.validate, GdprFilter.validateSessionKey,
    GdprFilter.validatePur, GdprFilter.validateObj, GdprFilter.validateExpTime,
    hUser, hPurpose, h.user, h.purposes, h.objections, h.unlimited]

theorem Wraps.update {policyOf : Str → DefaultPolicy} {s t : Store}
    (h : Wraps policyOf s t) (key : Str) {o : Option Record}
    (hRec : ∀ rec ∈ o, Permits (policyOf key) rec.metadata ∧
      rec.value ≠ [] ∧ bar ∉ rec.value) :
    Wraps policyOf (Function.update s key (o.map Record.encode))
      (Function.update t key (o.map Record.value)) := by
  intro other
  by_cases hKey : other = key
  · subst hKey
    exact ⟨o, by rw [Function.update_self], by rw [Function.update_self], hRec⟩
  · rw [Function.update_of_ne hKey, Function.update_of_ne hKey]
    exact h other

/-- **One request of a key's user** is answered alike by both controllers. -/
theorem wraps_serve (delAbsent : Bool) (log : LogConfig)
    {policyOf : Str → DefaultPolicy} {req : Request}
    (hReq : Compliant policyOf req) {w : World Store} {t : Store}
    (h : Wraps policyOf w.kv t) :
    (∃ reply, (World.serve (mapEnv delAbsent none log) req w).1 = .ok reply) ∧
      Alike delAbsent req (World.serve (mapEnv delAbsent none log) req w).1
        (serve (mapClient delAbsent none) req t).1 ∧
      Wraps policyOf (World.serve (mapEnv delAbsent none log) req w).2.kv
        (serve (mapClient delAbsent none) req t).2 := by
  obtain ⟨o, hStore, hMap, hRec⟩ := h req.query.key
  have hClean : ∀ rec ∈ o, rec.metadata.Clean :=
    fun rec hMem => (hRec rec hMem).1.clean
  have hPermits : ∀ rec ∈ o, rec.metadata.permits req = true := by
    intro rec hMem
    refine Permits.permits ?_ hReq.user hReq.purpose
    rw [hReq.policy]
    exact (hRec rec hMem).1
  have hServe : ∀ {c : KeyCommand}, KeyCommand.ofText req.query.cmd = some c →
      (World.serve (mapEnv delAbsent none log) req w).1 =
          .ok (Record.serve c req o).1 ∧
        (World.serve (mapEnv delAbsent none log) req w).2.kv =
          Function.update w.kv req.query.key
            ((Record.serve c req o).2.map Record.encode) :=
    fun hCommand => serve_record delAbsent log hCommand hClean hStore
  have hSame : Function.update t req.query.key (o.map Record.value) = t := by
    rw [← hMap, Function.update_eq_self]
  rw [serve_plain]
  cases hCmd : Command.ofText req.query.cmd with
  | invalid => exact absurd hCmd hReq.command
  | get =>
      have hText := Command.text_of_ofText hCmd (by decide)
      obtain ⟨hReply, hKv⟩ := hServe (c := .get) (by rw [hText]; decide)
      rw [hReply, hKv]
      have hNative : onMap delAbsent req.query t =
          ((t req.query.key).getD GET_FAILED, t) := by
        rw [onMap, hCmd]
      rw [hNative, hMap, ← hSame]
      cases o with
      | none => exact ⟨⟨_, rfl⟩, .inl rfl, h.update _ hRec⟩
      | some rec =>
          obtain ⟨-, hNonempty, hBar⟩ := hRec rec rfl
          simp only [Record.serve, hPermits rec rfl, if_true]
          refine ⟨⟨_, rfl⟩, .inl ?_, h.update _ hRec⟩
          rw [Record.encode,
            rec.metadata.removeGdprMetadata_encode hBar hNonempty]
          rfl
  | put =>
      have hText := Command.text_of_ofText hCmd (by decide)
      obtain ⟨hReply, hKv⟩ := hServe (c := .put) (by rw [hText]; decide)
      obtain ⟨hNew, hNonempty, hBar⟩ := hReq.creates hCmd
      rw [hReq.policy] at hNew
      have hNative : onMap delAbsent req.query t = (PUT_SUCCESS,
          Function.update t req.query.key (some req.query.value)) := by
        rw [onMap, hCmd]
      rw [hReply, hKv, hNative]
      cases o with
      | none =>
          refine ⟨⟨_, rfl⟩, .inl rfl, ?_⟩
          refine h.update req.query.key (o := some ⟨_, _⟩) fun rec hMem => ?_
          rw [← Option.mem_some.mp hMem]
          rw [← hReq.policy] at hNew ⊢
          exact ⟨hNew, hNonempty, hBar⟩
      | some rec =>
          obtain ⟨hRec, -, hOld⟩ := hRec rec rfl
          simp only [Record.serve, hPermits rec rfl, if_true,
            QueryRewriter.updateValue_eq_self hOld]
          refine ⟨⟨_, rfl⟩, .inl rfl, ?_⟩
          refine h.update req.query.key (o := some ⟨_, _⟩) fun rec' hMem => ?_
          rw [← Option.mem_some.mp hMem]
          exact ⟨hRec, hNonempty, hBar⟩
  | delete =>
      have hText := Command.text_of_ofText hCmd (by decide)
      obtain ⟨hReply, hKv⟩ := hServe (c := .delete) (by rw [hText]; decide)
      have hNative : onMap delAbsent req.query t =
          (if (t req.query.key).isSome || delAbsent then DELETE_SUCCESS
            else DELETE_FAILED, Function.update t req.query.key none) := by
        rw [onMap, hCmd]
      have hGone : Wraps policyOf (Function.update w.kv req.query.key none)
          (Function.update t req.query.key none) :=
        h.update req.query.key (o := none) fun rec hMem =>
          (Option.not_mem_none rec hMem).elim
      rw [hReply, hKv, hNative, hMap]
      cases o with
      | none => exact ⟨⟨_, rfl⟩, .inr ⟨hCmd, rfl, rfl⟩, hGone⟩
      | some rec =>
          simp only [Record.serve, hPermits rec rfl, if_true]
          exact ⟨⟨_, rfl⟩, .inl rfl, hGone⟩

/-- **Users of their own keys** cannot tell the controllers apart but by the
deletion of an absent key: over any sequence of their requests both answer
alike, and the values stored are the same. -/
theorem transparent (delAbsent : Bool) (log : LogConfig)
    {policyOf : Str → DefaultPolicy} {reqs : List Request}
    (hReqs : ∀ req ∈ reqs, Compliant policyOf req) {w : World Store} {t : Store}
    (h : Wraps policyOf w.kv t) :
    (∀ (i : Nat) req, reqs[i]? = some req → ∃ guarded native,
      (World.serveAll (mapEnv delAbsent none log) reqs w).1[i]? =
          some guarded ∧
        (serveAll (mapClient delAbsent none) reqs t).1[i]? = some native ∧
        Alike delAbsent req guarded native) ∧
      Wraps policyOf (World.serveAll (mapEnv delAbsent none log) reqs w).2.kv
        (serveAll (mapClient delAbsent none) reqs t).2 := by
  induction reqs generalizing w t with
  | nil =>
      refine ⟨fun i req hReq => ?_, h⟩
      rw [List.getElem?_nil] at hReq
      cases hReq
  | cons req reqs ih =>
      obtain ⟨hHere, hLater⟩ := List.forall_mem_cons.mp hReqs
      obtain ⟨⟨reply, hReply⟩, hAlike, hNext⟩ := wraps_serve delAbsent log hHere h
      obtain ⟨hRest, hEnd⟩ := ih hLater hNext
      have hAll : World.serveAll (mapEnv delAbsent none log) (req :: reqs) w =
          (.ok reply :: (World.serveAll (mapEnv delAbsent none log) reqs
              (World.serve (mapEnv delAbsent none log) req w).2).1,
            (World.serveAll (mapEnv delAbsent none log) reqs
              (World.serve (mapEnv delAbsent none log) req w).2).2) := by
        rw [World.serveAll]
        generalize World.serve (mapEnv delAbsent none log) req w = served
          at hReply
        obtain ⟨outcome, w'⟩ := served
        subst hReply
        rfl
      rw [hAll]
      refine ⟨fun i r hGet => ?_, hEnd⟩
      cases i with
      | zero =>
          obtain rfl : req = r := Option.some.inj hGet
          exact ⟨_, _, congrArg some hReply.symm, rfl, hReply ▸ hAlike⟩
      | succ i => exact hRest i r hGet

/-- `transparent` at alice's put of `v` at `k` and her get of it. -/
theorem transparent_alice :
    (∀ (i : Nat) req, [alicePut (lit "v"), aliceGet][i]? = some req →
      ∃ guarded native,
        (World.serveAll (mapEnv true none ⟨lit "logs", none⟩)
          [alicePut (lit "v"), aliceGet] ⟨fun _ => none, []⟩).1[i]? =
            some guarded ∧
          (serveAll (mapClient true none) [alicePut (lit "v"), aliceGet]
            fun _ => none).1[i]? = some native ∧
          Alike true req guarded native) ∧
      Wraps (fun _ => alicePolicy)
        (World.serveAll (mapEnv true none ⟨lit "logs", none⟩)
          [alicePut (lit "v"), aliceGet] ⟨fun _ => none, []⟩).2.kv
        (serveAll (mapClient true none) [alicePut (lit "v"), aliceGet]
          fun _ => none).2 := by
  refine transparent true ⟨lit "logs", none⟩ ?_ ?_
  · intro req hMem
    rcases List.mem_pair.mp hMem with rfl | rfl
    · refine ⟨by decide, rfl, rfl, rfl, fun _ => ⟨?_, by decide, by decide⟩⟩
      exact ⟨⟨by decide, by decide, by decide⟩, rfl, by decide, by decide, rfl⟩
    · refine ⟨by decide, rfl, rfl, rfl, fun hPut => ?_⟩
      exact absurd hPut (by decide)
  · exact fun key => ⟨none, rfl, rfl, fun rec hMem => nomatch hMem⟩

end GDPRuler.Controller.NativeController
