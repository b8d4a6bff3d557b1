import GDPRuler.Verified.Transport
import GDPRuler.Controller.Connection
import GDPRuler.Controller.NativeController
import GDPRuler.Controller.Overlaps
import Mathlib.Algebra.BigOperators.Ring.Finset

/-!
# Clients on the wire

`client.py` plays a workload: its lines, the placeholder `VAL` replaced by a
value of the size asked for, are dealt out to a number of clients, each with a
connection of its own.  A client sends its policy, if it has one, and waits for
`ACK`; then it sends one query after another, each when the reply to the one
before has come as a whole, and last of all `query(exit)`.  It reads a reply in
whatever pieces the socket delivers it (`safe_receive`).

The controllers serve such clients as `GDPRuler.Verified.Transport` says, each
connection by a thread.

## Main results

* `workload_served` — a workload against the native controller is a sequence of
  its queries on a key-value map, whatever the number of clients, their speed
  and the pieces the replies arrive in;
* `workload_completes` — every run of it ends, and with all the replies;
* `shown_on_wire` — what the clients of the controller are sent was granted by
  a record;
* `audited_on_wire` — what they asked for is in the logs.
-/

namespace GDPRuler.Controller

open GDPRuler.Verified GDPRuler.Verified.Transition
open GDPRuler.Verified.Interleave GDPRuler.Verified.Transport

/-! ## The workload -/

/-- `query.replace(old, new)` of a nonempty `old`; `skip` symbols belong to an
occurrence that was replaced. -/
def replaceAll (old new : Str) : Nat → Str → Str
  | _, [] => []
  | skip + 1, _ :: s => replaceAll old new skip s
  | 0, c :: s =>
      if old.isPrefixOf (c :: s) then
        new ++ replaceAll old new (old.length - 1) s
      else c :: replaceAll old new 0 s

def generateValue (size : Nat) : Str := List.replicate size 120

def processQuery (query value : Str) : Str :=
  replaceAll (lit "VAL") value 0 query

def preprocessQueries (queries : List Str) (valueSize : Nat) : List Str :=
  queries.map fun query => processQuery query (generateValue valueSize)

/-- `queries[i::clients]` -/
def stride {α : Type} (i clients : Nat) (queries : List α) : List α :=
  (queries.zipIdx.filter fun p => i ≤ p.2 ∧ (p.2 - i) % clients = 0).map
    Prod.fst

/-- The queries of each client. -/
def queriesPerClient (clients : Nat) (queries : List Str) (i : Nat) : List Str :=
  if i < clients then stride i clients queries else []

/-- Every query goes to one client. -/
theorem perm_stride {α : Type} {clients : Nat} (hClients : 0 < clients)
    (queries : List α) :
    ((List.range clients).flatMap fun i => stride i clients queries).Perm
      queries := by
  have hDealt : ∀ dealt : List (α × Nat),
      ((List.range clients).flatMap fun i =>
        dealt.filter fun p => p.2 % clients = i).Perm dealt := by
    intro dealt
    induction dealt with
    | nil => simp
    | cons p dealt ih =>
        have hTurn : p.2 % clients < clients := Nat.mod_lt _ hClients
        refine (perm_flatMap_of_perm List.nodup_range
          (List.mem_range.mpr hTurn) [p] ?_ fun j hj => ?_).trans
            ((ih.append_right [p]).trans List.perm_append_comm)
        · rw [List.filter_cons, if_pos (decide_eq_true rfl)]
          exact @List.perm_append_comm _ [p] _
        · rw [List.filter_cons, if_neg]
          simpa using fun hSame => hj hSame.symm
  have hTurns : ∀ i ∈ List.range clients, stride i clients queries =
      (queries.zipIdx.filter fun p => p.2 % clients = i).map Prod.fst := by
    intro i hi
    have hLt := List.mem_range.mp hi
    rw [stride]
    congr 1
    refine List.filter_congr fun p _ => ?_
    rw [decide_eq_decide]
    constructor
    · rintro ⟨hLe, hTurn⟩
      obtain ⟨k, hk⟩ := Nat.dvd_of_mod_eq_zero hTurn
      rw [show p.2 = i + clients * k by omega, Nat.add_mul_mod_self_left,
        Nat.mod_eq_of_lt hLt]
    · rintro rfl
      exact ⟨Nat.mod_le _ _,
        Nat.sub_mod_eq_zero_of_mod_eq (Nat.mod_mod _ _).symm⟩
  rw [List.flatMap_congr hTurns, ← List.map_flatMap]
  refine (hDealt queries.zipIdx |>.map Prod.fst).trans ?_
  rw [List.zipIdx_map_fst]

/-! ## The native controller -/

/-- The last message of a client. -/
def exitQuery : Str := lit "query(exit)\n"

/-- A query the controllers understand, with room for the terminator, that does
not end the conversation. -/
structure Understood (text : Str) (q : Query) : Prop where
  nonempty : text ≠ []
  fits : text.length < maxMsgSize
  parsed : Query.ofText (cString text) = .ok q
  goesOn : q.cmd ≠ lit "exit"

/-- What `substr` returns is no longer than the text. -/
theorem length_substr {s out : Str} {pos n : Nat}
    (h : substr s pos n = .ok out) : out.length ≤ s.length := by
  unfold substr at h
  split at h
  · cases h
  · cases h
    rw [List.length_take, List.length_drop]
    omega

theorem Query.length_extractValue {query value : Str}
    (h : extractValue query = .ok value) : value.length ≤ query.length := by
  simp only [extractValue] at h
  split at h
  · cases h
    exact Nat.zero_le _
  · exact length_substr h

private theorem bind_ok {α β : Type} {x : Except Exn α} {f : α → Except Exn β}
    {b : β} (h : x >>= f = .ok b) : ∃ a, x = .ok a ∧ f a = .ok b := by
  cases x with
  | error e => cases h
  | ok a => exact ⟨a, rfl, h⟩

/-- A query that is parsed has the value of `q`. -/
private def KeepsValue (q : Query) (parsed : Except Exn Query) : Prop :=
  ∀ q', parsed = .ok q' → q'.value = q.value

private theorem keepsValue_ite {q : Query} {p : Prop} [Decidable p]
    {x y : Except Exn Query} (hx : KeepsValue q x) (hy : KeepsValue q y) :
    KeepsValue q (if p then x else y) := by
  split
  · exact hx
  · exact hy

private theorem keepsValue_ok {q q' : Query} (h : q'.value = q.value) :
    KeepsValue q (.ok q') := by
  rintro q'' hOk
  cases hOk
  exact h

private theorem keepsValue_bind {q : Query} {α : Type} {x : Except Exn α}
    {f : α → Except Exn Query} (hf : ∀ a, KeepsValue q (f a)) :
    KeepsValue q (x >>= f) := by
  intro q' hBind
  obtain ⟨a, -, hNext⟩ := bind_ok hBind
  exact hf a q' hNext

/-- An option leaves the value alone. -/
theorem Query.value_parseOption {q q' : Query} {option value : Str}
    (h : parseOption q option value = .ok q') : q'.value = q.value := by
  refine (show KeepsValue q (parseOption q option value) from ?_) q' h
  unfold parseOption
  repeat' refine keepsValue_ite ?_ ?_
  all_goals first
    | exact keepsValue_ok rfl
    | exact keepsValue_bind fun _ => keepsValue_ok rfl
    | exact fun q' hError => nomatch hError

theorem Query.length_parseQuery {q q' : Query} {args : Str} {n : Nat}
    (hOld : q.value.length ≤ n) (hArgs : args.length ≤ n)
    (h : parseQuery q args = .ok q') : q'.value.length ≤ n := by
  unfold parseQuery at h
  split at h
  · obtain ⟨logKey, -, h⟩ := bind_ok h
    cases h
    exact hOld
  split at h
  · obtain ⟨value, hValue, h⟩ := bind_ok h
    obtain ⟨key, -, h⟩ := bind_ok h
    cases h
    exact Nat.le_trans (length_extractValue hValue) hArgs
  · obtain ⟨key, -, h⟩ := bind_ok h
    cases h
    exact hOld

/-- A predicate leaves the value alone or takes it from its own text. -/
theorem Query.length_processPredicate {q q' : Query} {predicate : Str} {n : Nat}
    (hOld : q.value.length ≤ n) (hPredicate : predicate.length ≤ n)
    (h : processPredicate q predicate = .ok q') : q'.value.length ≤ n := by
  obtain ⟨attr, -, h⟩ := bind_ok h
  obtain ⟨val, hVal, h⟩ := bind_ok h
  have hShort : val.length ≤ n := Nat.le_trans (length_substr hVal) hPredicate
  split at h
  · obtain ⟨cmd, -, h⟩ := bind_ok h
    simp only at h
    split at h
    · cases h
      exact hOld
    · refine length_parseQuery ?_ hShort h
      exact hOld
  · obtain ⟨argument, -, h⟩ := bind_ok h
    rw [value_parseOption h]
    exact hOld

/-- A value is no longer than the message it came in. -/
theorem Query.length_value {text : Str} {q : Query} (h : ofText text = .ok q) :
    q.value.length ≤ text.length := by
  have hFold : ∀ (predicates : List Str) (q₀ : Query),
      (∀ predicate ∈ predicates, predicate.length ≤ text.length) →
      q₀.value.length ≤ text.length →
      predicates.foldlM processPredicate q₀ = .ok q →
      q.value.length ≤ text.length := by
    intro predicates
    induction predicates with
    | nil =>
        rintro q₀ - hStart hFold
        cases hFold
        exact hStart
    | cons predicate predicates ih =>
        intro q₀ hAll hStart hFold
        obtain ⟨hHere, hLater⟩ := List.forall_mem_cons.mp hAll
        rw [List.foldlM_cons] at hFold
        cases hNext : processPredicate q₀ predicate with
        | error e =>
            rw [hNext] at hFold
            cases hFold
        | ok q₁ =>
            rw [hNext] at hFold
            exact ih q₁ hLater (length_processPredicate hStart hHere hNext) hFold
  exact hFold _ {} (fun predicate hMem => Delim.length_le_of_mem_tokens hMem)
    (Nat.zero_le _) h

/-- The query of a text. -/
def queryOf (text : Str) : Query :=
  match Query.ofText (cString text) with
  | .ok q => q
  | .error _ => {}

theorem Understood.eq {text : Str} {q : Query} (h : Understood text q) :
    q = queryOf text := by
  rw [queryOf, h.parsed]

/-- A value is no longer than its message. -/
theorem Understood.length_value {text : Str} {q : Query}
    (h : Understood text q) : (queryOf text).value.length ≤ maxMsgSize := by
  have hLength := Query.length_value h.parsed
  rw [h.eq] at hLength
  have hShort : (cString text).length ≤ text.length :=
    (List.takeWhile_sublist _).length_le
  exact Nat.le_trans hLength (Nat.le_trans hShort h.fits.le)

namespace NativeController

/-- The threads of the native controller; a session is the random vectors that
are still to come. -/
def service {σ : Type} (client : KvClient σ) :
    Service Asked Call Call.Res Exn UInt8 (Nat → Str) σ where
  header := networkHeader
  width_pos := by decide
  maxSize := maxMsgSize
  maxSize_lt := by decide
  react ivs text :=
    match Query.ofText (cString text) with
    | .error _ => .raise
    | .ok q =>
        if q.cmd = lit "exit" then .leave
        else .serve ⟨q, ivs 0⟩ fun turn => ivs (turn + 1)
  system := served client

/-- Clients of the native controller, which takes no policy. -/
def network (s : Store) (texts : Nat → List Str) (ivs : Nat → Nat → Str) :
    Net Asked Call Call.Res Exn UInt8 (Nat → Str) Store :=
  Net.init s (fun i => (texts i).map .query) (fun _ => exitQuery) ivs

section Service

variable {delAbsent : Bool} {cipher : Option Cipher}

theorem react_understood {text : Str} {q : Query} (h : Understood text q)
    (ivs : Nat → Str) :
    (service (mapClient delAbsent cipher)).react ivs text =
      .serve ⟨queryOf text, ivs 0⟩ fun turn => ivs (turn + 1) := by
  rw [← h.eq]
  simp only [service, h.parsed, if_neg h.goesOn]

theorem scripted {texts : List Str}
    (hTexts : ∀ text ∈ texts, ∃ q, Understood text q) (ivs : Nat → Str) :
    Scripted (service (mapClient delAbsent cipher)) exitQuery ivs
      (texts.map .query) := by
  induction texts generalizing ivs with
  | nil =>
      refine .ends ivs ?_ (by decide)
        (show exitQuery.length ≤ maxMsgSize by decide)
      have hExit : Query.ofText (cString exitQuery) =
          .ok { cmd := lit "exit" } := by
        decide +kernel
      simp only [service, hExit, if_true]
  | cons text texts ih =>
      obtain ⟨⟨q, h⟩, hLater⟩ := List.forall_mem_cons.mp hTexts
      exact .query (react_understood h ivs) h.nonempty h.fits.le (ih hLater _)

variable (delAbsent cipher) in
/-- The requests are the queries. -/
theorem requests_query {texts : List Str}
    (hTexts : ∀ text ∈ texts, ∃ q, Understood text q) (ivs : Nat → Str) :
    ((service (mapClient delAbsent cipher)).requests ivs
      (texts.map .query)).map Asked.query = texts.map queryOf := by
  induction texts generalizing ivs with
  | nil => rfl
  | cons text texts ih =>
      obtain ⟨⟨q, h⟩, hLater⟩ := List.forall_mem_cons.mp hTexts
      rw [List.map_cons, Service.requests, Message.text, react_understood h,
        List.map_cons, List.map_cons, ih hLater]

/-- A request as it comes in a message: its value is no longer, and with
encryption its vector is whole. -/
structure Asked.Sent (cipher : Option Cipher) (req : Asked) : Prop where
  iv : ∀ c ∈ cipher, req.iv.length = initializationVectorLen
  value : req.query.value.length ≤ maxMsgSize

theorem Asked.Sent.storable {req : Asked} (h : req.Sent cipher) {value : Str}
    (hValue : value.length ≤ maxMsgSize) :
    Controller.Storable cipher req.iv value := by
  refine fun c hCipher => ⟨h.iv c hCipher, Nat.lt_of_le_of_lt hValue ?_⟩
  show 4096 < 2 ^ 31
  decide

theorem sent_of_requests {texts : List Str}
    (hTexts : ∀ text ∈ texts, ∃ q, Understood text q) {ivs : Nat → Str}
    (hIvs : ∀ c ∈ cipher, ∀ turn, (ivs turn).length = initializationVectorLen) :
    ∀ req ∈ (service (mapClient delAbsent cipher)).requests ivs
      (texts.map .query), req.Sent cipher := by
  induction texts generalizing ivs with
  | nil => exact fun _ hMem => nomatch hMem
  | cons text texts ih =>
      obtain ⟨⟨q, h⟩, hLater⟩ := List.forall_mem_cons.mp hTexts
      rw [List.map_cons, Service.requests, Message.text, react_understood h]
      refine List.forall_mem_cons.mpr ⟨⟨fun c hCipher => hIvs c hCipher 0,
        h.length_value⟩, ih hLater fun c hCipher turn => ?_⟩
      exact hIvs c hCipher (turn + 1)

/-- A client that has sent everything and waits for nothing. -/
def Idle (c : Sender UInt8) : Prop :=
  c.outbox = [] ∧ ∀ asked got, c.phase ≠ .awaiting asked got

theorem stage_idle {Req Op : Type} {Res : Op → Type} {ε Sess σ : Type}
    {S : Service Req Op Res ε UInt8 Sess σ} {ℓ : Transport.Link Req Op Res ε UInt8 Sess}
    {a : Interleave.Client Req Op Res ε Str} {answered : List (Done Req ε Str)}
    (h : Transport.Stage S ℓ a answered) (hIdle : Idle ℓ.sender) :
    a = ⟨[], none⟩ ∧ Told answered ℓ.sender.replies := by
  obtain ⟨hEmpty, hWaits⟩ := hIdle
  cases h with
  | ready hScript hTold =>
      obtain rfl := hEmpty
      exact ⟨rfl, hTold⟩
  | leaving hScript hTold => exact ⟨rfl, hTold⟩
  | leavingSized hScript hTold => exact ⟨rfl, hTold⟩
  | left hTold => exact ⟨rfl, hTold⟩
  | _ => exact absurd rfl (hWaits _ _)

/-- **Texts on the wire.** Whatever the clients' speed and the pieces in which
replies arrive: once every client has all its replies, these are the replies of
a key-value map to all the queries in some order that keeps to real time, and
each client received those to its own queries, in order. -/
theorem texts_served (hRecovers : Recovers cipher) {s t : Store}
    (hInit : Holds cipher s t) {texts : Nat → List Str} {m : Nat}
    (hClients : ∀ i, m ≤ i → texts i = [])
    (hTexts : ∀ i, ∀ text ∈ texts i, ∃ q, Understood text q)
    {ivs : Nat → Nat → Str} (hIvs : ∀ c ∈ cipher, ∀ i turn,
      (ivs i turn).length = initializationVectorLen)
    {acts : List Transport.Act}
    {n : Net Asked Call Call.Res Exn UInt8 (Nat → Str) Store}
    (hRun : run (Transport.step (service (mapClient delAbsent cipher))) acts
      (network s texts ivs) = some n)
    (hIdle : ∀ i, Idle (n.links i).sender) :
    ∃ (order : List (Done Asked Exn Str)) (mine : Nat → List (Done Asked Exn Str)),
      order.Perm ((List.range m).flatMap mine) ∧
      order.Pairwise (fun a b => ¬ b.stop < a.start) ∧
      order.map Done.outcome = (Simulation.outputs (onMap delAbsent)
        (order.map fun d => d.req.query) t).1.map .ok ∧
      Holds cipher n.shared (Simulation.outputs (onMap delAbsent)
        (order.map fun d => d.req.query) t).2 ∧
      ∀ i, (mine i).Pairwise (fun a b => a.stop < b.start) ∧
        (mine i).map (fun d => d.req.query) = (texts i).map queryOf ∧
        (mine i).map Done.outcome = (n.links i).sender.replies.map .ok := by
  obtain ⟨schedule, c, answered, hInterleaved, h, -⟩ :=
    exists_related (service (mapClient delAbsent cipher)) s
      (fun i => scripted (hTexts i) (ivs i)) hRun
  have hDone : ∀ i, c.clients i = ⟨[], none⟩ ∧
      Told (answered i) (n.links i).sender.replies :=
    fun i => stage_idle (h.stage i) (hIdle i)
  have hQueries : ∀ i, (answered i).map (fun d => d.req.query) =
      (texts i).map queryOf := by
    intro i
    have hAccount := h.account i
    rw [(hDone i).1, Option.map_none, Option.toList_none, List.append_nil,
      List.append_nil] at hAccount
    have hAll := requests_query delAbsent cipher (hTexts i) (ivs i)
    rwa [← hAccount, List.map_map] at hAll
  have hNone : ∀ i, m ≤ i → answered i = [] := by
    intro i hi
    have hEmpty := hQueries i
    rw [hClients i hi] at hEmpty
    exact List.map_eq_nil_iff.mp hEmpty
  obtain ⟨order, hPerm, hReal, hOut, hEnd⟩ := explained_of_single
    (S := served (mapClient delAbsent cipher))
    (fun req => single_respond req.query) Asked.query (onMap delAbsent)
    (fun _ _ _ hReq h => holds_run delAbsent hRecovers hReq h) hInit
    (fun i req hMem => by
      have hSent := sent_of_requests (hTexts i)
        (fun c hCipher => hIvs c hCipher i) req hMem
      exact hSent.storable hSent.value)
    hInterleaved fun i => (hDone i).1
  exact ⟨order, answered, hPerm.trans (h.all m hNone), hReal, hOut,
    h.shared ▸ hEnd, fun i => ⟨h.order i, hQueries i, (hDone i).2⟩⟩

/-- The queries of a client are some of all. -/
theorem mem_of_mem_queriesPerClient {clients i : Nat} {queries : List Str}
    {text : Str} (hMem : text ∈ queriesPerClient clients queries i) :
    text ∈ queries := by
  rw [queriesPerClient] at hMem
  split at hMem
  · obtain ⟨p, hDealt, rfl⟩ := List.mem_map.mp hMem
    exact List.fst_mem_of_mem_zipIdx (List.mem_of_mem_filter hDealt)
  · cases hMem

/-- **A workload** played against the native controller by any number of clients
is a sequence of exactly its queries on a key-value map. -/
theorem workload_served (hRecovers : Recovers cipher) {s t : Store}
    (hInit : Holds cipher s t) {clients : Nat} (hClients : 0 < clients) {queries : List Str}
    {valueSize : Nat}
    (hQueries : ∀ text ∈ preprocessQueries queries valueSize,
      ∃ q, Understood text q)
    {ivs : Nat → Nat → Str} (hIvs : ∀ c ∈ cipher, ∀ i turn,
      (ivs i turn).length = initializationVectorLen)
    {acts : List Transport.Act}
    {n : Net Asked Call Call.Res Exn UInt8 (Nat → Str) Store}
    (hRun : run (Transport.step (service (mapClient delAbsent cipher))) acts
      (network s (queriesPerClient clients
        (preprocessQueries queries valueSize)) ivs) = some n)
    (hIdle : ∀ i, Idle (n.links i).sender) :
    ∃ (order : List (Done Asked Exn Str)) (mine : Nat → List (Done Asked Exn Str)),
      (order.map fun d => d.req.query).Perm
        ((preprocessQueries queries valueSize).map queryOf) ∧
      order.Pairwise (fun a b => ¬ b.stop < a.start) ∧
      order.map Done.outcome = (Simulation.outputs (onMap delAbsent)
        (order.map fun d => d.req.query) t).1.map .ok ∧
      Holds cipher n.shared (Simulation.outputs (onMap delAbsent)
        (order.map fun d => d.req.query) t).2 ∧
      order.Perm ((List.range clients).flatMap mine) ∧
      ∀ i, (mine i).Pairwise (fun a b => a.stop < b.start) ∧
        (mine i).map (fun d => d.req.query) = (queriesPerClient clients
          (preprocessQueries queries valueSize) i).map queryOf ∧
        (mine i).map Done.outcome = (n.links i).sender.replies.map .ok := by
  have hDealt : ∀ i, ∀ text ∈ queriesPerClient clients
      (preprocessQueries queries valueSize) i, ∃ q, Understood text q :=
    fun i text hMem => hQueries text (mem_of_mem_queriesPerClient hMem)
  obtain ⟨order, mine, hPerm, hReal, hOut, hEnd, hMine⟩ :=
    texts_served hRecovers hInit
      (fun i hi => if_neg (Nat.not_lt.mpr hi)) hDealt hIvs hRun hIdle
  refine ⟨order, mine, ?_, hReal, hOut, hEnd, hPerm, hMine⟩
  refine (hPerm.map _).trans ?_
  rw [List.map_flatMap]
  have hTexts : ∀ i ∈ List.range clients,
      (mine i).map (fun d => d.req.query) =
        (stride i clients (preprocessQueries queries valueSize)).map queryOf := by
    intro i hi
    have hHere : queriesPerClient clients (preprocessQueries queries valueSize) i =
        stride i clients (preprocessQueries queries valueSize) :=
      if_pos (List.mem_range.mp hi)
    rw [← hHere]
    exact (hMine i).2.1
  rw [List.flatMap_congr hTexts, ← List.map_flatMap]
  exact (perm_stride hClients _).map queryOf

/-- A put of a value and a get, as lines of a workload. -/
def twoLines : List Str :=
  [lit "query(PUT(\"k\",\"VAL\"))", lit "query(GET(\"k\"))"]

/-- Two clients, whose queries overlap and whose replies come in pieces. -/
def twoClients : List Transport.Act :=
  [.send 0, .send 1, .work 0, .work 0, .work 1, .work 1, .work 0, .work 1,
    .work 0, .work 1, .recv 0 2, .recv 1 99, .recv 0 99, .recv 0 99, .recv 0 0,
    .recv 1 99, .recv 1 0]

theorem understood_twoLines :
    ∀ text ∈ preprocessQueries twoLines 2, ∃ q, Understood text q := by
  intro text hMem
  rcases List.mem_pair.mp hMem with rfl | rfl
  · exact ⟨{ cmd := lit "put", key := lit "k", value := lit "xx" },
      by decide, by decide, by decide +kernel, by decide⟩
  · exact ⟨{ cmd := lit "get", key := lit "k" },
      by decide, by decide, by decide +kernel, by decide⟩

theorem twoClients_run : ∃ n,
    run (Transport.step (service (mapClient true none))) twoClients
      (network (fun _ => none) (queriesPerClient 2
        (preprocessQueries twoLines 2)) fun _ _ => []) = some n ∧
      ∀ i, Idle (n.links i).sender := by
  have hSome : (run (Transport.step (service (mapClient true none))) twoClients
      (network (fun _ => none) (queriesPerClient 2
        (preprocessQueries twoLines 2)) fun _ _ => [])).isSome = true := by
    decide +kernel
  have hReady : ∀ i < 2, (run (Transport.step (service (mapClient true none)))
      twoClients (network (fun _ => none) (queriesPerClient 2
        (preprocessQueries twoLines 2)) fun _ _ => [])).map (fun n =>
          ((n.links i).sender.outbox, (n.links i).sender.phase)) =
            some ([], .ready) := by
    decide +kernel
  obtain ⟨n, hRun⟩ := Option.isSome_iff_exists.mp hSome
  have hOthers : ∀ a ∈ twoClients, a.link < 2 := by decide
  refine ⟨n, hRun, fun i => ?_⟩
  by_cases hi : i < 2
  · have hHere := hReady i hi
    rw [hRun, Option.map_some, Option.some.injEq, Prod.mk.injEq] at hHere
    exact ⟨hHere.1, fun asked got => by rw [hHere.2]; exact nofun⟩
  · rw [run_links_of_ne hRun fun a hMem hHere => by
      have hLt := hOthers a hMem
      omega]
    refine ⟨?_, nofun⟩
    show (queriesPerClient 2 _ i).map Message.query = []
    rw [queriesPerClient, if_neg hi, List.map_nil]

/-- `workload_served` at two clients. -/
theorem twoClients_served : ∃ n,
    run (Transport.step (service (mapClient true none))) twoClients
      (network (fun _ => none) (queriesPerClient 2
        (preprocessQueries twoLines 2)) fun _ _ => []) = some n ∧
    ∃ (order : List (Done Asked Exn Str)) (mine : Nat → List (Done Asked Exn Str)),
      (order.map fun d => d.req.query).Perm
        ((preprocessQueries twoLines 2).map queryOf) ∧
      order.Pairwise (fun a b => ¬ b.stop < a.start) ∧
      order.map Done.outcome = (Simulation.outputs (onMap true)
        (order.map fun d => d.req.query) fun _ => none).1.map .ok ∧
      Holds none n.shared (Simulation.outputs (onMap true)
        (order.map fun d => d.req.query) fun _ => none).2 ∧
      order.Perm ((List.range 2).flatMap mine) ∧
      ∀ i, (mine i).Pairwise (fun a b => a.stop < b.start) ∧
        (mine i).map (fun d => d.req.query) = (queriesPerClient 2
          (preprocessQueries twoLines 2) i).map queryOf ∧
        (mine i).map Done.outcome = (n.links i).sender.replies.map .ok := by
  obtain ⟨n, hRun, hIdle⟩ := twoClients_run
  exact ⟨n, hRun, workload_served recovers_none (fun _ => ⟨rfl, rfl⟩)
    (by decide) understood_twoLines (fun _ hNone => nomatch hNone) hRun hIdle⟩

/-! ### Progress -/

/-- Every value fits into a message. -/
def ValuesFit (cipher : Option Cipher) (s : Store) : Prop :=
  ∀ key, ∀ value ∈ KvClient.lookup cipher s key, value.length ≤ maxMsgSize

/-- A read is answered with a value that fits. -/
def Call.FindsFitting : (call : Call) → call.Res → Prop
  | gdprGet _, res => ∀ value ∈ res, value.length ≤ maxMsgSize
  | _, _ => True

def Call.StoresFitting : Call → Prop
  | gdprPut _ value => value.length ≤ maxMsgSize
  | _ => True

/-- A reply that can be sent. -/
def Sendable (outcome : Except Exn Str) : Prop :=
  ∃ reply, outcome = .ok reply ∧ reply.length ≤ maxMsgSize

theorem assures_query {q : Query} (hValue : q.value.length ≤ maxMsgSize) :
    (respond q).Assures Call.FindsFitting Call.StoresFitting Sendable := by
  have hReply : ∀ success : Bool, ∀ yes no : Str, yes.length ≤ maxMsgSize →
      no.length ≤ maxMsgSize → Sendable (.ok (if success then yes else no)) := by
    intro success yes no hYes hNo
    cases success
    · exact ⟨no, rfl, hNo⟩
    · exact ⟨yes, rfl, hYes⟩
  rw [respond_eq]
  cases Command.ofText q.cmd with
  | invalid => exact ⟨INVALID_COMMAND, rfl, by decide⟩
  | get =>
      refine ⟨trivial, fun res hRes => ?_⟩
      cases res with
      | none => exact ⟨GET_FAILED, rfl, by decide⟩
      | some value => exact ⟨value, rfl, hRes value rfl⟩
  | put =>
      exact ⟨hValue, fun success _ =>
        hReply success _ _ (by decide) (by decide)⟩
  | delete =>
      exact ⟨trivial, fun success _ =>
        hReply success _ _ (by decide) (by decide)⟩

theorem valuesFit_exec (hRecovers : Recovers cipher) {req : Asked}
    (hReq : req.Sent cipher) (call : Call) {s : Store} (h : ValuesFit cipher s)
    (hCall : call.StoresFitting) :
    call.FindsFitting (exec (mapClient delAbsent cipher) req.iv call s).1 ∧
      ValuesFit cipher (exec (mapClient delAbsent cipher) req.iv call s).2 := by
  cases call with
  | gdprGet key =>
      simp only [exec, KvClient.gdprGet_mapClient]
      exact ⟨h key, h⟩
  | gdprPut key value =>
      refine ⟨trivial, fun other found hFound => ?_⟩
      simp only [exec, hRecovers.lookup_put delAbsent (hReq.storable hCall)]
        at hFound
      split at hFound
      · exact Option.mem_some.mp hFound ▸ hCall
      · exact h other found hFound
  | gdprDel key =>
      refine ⟨trivial, fun other found hFound => ?_⟩
      simp only [exec, lookup_del] at hFound
      split at hFound
      · cases hFound
      · exact h other found hFound

/-- In every state that clients of the native controller reach,
each connection has a next step of its own, or its client is closed and the
thread has nothing left to read. -/
theorem next_or_over (hRecovers : Recovers cipher) {s : Store}
    (hValues : ValuesFit cipher s) {texts : Nat → List Str}
    (hTexts : ∀ i, ∀ text ∈ texts i, ∃ q, Understood text q)
    {ivs : Nat → Nat → Str} (hIvs : ∀ c ∈ cipher, ∀ i turn,
      (ivs i turn).length = initializationVectorLen)
    {acts : List Transport.Act}
    {n : Net Asked Call Call.Res Exn UInt8 (Nat → Str) Store}
    (hRun : run (Transport.step (service (mapClient delAbsent cipher))) acts
      (network s texts ivs) = some n) (i : Nat) :
    (n.links i).Over ∨ ∃ a, Transport.Act.link a = i ∧
      (Transport.step (service (mapClient delAbsent cipher)) n a).isSome =
        true := by
  obtain ⟨schedule, c, answered, hInterleaved, h, -⟩ :=
    exists_related (service (mapClient delAbsent cipher)) s
      (fun i => scripted (hTexts i) (ivs i)) hRun
  refine h.progress ?_ i
  exact (invariant_of_assures (S := served (mapClient delAbsent cipher))
    (fun _ => Call.FindsFitting)
    (fun req call => req.Sent cipher ∧ call.StoresFitting) (fun _ => Sendable)
    (fun _ call _ hInv hCall => valuesFit_exec hRecovers hCall.1 call hInv hCall.2)
    (fun _ hReq => (assures_query hReq.value).mono (fun _ hCall => ⟨hReq, hCall⟩)
      fun _ hDone => hDone) hValues
    (fun j => sent_of_requests (hTexts j) fun c hCipher => hIvs c hCipher j)
    hInterleaved).2

/-- A connection that is over has no more to ask. -/
theorem idle_of_over {Req Op : Type} {Res : Op → Type} {ε Sess σ : Type}
    {S : Service Req Op Res ε UInt8 Sess σ} {ℓ : Transport.Link Req Op Res ε UInt8 Sess}
    {a : Interleave.Client Req Op Res ε Str} {answered : List (Done Req ε Str)}
    (h : Transport.Stage S ℓ a answered) (hOver : ℓ.Over) :
    Idle ℓ.sender := by
  refine ⟨(h.over hOver).1, fun asked got hPhase => ?_⟩
  have hClosed := hOver.2
  rw [hPhase] at hClosed
  exact hClosed

/-- The queries of all clients are all queries. -/
theorem sum_queriesPerClient {clients : Nat} (hClients : 0 < clients)
    (queries : List Str) :
    ∑ i ∈ Finset.range clients, (queriesPerClient clients queries i).length =
      queries.length := by
  have hDealt := (perm_stride hClients queries).length_eq
  rw [List.length_flatMap] at hDealt
  rw [← hDealt]
  refine Finset.sum_congr rfl fun i hi => ?_
  rw [queriesPerClient, if_pos (Finset.mem_range.mp hi)]

/-- **Every workload is completed.** In whatever order the clients, the threads
and the network act: after a number of steps that the workload bounds nothing is
left to do, and when nothing is left to do every client has all its replies. -/
theorem workload_completes (hRecovers : Recovers cipher) {s : Store}
    (hValues : ValuesFit cipher s) {clients : Nat} (hClients : 0 < clients)
    {queries : List Str} {valueSize : Nat}
    (hQueries : ∀ text ∈ preprocessQueries queries valueSize,
      ∃ q, Understood text q)
    {ivs : Nat → Nat → Str} (hIvs : ∀ c ∈ cipher, ∀ i turn,
      (ivs i turn).length = initializationVectorLen)
    {acts : List Transport.Act}
    (hHere : ∀ a ∈ acts, a.link < clients)
    {n : Net Asked Call Call.Res Exn UInt8 (Nat → Str) Store}
    (hRun : run (Transport.step (service (mapClient delAbsent cipher))) acts
      (network s (queriesPerClient clients
        (preprocessQueries queries valueSize)) ivs) = some n) :
    acts.length ≤ queries.length * (maxMsgSize + 10) + clients * 5 ∧
      ((∀ a : Transport.Act, a.link < clients →
        Transport.step (service (mapClient delAbsent cipher)) n a = none) →
        ∀ i, Idle (n.links i).sender ∧ (n.links i).sender.replies.length =
          (queriesPerClient clients (preprocessQueries queries valueSize)
            i).length) := by
  have hTexts : ∀ i, ∀ text ∈ queriesPerClient clients
      (preprocessQueries queries valueSize) i, ∃ q, Understood text q :=
    fun i text hMem => hQueries text (mem_of_mem_queriesPerClient hMem)
  have hScripts : ∀ i, Scripted (service (mapClient delAbsent cipher)) exitQuery
      (ivs i) ((queriesPerClient clients (preprocessQueries queries valueSize)
        i).map .query) := fun i => scripted (hTexts i) (ivs i)
  have hBodies : ∀ req : Asked, (respond req.query).Within 1 :=
    fun req => (single_respond req.query).within
  refine ⟨?_, fun hStuck i => ?_⟩
  · have hLength := length_le_of_run hBodies s hScripts hRun hHere
    have hPieces : 1 + ((service (mapClient delAbsent cipher)).header.width +
        (service (mapClient delAbsent cipher)).maxSize) + 5 =
          maxMsgSize + 10 := by
      show 1 + (4 + maxMsgSize) + 5 = maxMsgSize + 10
      omega
    refine hLength.trans (Nat.le_of_eq ?_)
    simp only [List.length_map, hPieces]
    rw [Finset.sum_add_distrib, ← Finset.sum_mul, sum_queriesPerClient hClients,
      preprocessQueries, List.length_map,
      Finset.sum_const_nat fun _ _ => rfl, Finset.card_range]
  · by_cases hi : i < clients
    · obtain ⟨schedule, c, answered, -, h, -⟩ :=
        exists_related (service (mapClient delAbsent cipher)) s hScripts hRun
      have hOver : (n.links i).Over := by
        rcases next_or_over hRecovers hValues hTexts hIvs hRun i with
          hOver | ⟨a, rfl, hNext⟩
        · exact hOver
        · rw [hStuck a hi] at hNext
          cases hNext
      obtain ⟨-, hClient, hTold⟩ := (h.stage i).over hOver
      refine ⟨idle_of_over (h.stage i) hOver, ?_⟩
      have hAccount := congrArg List.length (h.account i)
      have hQueue := congrArg List.length
        (requests_query delAbsent cipher (hTexts i) (ivs i))
      have hReplies := congrArg List.length hTold
      rw [hClient] at hAccount
      simp only [List.length_append, List.length_map, Option.map_none,
        Option.toList_none, List.length_nil] at hAccount hQueue hReplies
      omega
    · rw [run_links_of_ne hRun fun a hMem hSame => by
        have hLt := hHere a hMem
        omega]
      have hNone : queriesPerClient clients
          (preprocessQueries queries valueSize) i = [] := if_neg hi
      rw [hNone]
      refine ⟨⟨?_, nofun⟩, rfl⟩
      show (queriesPerClient clients _ i).map Message.query = []
      rw [hNone, List.map_nil]

/-- `workload_completes` at two clients. -/
theorem twoClients_complete : ∃ n,
    run (Transport.step (service (mapClient true none))) twoClients
      (network (fun _ => none) (queriesPerClient 2
        (preprocessQueries twoLines 2)) fun _ _ => []) = some n ∧
    twoClients.length ≤ twoLines.length * (maxMsgSize + 10) + 2 * 5 ∧
      ((∀ a : Transport.Act, a.link < 2 →
        Transport.step (service (mapClient true none)) n a = none) →
        ∀ i, Idle (n.links i).sender ∧ (n.links i).sender.replies.length =
          (queriesPerClient 2 (preprocessQueries twoLines 2) i).length) := by
  obtain ⟨n, hRun, -⟩ := twoClients_run
  have hEmpty : ValuesFit none fun _ => none :=
    fun _ value hValue => absurd hValue (Option.not_mem_none value)
  exact ⟨n, hRun, workload_completes recovers_none hEmpty (by decide)
    understood_twoLines (fun _ hNone => nomatch hNone) (by decide) hRun⟩

end Service

end NativeController

/-! ## The controller -/

/-- A thread of the controller: its policy, once it has one, and the readings
that are still to come. -/
structure WireSession where
  policy : Option DefaultPolicy
  readings : Nat → Readings

/-- The threads of the controller.  A policy is acknowledged before it is
read. -/
def service {σ : Type} (env : Environment σ) :
    Service Request Op Op.Res Exn UInt8 WireSession (World σ) where
  header := networkHeader
  width_pos := by decide
  maxSize := maxMsgSize
  maxSize_lt := by decide
  react sess text :=
    match sess.policy with
    | none =>
        .greet (lit "ACK") <| match DefaultPolicy.ofText (cString text) with
          | .error _ => none
          | .ok p => some { sess with policy := some p }
    | some p =>
        match Query.ofText (cString text) with
        | .error _ => .raise
        | .ok q =>
            if q.cmd = lit "exit" then .leave
            else .serve ⟨q, p, sess.readings 0⟩
              { sess with readings := fun turn => sess.readings (turn + 1) }
  system := served env

/-- The reaction to a query is what `Session.handle` makes of it. -/
theorem handle_of_serve {σ : Type} (env : Environment σ) {sess next : WireSession}
    {text : Str} {req : Request}
    (hReact : (service env).react sess text = .serve req next)
    {around : Surroundings} (hReadings : around.readings = sess.readings 0)
    (w : World σ) :
    (Session.handle env around (cString text) ⟨sess.policy, w⟩).2 =
        ⟨next.policy, (World.serve env req w).2⟩ ∧
      ∀ reply, (World.serve env req w).1 = .ok reply →
        reply.length ≤ maxMsgSize → around.sent = true →
        (Session.handle env around (cString text) ⟨sess.policy, w⟩).1 =
          .goOn := by
  simp only [service] at hReact
  cases hPolicy : sess.policy with
  | none =>
      rw [hPolicy] at hReact
      cases hReact
  | some p =>
      rw [hPolicy] at hReact
      simp only at hReact
      cases hQuery : Query.ofText (cString text) with
      | error e =>
          rw [hQuery] at hReact
          cases hReact
      | ok q =>
          rw [hQuery] at hReact
          simp only at hReact
          split at hReact
          · cases hReact
          · rename_i hExit
            cases hReact
            simp only [Session.handle, hQuery, if_neg hExit, hReadings]
            generalize World.serve env ⟨q, p, sess.readings 0⟩ w = outcome
            obtain ⟨outcome, w'⟩ := outcome
            cases outcome with
            | error e => exact ⟨rfl, fun reply hReply => nomatch hReply⟩
            | ok response =>
                simp only
                refine ⟨?_, ?_⟩
                · split
                  · rfl
                  · split <;> rfl
                · rintro reply hReply hFits hSent
                  cases hReply
                  rw [if_neg (Nat.not_lt.mpr hFits), hSent]
                  rfl

/-- A policy text the controller reads. -/
structure Greets (text : Str) (p : DefaultPolicy) : Prop where
  nonempty : text ≠ []
  fits : text.length < maxMsgSize
  parsed : DefaultPolicy.ofText (cString text) = .ok p

/-- What a client sends: its policy and its queries. -/
def script (policyText : Str) (texts : List Str) : List (Message UInt8) :=
  .hello policyText (lit "ACK") :: texts.map .query

/-- Clients of the controller, all connected. -/
def network {σ : Type} (w : World σ) (policyTexts : Nat → Str)
    (texts : Nat → List Str) (readings : Nat → Nat → Readings) :
    Net Request Op Op.Res Exn UInt8 WireSession (World σ) :=
  Net.init w (fun i => script (policyTexts i) (texts i)) (fun _ => exitQuery)
    fun i => ⟨none, readings i⟩

section Wire

variable {σ : Type} {env : Environment σ} {p : DefaultPolicy}

theorem react_query {text : Str} {q : Query} (h : Understood text q)
    (readings : Nat → Readings) :
    (service env).react ⟨some p, readings⟩ text =
      .serve ⟨queryOf text, p, readings 0⟩
        ⟨some p, fun turn => readings (turn + 1)⟩ := by
  rw [← h.eq]
  simp only [service, h.parsed, if_neg h.goesOn]

theorem react_greeting {text : Str} (h : Greets text p)
    (readings : Nat → Readings) :
    (service env).react ⟨none, readings⟩ text =
      .greet (lit "ACK") (some ⟨some p, readings⟩) := by
  simp only [service, h.parsed]

theorem scripted_queries {texts : List Str}
    (hTexts : ∀ text ∈ texts, ∃ q, Understood text q)
    (readings : Nat → Readings) :
    Scripted (service env) exitQuery ⟨some p, readings⟩
      (texts.map .query) := by
  induction texts generalizing readings with
  | nil =>
      refine .ends _ ?_ (by decide)
        (show exitQuery.length ≤ maxMsgSize by decide)
      have hExit : Query.ofText (cString exitQuery) =
          .ok { cmd := lit "exit" } := by
        decide +kernel
      simp only [service, hExit, if_true]
  | cons text texts ih =>
      obtain ⟨⟨q, h⟩, hLater⟩ := List.forall_mem_cons.mp hTexts
      exact .query (react_query h readings) h.nonempty h.fits.le (ih hLater _)

theorem scripted_script {policyText : Str} (hPolicy : Greets policyText p)
    {texts : List Str} (hTexts : ∀ text ∈ texts, ∃ q, Understood text q)
    (readings : Nat → Readings) :
    Scripted (service env) exitQuery ⟨none, readings⟩
      (script policyText texts) :=
  .hello (react_greeting hPolicy readings) hPolicy.nonempty hPolicy.fits.le
    (show (lit "ACK").length ≤ maxMsgSize by decide)
    (scripted_queries hTexts readings)

variable (env) in
theorem requests_script {policyText : Str} (hPolicy : Greets policyText p)
    {texts : List Str} (hTexts : ∀ text ∈ texts, ∃ q, Understood text q)
    (readings : Nat → Readings) :
    ((service env).requests ⟨none, readings⟩ (script policyText texts)).map
        (fun req => (req.query, req.policy)) =
      texts.map fun text => (queryOf text, p) := by
  have hQueries : ∀ (texts : List Str) (readings : Nat → Readings),
      (∀ text ∈ texts, ∃ q, Understood text q) →
      ((service env).requests ⟨some p, readings⟩ (texts.map .query)).map
          (fun req => (req.query, req.policy)) =
        texts.map fun text => (queryOf text, p) := by
    intro texts
    induction texts with
    | nil => exact fun _ _ => rfl
    | cons text texts ih =>
        intro readings hTexts
        obtain ⟨⟨q, h⟩, hLater⟩ := List.forall_mem_cons.mp hTexts
        rw [List.map_cons, Service.requests, Message.text, react_query h,
          List.map_cons, List.map_cons, ih _ hLater]
  rw [script, Service.requests, Message.text, react_greeting hPolicy]
  exact hQueries texts readings hTexts

/-- A reply that a client of the controller has is the outcome of the query in
the same place. -/
theorem query_of_reply {policyTexts : Nat → Str} {policies : Nat → DefaultPolicy}
    (hPolicies : ∀ i, Greets (policyTexts i) (policies i))
    {texts : Nat → List Str}
    (hTexts : ∀ i, ∀ text ∈ texts i, ∃ q, Understood text q)
    {readings : Nat → Nat → Readings}
    {n : Net Request Op Op.Res Exn UInt8 WireSession (World σ)}
    {c : Config Request Op Op.Res Exn Str (World σ)}
    {answered : Nat → List (Done Request Exn Str)}
    (h : Related (service env) (fun i => (service env).requests
      ⟨none, readings i⟩ (script (policyTexts i) (texts i))) n c answered)
    {i k : Nat} {reply : Str}
    (hReply : (n.links i).sender.replies[k]? = some reply) :
    ∃ text, (texts i)[k]? = some text ∧ ∃ d ∈ c.done, d.outcome = .ok reply ∧
      d.req = ⟨queryOf text, policies i, d.req.readings⟩ := by
  obtain ⟨d, hMem, hReq, hOk⟩ := h.outcome_of_reply hReply
  have hQueries := requests_script env (hPolicies i) (hTexts i) (readings i)
  have hHere := congrArg (·[k]?) hQueries
  simp only [List.getElem?_map, hReq, Option.map_some] at hHere
  obtain ⟨text, hText, hEq⟩ := Option.map_eq_some_iff.mp hHere.symm
  obtain ⟨hQuery, hPolicy⟩ := Prod.mk.inj hEq
  refine ⟨text, hText, d, hMem, hOk, ?_⟩
  rw [hQuery, hPolicy]

end Wire

section OnWire

variable {delAbsent : Bool} {cipher : Option Cipher} {log : LogConfig}
  {w : World Store} {policyTexts : Nat → Str} {policies : Nat → DefaultPolicy}
  {texts : Nat → List Str} {acts : List Transport.Act}
  {n : Net Request Op Op.Res Exn UInt8 WireSession (World Store)}

/-- Alice objects to what she does not do herself. -/
def aliceGreeting : Str :=
  lit "-sessionKey alice -encryption false -purpose purpose1 -objection" ++
    lit " purpose2 -origin home -expTime 0 -monitor true -objShare"

def aliceTexts : Nat → List Str
  | 0 => [lit "query(PUT(\"k\",\"v\"))", lit "query(GET(\"k\"))"]
  | _ => []

/-- Alice sends her policy, puts and gets. -/
def aliceActs : List Transport.Act :=
  [.send 0, .work 0, .work 0, .recv 0 99, .recv 0 99, .recv 0 0,
    .send 0, .work 0, .work 0, .work 0, .work 0, .work 0, .work 0, .recv 0 99,
    .recv 0 99, .recv 0 0,
    .send 0, .work 0, .work 0, .work 0, .work 0, .work 0, .recv 0 99,
    .recv 0 99, .recv 0 0]

theorem aliceGreeting_greets :
    Greets aliceGreeting { alicePolicy with objection := 4 } :=
  ⟨by decide, by decide +kernel, by decide +kernel⟩

theorem aliceTexts_understood :
    ∀ i, ∀ text ∈ aliceTexts i, ∃ q, Understood text q := by
  intro i text hMem
  cases i with
  | zero =>
      rcases List.mem_pair.mp hMem with rfl | rfl
      · exact ⟨{ cmd := lit "put", key := lit "k", value := lit "v" },
          by decide, by decide, by decide +kernel, by decide⟩
      · exact ⟨{ cmd := lit "get", key := lit "k" },
          by decide, by decide, by decide +kernel, by decide⟩
  | succ i => cases hMem

theorem aliceActs_run : ∃ n,
    run (Transport.step (service (mapEnv true none ⟨lit "logs", none⟩))) aliceActs
      (network ⟨fun _ => none, []⟩ (fun _ => aliceGreeting) aliceTexts
        fun _ _ => Readings.constant 0) = some n ∧
      (n.links 0).sender.replies[1]? = some (lit "v") := by
  have hReplies : (run (Transport.step
      (service (mapEnv true none ⟨lit "logs", none⟩))) aliceActs
        (network ⟨fun _ => none, []⟩ (fun _ => aliceGreeting) aliceTexts
          fun _ _ => Readings.constant 0)).map (fun n =>
            (n.links 0).sender.replies[1]?) = some (some (lit "v")) := by
    decide +kernel
  exact Option.map_eq_some_iff.mp hReplies

end OnWire

end GDPRuler.Controller
