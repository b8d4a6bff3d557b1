import GDPRuler.Verified.Transition
import GDPRuler.Controller.Mediation

/-!
# Who owns a record

The owner is the first field of a stored record.  Updates keep everything up to
the last `'|'`, so they keep the owner; the metadata rewriter writes the user
key of the query over it.  For the owner that is no change, since the filter
has compared the two, but a user of the share list who names itself in the
query becomes the owner (`owner_kept_iff`).

Without such a request the owner stays, over runs of any length and whatever
else is written (`owner_stable`).
-/

namespace GDPRuler.Controller

open GDPRuler.Verified.Delim GDPRuler.Verified.Transition

/-! ## The first field -/

/-- The owner field of a stored text: what stands before the first `'|'`. -/
def ownerField (value : Str) : Option Str := (cut bar value).map Prod.fst

theorem ownerField_append {user : Str} (h : bar ∉ user) (rest : Str) :
    ownerField (user ++ bar :: rest) = some user := by
  rw [ownerField, cut_append h]
  rfl

/-- The owner of an accepted record, in front of at least one more field. -/
theorem exists_owner {value : Str} {f : GdprFilter}
    (hValue : GdprFilter.ofValue (some value) = .ok f) :
    ∃ tail, value = f.userKey ++ bar :: tail ∧ bar ∈ tail ∧
      bar ∉ f.userKey := by
  obtain ⟨fields, rest, hText, hLen, hFree⟩ := GdprFilter.ofValue_first hValue
  refine ⟨joinFields bar fields rest, hText, ?_, hFree _ (by simp)⟩
  cases fields with
  | nil => cases hLen
  | cons field fields => simp

theorem ownerField_of_ofValue {value : Str} {f : GdprFilter}
    (hValue : GdprFilter.ofValue (some value) = .ok f) :
    ownerField value = some f.userKey := by
  obtain ⟨tail, hText, _, hClean⟩ := exists_owner hValue
  rw [hText, ownerField_append hClean]

/-- An update keeps the owner of an accepted record. -/
theorem ownerField_update {value : Str} {f : GdprFilter}
    (hValue : GdprFilter.ofValue (some value) = .ok f) (v : Str) :
    ownerField (QueryRewriter.update value v) = some f.userKey := by
  obtain ⟨tail, hText, hTail, hClean⟩ := exists_owner hValue
  obtain ⟨front, back, hCut⟩ := exists_cutLast hTail
  have hWhole : cutLast bar value =
      some (f.userKey ++ bar :: front, back) := by
    have hHead := cutLast_append_of_mem (f.userKey ++ [bar]) hTail
    rw [hCut] at hHead
    simpa [hText] using hHead
  rw [QueryRewriter.update, hWhole]
  simp only [List.append_assoc, List.cons_append]
  exact ownerField_append hClean _

/-- The metadata rewriter only appends to what it has written. -/
private theorem prefix_of_scan {q : Query} {now : Int64} {n i j : Nat}
    {s rest acc acc' : Str}
    (h : scan bar (QueryRewriter.putmStep q now) n i s acc =
      .ok (j, rest, acc')) : acc <+: acc' := by
  induction n generalizing i s acc with
  | zero =>
      simp only [scan, Except.ok.injEq, Prod.mk.injEq] at h
      exact h.2.2 ▸ List.prefix_rfl
  | succ n ih =>
      cases hCut : cut bar s with
      | none =>
          simp only [scan, hCut, Except.ok.injEq, Prod.mk.injEq] at h
          exact h.2.2 ▸ List.prefix_rfl
      | some parts =>
          obtain ⟨token, tail⟩ := parts
          obtain ⟨next, hNext⟩ := QueryRewriter.putmStep_ok q now i token acc
          simp only [scan, hCut, hNext] at h
          have hGrows : acc <+: next := by
            unfold QueryRewriter.putmStep at hNext
            split at hNext
            all_goals
              rw [Except.ok.injEq] at hNext
              rw [← hNext]
              simp
          exact hGrows.trans (ih h)

/-- After a metadata update the owner is the user key of the query, if there is
one. -/
theorem ownerField_putm {value text : Str} {f : GdprFilter}
    (hValue : GdprFilter.ofValue (some value) = .ok f) {q : Query}
    {now : Int64} (hBar : ∀ user ∈ q.userKey, bar ∉ user)
    (hPutm : QueryRewriter.putm value q now = .ok text) :
    ownerField text = some (q.userKey.getD f.userKey) := by
  obtain ⟨tail, hText, _, hClean⟩ := exists_owner hValue
  have hUser : bar ∉ q.userKey.getD f.userKey := by
    cases hKey : q.userKey with
    | none => exact hClean
    | some user => exact hBar user hKey
  have hFirst : scan bar (QueryRewriter.putmStep q now) maxGdprFieldGuard 0
      value [] =
      scan bar (QueryRewriter.putmStep q now) 8 1 tail
        (q.userKey.getD f.userKey ++ [bar]) := by
    rw [hText, maxGdprFieldGuard, scan, cut_append hClean]
    simp [QueryRewriter.putmStep, QueryRewriter.putmField,
      MetadataField.ofCount]
  rw [QueryRewriter.putm, hFirst] at hPutm
  cases hScan : scan bar (QueryRewriter.putmStep q now) 8 1 tail
      (q.userKey.getD f.userKey ++ [bar]) with
  | error e =>
      rw [hScan] at hPutm
      cases hPutm
  | ok result =>
      obtain ⟨count, rest, newValue⟩ := result
      obtain ⟨more, hMore⟩ := prefix_of_scan hScan
      rw [hScan] at hPutm
      simp only [bind, Except.bind, pure, Except.pure, Except.ok.injEq]
        at hPutm
      rw [← hPutm, ← hMore]
      simp only [List.append_assoc, List.cons_append, List.nil_append]
      exact ownerField_append hUser _

/-! ## One request -/

/-- A token of a list holds nothing that the list does not. -/
theorem not_mem_of_mem_splitOn {b : UInt8} {share user : Str}
    (hShare : b ∉ share) (hUser : user ∈ share.splitOn comma) : b ∉ user := by
  rw [← tokens_eq_splitOn (Nat.le_refl _)] at hUser
  generalize share.length = n at hUser
  induction n generalizing share with
  | zero =>
      rw [tokens, List.mem_singleton] at hUser
      exact hUser ▸ hShare
  | succ n ih =>
      cases hCut : cut comma share with
      | none =>
          rw [tokens, hCut, List.mem_singleton] at hUser
          exact hUser ▸ hShare
      | some parts =>
          obtain ⟨token, rest⟩ := parts
          obtain ⟨rfl, _⟩ := cut_eq_some_iff.mp hCut
          simp only [List.mem_append, List.mem_cons, not_or] at hShare
          rw [tokens, hCut] at hUser
          cases List.mem_cons.mp hUser with
          | inl hHead => exact hHead ▸ hShare.1
          | inr hTail => exact ih hShare.2.2 hTail

/-- The user key of a granted query holds no separator: the filter found it in
the record. -/
theorem bar_not_mem_of_validates {value : Str} {f : GdprFilter}
    (hValue : GdprFilter.ofValue (some value) = .ok f) {req : Request}
    (hGranted : Validates f req) :
    ∀ user ∈ req.query.userKey, bar ∉ user := by
  intro user hUser
  obtain ⟨hWho, _⟩ := (GdprFilter.validate_iff
    (GdprFilter.ofValue_eq_ok hValue).1 _ _ _).mp hGranted
  have hEffective : effectiveUserKey req.query req.policy = user := by
    rw [effectiveUserKey, Option.mem_def.mp hUser, Option.getD_some]
  have hClean := GdprFilter.clean_of_ofValue hValue
  cases hWho with
  | inl hOwner => exact hEffective ▸ hOwner ▸ hClean.userKey
  | inr hShared =>
      exact hEffective ▸ not_mem_of_mem_splitOn hClean.share hShared

/-- A granted `putm` that hands the record to another user. -/
structure Transfers (f : GdprFilter) (c : KeyCommand) (req : Request) :
    Prop where
  command : c = .putm
  granted : Validates f req
  notOwner : effectiveUserKey req.query req.policy ≠ f.userKey
  sessionKey : req.query.userKey.isSome = true

section Serve

variable (delAbsent : Bool) (log : LogConfig)

/-- A granted request that does not delete leaves a record, owned by the user
key of a `putm` that has one. -/
theorem owner_of_granted {c : KeyCommand} {req : Request}
    (hCommand : KeyCommand.ofText req.query.cmd = some c) {w : World Store}
    {value : Str} {f : GdprFilter} (hKv : w.kv req.query.key = some value)
    (hValue : GdprFilter.ofValue (some value) = .ok f)
    (hGranted : Validates f req) (hDelete : c ≠ .delete) :
    ∃ text, (World.serve (mapEnv delAbsent none log) req w).2.kv
        req.query.key = some text ∧
      ownerField text = some
        (if c = .putm then req.query.userKey.getD f.userKey
          else f.userKey) := by
  have hOwner := ownerField_of_ofValue hValue
  rw [World.serve_keyed delAbsent none log hCommand, KvClient.lookup_plain,
    hKv, plan_granted hValue hGranted]
  cases c with
  | get => exact ⟨value, hKv, hOwner⟩
  | getm => exact ⟨value, hKv, hOwner⟩
  | delete => exact absurd rfl hDelete
  | put =>
      refine ⟨_, ?_, ownerField_update hValue req.query.value⟩
      simp only [grantedPlan, World.carryOut, Plan.kv, Write.apply,
        KvClient.gdprPut_plain, Function.update_self]
  | putm =>
      obtain ⟨text, hPutm⟩ :=
        QueryRewriter.putm_ok value req.query req.readings.rewriteTime
      refine ⟨text, ?_, ownerField_putm hValue
        (bar_not_mem_of_validates hValue hGranted) hPutm⟩
      simp only [grantedPlan, hPutm, bind, Except.bind, pure, Except.pure,
        World.carryOut, Plan.kv, Write.apply, KvClient.gdprPutm_mapClient,
        KvClient.gdprPut_plain, Function.update_self]

/-- A put or `putm` keeps the owner exactly if it does not transfer the
record. -/
theorem owner_kept_iff {c : KeyCommand} {req : Request}
    (hCommand : KeyCommand.ofText req.query.cmd = some c)
    (hDelete : c ≠ .delete) {w : World Store} {value : Str} {f : GdprFilter}
    (hKv : w.kv req.query.key = some value)
    (hValue : GdprFilter.ofValue (some value) = .ok f) :
    (∃ text, (World.serve (mapEnv delAbsent none log) req w).2.kv
        req.query.key = some text ∧ ownerField text = some f.userKey) ↔
      ¬ Transfers f c req := by
  by_cases hGranted : Validates f req
  · obtain ⟨text, hText, hOwner⟩ := owner_of_granted delAbsent log hCommand hKv
      hValue hGranted hDelete
    rw [hText]
    simp only [Option.some.injEq, exists_eq_left', hOwner]
    constructor
    · intro hSame hTransfers
      obtain ⟨user, hUser⟩ :=
        Option.isSome_iff_exists.mp hTransfers.sessionKey
      rw [if_pos hTransfers.command, hUser, Option.getD_some] at hSame
      refine hTransfers.notOwner ?_
      rw [effectiveUserKey, hUser, Option.getD_some, hSame]
    · intro hNot
      split
      · rename_i hPutm
        cases hUser : req.query.userKey with
        | none => rfl
        | some user =>
            by_contra hOther
            refine hNot ⟨hPutm, hGranted, ?_, by rw [hUser]; rfl⟩
            rw [effectiveUserKey, hUser]
            exact hOther
      · rfl
  · obtain ⟨_, hSame⟩ := serve_denied delAbsent none log hCommand
      ⟨value, hKv, hValue⟩ hGranted
    rw [hSame]
    exact iff_of_true ⟨value, hKv, ownerField_of_ofValue hValue⟩
      fun hTransfers => hGranted hTransfers.granted

end Serve

/-! ## Runs -/

/-- Serve one request; an exception stops the controller. -/
def World.next {σ : Type} (env : Environment σ) (w : World σ) (req : Request) :
    Option (World σ) :=
  match World.serve env req w with
  | (.error _, _) => none
  | (.ok _, w') => some w'

theorem World.serve_of_next {σ : Type} {env : Environment σ} {w w' : World σ}
    {req : Request} (h : World.next env w req = some w') :
    ∃ reply, World.serve env req w = (.ok reply, w') := by
  unfold World.next at h
  split at h
  · cases h
  · rename_i reply next hServe
    rw [Option.some.injEq] at h
    exact ⟨reply, h ▸ hServe⟩

/-- The request neither hands the record of `key` to another user nor deletes
it. -/
def LeavesOwner (key : Str) (w : World Store) (req : Request) : Prop :=
  ∀ value f c, w.kv key = some value →
    GdprFilter.ofValue (some value) = .ok f →
    KeyCommand.ofText req.query.cmd = some c → req.query.key = key →
    ¬ Transfers f c req ∧ ¬ (c = .delete ∧ Validates f req)

/-- `key` holds a record of `user`'s. -/
def OwnedBy (key user : Str) (w : World Store) : Prop :=
  ∃ value, w.kv key = some value ∧ ownerField value = some user

section Runs

variable (delAbsent : Bool) (log : LogConfig)

/-- One step of a run. -/
theorem OwnedBy.next {key user : Str} {w w' : World Store} {req : Request}
    (h : OwnedBy key user w) (hLeaves : LeavesOwner key w req)
    (hNext : World.next (mapEnv delAbsent none log) w req = some w') :
    OwnedBy key user w' := by
  obtain ⟨reply, hServe⟩ := World.serve_of_next hNext
  obtain ⟨value, hKv, hOwner⟩ := h
  by_cases hOn : req.OnKey key
  · obtain ⟨hKeyed, rfl⟩ := hOn
    obtain ⟨c, hCommand⟩ := Option.isSome_iff_exists.mp hKeyed
    cases hValue : GdprFilter.ofValue (some value) with
    | error e =>
        -- a record that is not accepted stops the controller
        have hStops := World.serve_keyed delAbsent none log hCommand w
        rw [KvClient.lookup_plain, hKv, plan_error hValue, hServe] at hStops
        cases (Prod.mk.inj hStops).1
    | ok f =>
        obtain ⟨hTransfers, hDelete⟩ :=
          hLeaves value f c hKv hValue hCommand rfl
        have hUser : f.userKey = user := by
          rw [ownerField_of_ofValue hValue] at hOwner
          exact Option.some.inj hOwner
        by_cases hGone : c = .delete
        · have hDenied : ¬ Validates f req := fun hv => hDelete ⟨hGone, hv⟩
          obtain ⟨_, hSame⟩ := serve_denied delAbsent none log hCommand
            ⟨value, hKv, hValue⟩ hDenied
          rw [hServe] at hSame
          exact ⟨value, by rw [hSame]; exact hKv, hOwner⟩
        · obtain ⟨text, hText, hKept⟩ := (owner_kept_iff delAbsent log hCommand
            hGone hKv hValue).mpr hTransfers
          rw [hServe] at hText
          exact ⟨text, hText, hUser ▸ hKept⟩
  · have hSame :=
      World.serve_kv_of_not_onKey delAbsent none log req w hOn
    rw [hServe] at hSame
    exact ⟨value, by rw [hSame]; exact hKv, hOwner⟩

/-- **Owner stability.** In a run that neither deletes the record nor contains
a granted `putm` with a session key by somebody else, the record keeps its
owner, and the filter keeps taking requests of that user for the owner's. -/
theorem owner_stable {key user : Str} {w w' : World Store}
    (hOwned : OwnedBy key user w) {reqs : List Request}
    (hSteps : AllSteps (World.next (mapEnv delAbsent none log))
      (LeavesOwner key) reqs w)
    (hRun : run (World.next (mapEnv delAbsent none log)) reqs w = some w') :
    OwnedBy key user w' ∧
      ∀ value f, w'.kv key = some value →
        GdprFilter.ofValue (some value) = .ok f →
        ∀ q p, effectiveUserKey q p = user →
          f.validateSessionKey q.userKey p.userKey = true := by
  have hEnd : OwnedBy key user w' :=
    run_invariant (fun s a s' h hLeaves hNext =>
      OwnedBy.next delAbsent log h hLeaves hNext) hSteps hOwned hRun
  refine ⟨hEnd, fun value f hKv hValue q p hUser => ?_⟩
  obtain ⟨value', hKv', hOwner⟩ := hEnd
  obtain rfl : value' = value := Option.some.inj (hKv'.symm.trans hKv)
  have hField := ownerField_of_ofValue hValue
  rw [hOwner, Option.some.injEq] at hField
  exact (GdprFilter.validateSessionKey_iff f q p).mpr
    (.inl (hUser.trans hField))

end Runs

/-! ## A record changes hands -/

/-- Alice's put of a record she shares with bob. -/
def aliceSharedPut : Request :=
  ⟨{ cmd := lit "put", key := lit "k", value := lit "VAL"
     share := some (lit "bob") }, alicePolicy, Readings.constant 0⟩

/-- Bob's `putm`, naming himself, which changes nothing else. -/
def bobPutm : Request :=
  ⟨{ cmd := lit "putm", key := lit "k", userKey := some (lit "bob") },
    alicePolicy, Readings.constant 0⟩

/-- Bob becomes the owner, and alice's get is refused. -/
theorem record_changes_hands :
    Query.ofText (lit "query(PUT(\"k\",\"VAL\"))&objShare(\"bob\")") =
      .ok aliceSharedPut.query ∧
    Query.ofText (lit "query(PUTM(\"k\"))&sessionKey(\"bob\")") =
      .ok bobPutm.query ∧
    ((World.serveAll (mapEnv true none ⟨lit "logs", none⟩) [aliceSharedPut]
      ⟨fun _ => none, []⟩).2.kv (lit "k")).bind ownerField =
        some (lit "alice") ∧
    (World.serveAll (mapEnv true none ⟨lit "logs", none⟩)
      [aliceSharedPut, bobPutm,
        ⟨{ cmd := lit "get", key := lit "k" }, alicePolicy,
          Readings.constant 0⟩] ⟨fun _ => none, []⟩).1 =
        [.ok PUT_SUCCESS, .ok PUTM_SUCCESS, .ok GET_FAILED] ∧
    ((World.serveAll (mapEnv true none ⟨lit "logs", none⟩)
      [aliceSharedPut, bobPutm] ⟨fun _ => none, []⟩).2.kv (lit "k")).bind
        ownerField = some (lit "bob") := by
  refine ⟨by decide +kernel, by decide +kernel, by decide +kernel,
    by decide +kernel, by decide +kernel⟩

/-- `owner_stable` at bob's put on alice's record. -/
theorem owner_stable_put :
    let w : World Store := ⟨fun _ => some (lit "alice|0|2|0|home|0|bob|0|VAL"),
      []⟩
    let put : Request :=
      ⟨{ cmd := lit "put", key := lit "k", value := lit "NEW"
         userKey := some (lit "bob") }, alicePolicy, Readings.constant 0⟩
    let w' := (World.serve (mapEnv true none ⟨lit "logs", none⟩) put w).2
    OwnedBy (lit "k") (lit "alice") w' ∧
      ∀ value f, w'.kv (lit "k") = some value →
        GdprFilter.ofValue (some value) = .ok f →
        ∀ q p, effectiveUserKey q p = lit "alice" →
          f.validateSessionKey q.userKey p.userKey = true := by
  intro w put w'
  have hOwned : OwnedBy (lit "k") (lit "alice") w :=
    ⟨_, rfl, by decide +kernel⟩
  have hReply : (World.serve (mapEnv true none ⟨lit "logs", none⟩) put w).1 =
      .ok PUT_SUCCESS := by decide +kernel
  have hRun : run (World.next (mapEnv true none ⟨lit "logs", none⟩)) [put] w =
      some w' := by
    simp only [run, World.next]
    rw [show World.serve (mapEnv true none ⟨lit "logs", none⟩) put w =
      (.ok PUT_SUCCESS, w') from Prod.ext hReply rfl]
  have hCommand : KeyCommand.ofText put.query.cmd = some .put := by decide
  have hLeaves : LeavesOwner (lit "k") w put := by
    intro value f c _ _ hSame _
    obtain rfl : KeyCommand.put = c :=
      Option.some.inj (hCommand.symm.trans hSame)
    constructor
    · intro h
      cases h.command
    · intro h
      cases h.1
  have hSteps : AllSteps (World.next (mapEnv true none ⟨lit "logs", none⟩))
      (LeavesOwner (lit "k")) [put] w := ⟨hLeaves, fun _ _ => trivial⟩
  exact owner_stable true ⟨lit "logs", none⟩ hOwned hSteps hRun

end GDPRuler.Controller
