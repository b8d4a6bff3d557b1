import GDPRuler.Controller.Mediation
import GDPRuler.Controller.WellFormed

/-!
# Purposes by name

Clients name purposes, the filter compares bits.  For the 64 known names this
makes no difference: in every run whose requests use known names only, a get
that is granted names purposes the record allows and none it objects to
(`purposes_respected`).

An unknown name is another matter.  Looking it up in the purpose table yields
index 0, so it stands for `purpose0` wherever it is used
(`setBitmap_of_not_known`), as a purpose allowed as well as one asked for.
-/

namespace GDPRuler.Controller

open GDPRuler.Verified GDPRuler.Verified.Transition GDPRuler.Verified.BitSet

/-! ## Names and bits -/

/-- The names of known purposes are told apart by their bits. -/
theorem getPur_mem_bitSet_iff {names : List Str} {name : Str}
    (hNames : ∀ n ∈ names, KnownPurpose n) (hName : KnownPurpose name) :
    getPur name ∈ bitSet (setBitmap 0 names) ↔ name ∈ names := by
  rw [mem_bitSet, getLsbD_setBitmap _ _ (getPur_lt name)]
  constructor
  · rintro (hZero | ⟨other, hMem, hSame⟩)
    · simp at hZero
    · exact (getPur_eq_iff (hNames other hMem) hName).mp hSame ▸ hMem
  · exact fun hMem => .inr ⟨name, hMem, rfl⟩

/-- An unknown name stands for `purpose0`. -/
theorem setBitmap_of_not_known {name : Str} (h : ¬ KnownPurpose name) :
    setBitmap 0 [name] = setBitmap 0 [purposeName 0] := by
  have hZero : getPur (purposeName 0) = 0 := getPur_purposeName (by decide)
  simp [setBitmap, getPur_of_not_known h, hZero]

/-! ## Requests that name purposes -/

/-- A request with the names its purpose sets were written with, in the query
and in the policy. -/
structure NamedRequest extends KeyedRequest where
  purposes : Option (List Str)
  objections : Option (List Str)
  condPurposes : List Str
  policyPurposes : List Str
  policyObjections : List Str
  isPurpose : query.purpose = purposes.map (setBitmap 0)
  isObjection : query.objection = objections.map (setBitmap 0)
  isCondPurpose : query.condPurpose = setBitmap 0 condPurposes
  isPolicyPurpose : policy.purpose = setBitmap 0 policyPurposes
  isPolicyObjection : policy.objection = setBitmap 0 policyObjections

/-- Every name is one of `purpose0 … purpose63`. -/
structure NamedRequest.Known (req : NamedRequest) : Prop where
  purposes : ∀ names ∈ req.purposes, ∀ n ∈ names, KnownPurpose n
  objections : ∀ names ∈ req.objections, ∀ n ∈ names, KnownPurpose n
  condPurposes : ∀ n ∈ req.condPurposes, KnownPurpose n
  policyPurposes : ∀ n ∈ req.policyPurposes, KnownPurpose n
  policyObjections : ∀ n ∈ req.policyObjections, KnownPurpose n

/-- A list of comma-free names in a query is read as those names. -/
theorem parseOption_objPur (q : Query) {names : List Str} (hNames : names ≠ [])
    (hFree : ∀ name ∈ names, comma ∉ name) :
    q.parseOption (lit "objPur") ([comma].intercalate names) =
      .ok { q with purpose := some (setBitmap 0 names) } := by
  have hSplit := splitCommaString_intercalate hNames hFree
  unfold Query.parseOption
  rw [hSplit]
  rfl

/-! ## The ledger -/

/-- The names a record was given. -/
structure PurposeLists where
  allowed : List Str
  objected : List Str

/-- The lists of a key after the reply to a request: an acknowledged put gives
a new record its names, an acknowledged metadata update replaces those it
supplies, an acknowledged delete ends them. -/
def PurposeLists.after (req : NamedRequest) (reply : Str) :
    Option PurposeLists → Option PurposeLists
  | none =>
      if req.command = .put ∧ reply = PUT_SUCCESS then
        some ⟨req.purposes.getD req.policyPurposes,
          req.objections.getD req.policyObjections⟩
      else none
  | some lists =>
      if req.command = .delete ∧ reply = DELETE_SUCCESS then none
      else if req.command = .putm ∧ reply = PUTM_SUCCESS then
        some ⟨req.purposes.getD lists.allowed,
          req.objections.getD lists.objected⟩
      else some lists

structure PurposeLists.Known (lists : PurposeLists) : Prop where
  allowed : ∀ n ∈ lists.allowed, KnownPurpose n
  objected : ∀ n ∈ lists.objected, KnownPurpose n

/-- Metadata with the bits of known names, given by their lists. -/
inductive Described : Option Metadata → Option PurposeLists → Prop
  | absent : Described none none
  | record {m : Metadata} {lists : PurposeLists}
      (hPurpose : m.purpose = setBitmap 0 lists.allowed)
      (hObjection : m.objection = setBitmap 0 lists.objected)
      (hKnown : lists.Known) : Described (some m) (some lists)

private theorem getD_map_setBitmap {o : Option (List Str)} (bits : BitVec 64)
    {names : List Str} (h : bits = setBitmap 0 names) :
    (o.map (setBitmap 0)).getD bits = setBitmap 0 (o.getD names) := by
  cases o with
  | none => exact h
  | some _ => rfl

private theorem known_getD {o : Option (List Str)} {names : List Str}
    (ho : ∀ ns ∈ o, ∀ n ∈ ns, KnownPurpose n)
    (hNames : ∀ n ∈ names, KnownPurpose n) :
    ∀ n ∈ o.getD names, KnownPurpose n := by
  cases o with
  | none => exact hNames
  | some ns => exact ho ns rfl

/-- The ledger keeps up with the metadata. -/
theorem Described.after {req : NamedRequest} (hKnown : req.Known)
    {o : Option Record} {l : Option PurposeLists}
    (h : Described (o.map Record.metadata) l) :
    Described (Metadata.after req.command req.toRequest
        (o.map Record.metadata))
      (PurposeLists.after req
        (Record.serve req.command req.toRequest o).1 l) := by
  cases o with
  | none =>
      cases h
      by_cases hPut : req.command = .put
      · simp only [Option.map_none, Metadata.after, Record.serve,
          PurposeLists.after, hPut, if_true, and_self]
        refine .record ?_ ?_ ⟨?_, ?_⟩
        · simp only [QueryRewriter.insertMetadata, req.isPurpose]
          exact getD_map_setBitmap _ req.isPolicyPurpose
        · simp only [QueryRewriter.insertMetadata, req.isObjection]
          exact getD_map_setBitmap _ req.isPolicyObjection
        · exact known_getD hKnown.purposes hKnown.policyPurposes
        · exact known_getD hKnown.objections hKnown.policyObjections
      · simp only [Option.map_none, Metadata.after, PurposeLists.after, hPut,
          if_false, false_and]
        exact .absent
  | some rec =>
      cases h with
      | @record m lists hPurpose hObjection hLists =>
          have hSame : Described (some rec.metadata) (some lists) :=
            .record hPurpose hObjection hLists
          simp only [Option.map_some, Metadata.after, Record.serve]
          cases hPermits : rec.metadata.permits req.toRequest with
          | false =>
              have hDelete : KeyCommand.refused .delete ≠ DELETE_SUCCESS := by
                decide
              have hPutm : KeyCommand.refused .putm ≠ PUTM_SUCCESS := by
                decide
              cases hCommand : req.command <;>
                simpa [PurposeLists.after, hCommand, hDelete, hPutm] using hSame
          | true =>
              cases hCommand : req.command with
              | putm =>
                  simp only [PurposeLists.after, hCommand, if_true, reduceCtorEq,
                    false_and, if_false, and_self]
                  refine .record ?_ ?_ ⟨?_, ?_⟩
                  · simp only [QueryRewriter.putmMetadata, req.isPurpose]
                    exact getD_map_setBitmap _ hPurpose
                  · simp only [QueryRewriter.putmMetadata, req.isObjection]
                    exact getD_map_setBitmap _ hObjection
                  · exact known_getD hKnown.purposes hLists.allowed
                  · exact known_getD hKnown.objections hLists.objected
              | delete => simpa [PurposeLists.after, hCommand] using .absent
              | _ => simpa [PurposeLists.after, hCommand] using hSame

/-- The world, the metadata supplied, and the names given, for every key. -/
structure Ledger extends Tracked where
  lists : Str → Option PurposeLists

namespace Ledger

/-- An empty store. -/
def empty (logs : LogFiles) : Ledger :=
  { Tracked.empty logs with lists := fun _ => none }

/-- Serve one request and enter its reply. -/
def step (env : Environment Store) (s : Ledger) (req : NamedRequest) :
    Option Ledger :=
  match World.serve env req.toRequest s.world with
  | (.error _, _) => none
  | (.ok reply, w) => some
      { world := w
        supplied := Function.update s.supplied req.query.key
          (Metadata.after req.command req.toRequest (s.supplied req.query.key))
        lists := Function.update s.lists req.query.key
          (PurposeLists.after req reply (s.lists req.query.key)) }

/-- A request with known names whose writes are clean. -/
structure KnownStep (s : Ledger) (req : NamedRequest) : Prop where
  known : req.Known
  clean : s.toTracked.CleanStep req.toKeyedRequest

/-- The store is well-formed and the ledger describes it. -/
structure Agrees (s : Ledger) : Prop where
  wellFormed : s.toTracked.WellFormed
  described : ∀ key, Described (s.supplied key) (s.lists key)

theorem first_agrees (logs : LogFiles) : (empty logs).Agrees :=
  ⟨Tracked.first_wellFormed logs, fun _ => .absent⟩

variable (delAbsent : Bool) (log : LogConfig)

theorem Agrees.step {s : Ledger} (h : s.Agrees) {req : NamedRequest}
    (hStep : s.KnownStep req) :
    ∃ s', step (mapEnv delAbsent none log) s req = some s' ∧ s'.Agrees := by
  obtain ⟨o, hKv, hSupplied, hRecords⟩ := h.wellFormed req.query.key
  obtain ⟨hOutcome, _⟩ :=
    serve_record delAbsent log req.isCommand hRecords hKv
  obtain ⟨t, hTracked, hWellFormed⟩ :=
    h.wellFormed.step delAbsent log hStep.clean
  cases hServe : World.serve (mapEnv delAbsent none log) req.toRequest
      s.world with
  | mk outcome w =>
      rw [hServe] at hOutcome
      obtain rfl :
        outcome = .ok (Record.serve req.command req.toRequest o).1 := hOutcome
      simp only [Tracked.step, hServe, Option.some.injEq] at hTracked
      refine ⟨_, by simp only [Ledger.step, hServe]; rfl,
        hTracked ▸ hWellFormed, ?_⟩
      intro key
      by_cases hKey : key = req.query.key
      · subst hKey
        have hBefore := h.described req.query.key
        simp only [Function.update_self, hSupplied]
        exact (hSupplied ▸ hBefore).after hStep.known
      · simp only [Function.update_of_ne hKey]
        exact h.described key

end Ledger

/-! ## Purpose limitation -/

/-- The names a request is made for: its own, or else those of its policy. -/
def NamedRequest.asked (req : NamedRequest) : List Str :=
  if req.condPurposes = [] then req.policyPurposes else req.condPurposes

theorem NamedRequest.Known.asked {req : NamedRequest} (h : req.Known) :
    ∀ n ∈ req.asked, KnownPurpose n := by
  unfold NamedRequest.asked
  split
  · exact h.policyPurposes
  · exact h.condPurposes

/-- The filter tests the bits of the names asked for. -/
theorem NamedRequest.Known.effectivePurposes_eq {req : NamedRequest}
    (h : req.Known) :
    effectivePurposes req.query req.policy = setBitmap 0 req.asked := by
  unfold effectivePurposes NamedRequest.asked
  rw [req.isCondPurpose]
  cases hNames : req.condPurposes with
  | nil => exact req.isPolicyPurpose
  | cons name names =>
      have hMem : getPur name ∈ bitSet (setBitmap 0 (name :: names)) :=
        (getPur_mem_bitSet_iff (hNames ▸ h.condPurposes)
          (h.condPurposes name (by simp [hNames]))).mpr (by simp)
      have hNe : setBitmap 0 (name :: names) ≠ 0 := by
        intro hZero
        rw [hZero] at hMem
        simp at hMem
      rw [if_pos hNe, if_neg (List.cons_ne_nil _ _)]

/-- What a request the filter grants may ask for. -/
def NamedRequest.Allowed (req : NamedRequest) (s : Ledger) : Prop :=
  ∃ lists, s.lists req.query.key = some lists ∧
    ∀ name ∈ req.asked, name ∈ lists.allowed ∧ name ∉ lists.objected

/-- A granted request asks for names on the allowed list of the record, and
for none on its objection list. -/
theorem Ledger.Agrees.allowed {s : Ledger} (h : s.Agrees) {req : NamedRequest}
    {f : GdprFilter} (hKnown : req.Known) (hFinds : Finds none req.toRequest
      s.world f) (hGranted : Validates f req.toRequest) : req.Allowed s := by
  obtain ⟨value, hLookup, hValue⟩ := hFinds
  obtain ⟨m, hSupplied, hDecoded⟩ :=
    (h.wellFormed.decodes req.query.key).2 value hLookup
  obtain rfl : { m with valid := true } = f :=
    Except.ok.inj (hDecoded.symm.trans hValue)
  have hDescribed := h.described req.query.key
  rw [hSupplied] at hDescribed
  cases hLists : s.lists req.query.key with
  | none =>
      rw [hLists] at hDescribed
      cases hDescribed
  | some lists =>
      rw [hLists] at hDescribed
      cases hDescribed with
      | record hPurpose hObjection hListsKnown =>
          obtain ⟨_, hPur, hObj, _⟩ :=
            (GdprFilter.validate_iff rfl _ _ _).mp hGranted
          rw [hKnown.effectivePurposes_eq] at hPur hObj
          refine ⟨lists, hLists, fun name hName => ?_⟩
          have hNameKnown := hKnown.asked name hName
          have hBit : getPur name ∈ bitSet (setBitmap 0 req.asked) :=
            (getPur_mem_bitSet_iff hKnown.asked hNameKnown).mpr hName
          constructor
          · have hAllowed := hPur hBit
            simp only [hPurpose] at hAllowed
            exact (getPur_mem_bitSet_iff hListsKnown.allowed hNameKnown).mp
              hAllowed
          · intro hObjected
            have hBoth : getPur name ∈ bitSet m.objection := by
              rw [hObjection]
              exact (getPur_mem_bitSet_iff hListsKnown.objected
                hNameKnown).mpr hObjected
            exact Set.disjoint_left.mp hObj hBit hBoth

/-- A get that is answered with a value was granted. -/
theorem Ledger.Agrees.get_granted {s : Ledger} (h : s.Agrees)
    (delAbsent : Bool) (log : LogConfig) {req : NamedRequest}
    (hGet : req.command = .get)
    (hReply : (World.serve (mapEnv delAbsent none log) req.toRequest
      s.world).1 ≠ .ok GET_FAILED) :
    ∃ f, Finds none req.toRequest s.world f ∧ Validates f req.toRequest := by
  have hCommand : KeyCommand.ofText req.query.cmd = some .get :=
    hGet ▸ req.isCommand
  cases hKv : s.world.kv req.query.key with
  | none => exact absurd (serve_absent delAbsent log hCommand hKv).1 hReply
  | some value =>
      obtain ⟨m, _, hValue⟩ := (h.wellFormed.decodes req.query.key).2 value hKv
      have hFinds : Finds none req.toRequest s.world { m with valid := true } :=
        ⟨value, hKv, hValue⟩
      refine ⟨_, hFinds, ?_⟩
      by_contra hDenied
      exact hReply (serve_denied delAbsent none log hCommand hFinds hDenied).1

/-- **Purpose limitation by name.** In a run whose requests use known names
only, and write no separator into a free string, every request the filter
grants asks for purposes the record allows and for none it objects to; so
does every get that is answered with anything but `GET_FAILED`. -/
theorem purposes_respected (delAbsent : Bool) (log : LogConfig)
    (logs : LogFiles) {reqs : List NamedRequest}
    (hSteps : AllSteps (Ledger.step (mapEnv delAbsent none log))
      Ledger.KnownStep reqs (Ledger.empty logs)) :
    ∃ s, run (Ledger.step (mapEnv delAbsent none log)) reqs
        (Ledger.empty logs) = some s ∧
      (∀ (req : NamedRequest) (f : GdprFilter), req.Known →
        Finds none req.toRequest s.world f → Validates f req.toRequest →
        req.Allowed s) ∧
      ∀ req : NamedRequest, req.Known → req.command = .get →
        (World.serve (mapEnv delAbsent none log) req.toRequest s.world).1 ≠
          .ok GET_FAILED → req.Allowed s := by
  obtain ⟨s, hRun, hAgrees⟩ := run_progress
    (fun s req hInv hHere => Ledger.Agrees.step delAbsent log hInv hHere)
    hSteps (Ledger.first_agrees logs)
  refine ⟨s, hRun, fun req f hKnown => hAgrees.allowed hKnown, ?_⟩
  intro req hKnown hGet hReply
  obtain ⟨f, hFinds, hGranted⟩ :=
    hAgrees.get_granted delAbsent log hGet hReply
  exact hAgrees.allowed hKnown hFinds hGranted

/-- A record that allows `purpose0` is returned to a get made for
`marketing`, a name nobody allowed. -/
theorem unknown_purpose_granted :
    ∃ (put get : Query),
      Query.ofText
        (lit "query(PUT(\"k\",\"VAL\"))&objPur(\"purpose0\")") = .ok put ∧
      Query.ofText
        (lit "query(GET(\"k\"))&objPurIs(\"marketing\")") = .ok get ∧
      (World.serveAll (mapEnv true none ⟨lit "logs", none⟩)
        [⟨put, alicePolicy, Readings.constant 0⟩,
          ⟨get, alicePolicy, Readings.constant 0⟩] ⟨fun _ => none, []⟩).1 =
        [.ok PUT_SUCCESS, .ok (lit "VAL")] ∧
      lit "marketing" ∉ [lit "purpose0"] := by
  refine ⟨{ cmd := lit "put", key := lit "k", value := lit "VAL",
            purpose := some 1 },
    { cmd := lit "get", key := lit "k", condPurpose := 1 }, ?_, ?_, ?_, ?_⟩ <;>
    decide +kernel

/-- Alice's put of a record that allows `purpose1`. -/
def alicePutNamed : NamedRequest where
  query := { cmd := lit "put", key := lit "k", value := lit "VAL"
             purpose := some (setBitmap 0 [purposeName 1]) }
  policy := { alicePolicy with
    purpose := setBitmap 0 [purposeName 1], objection := setBitmap 0 [] }
  readings := Readings.constant 0
  command := .put
  purposes := some [purposeName 1]
  objections := none
  condPurposes := []
  policyPurposes := [purposeName 1]
  policyObjections := []
  isCommand := by decide
  isPurpose := rfl
  isObjection := rfl
  isCondPurpose := rfl
  isPolicyPurpose := rfl
  isPolicyObjection := rfl

/-- `purposes_respected` after alice's put. -/
theorem purposes_respected_alice :
    ∃ s, run (Ledger.step (mapEnv true none ⟨lit "logs", none⟩))
        [alicePutNamed] (Ledger.empty []) = some s ∧
      (∀ (req : NamedRequest) (f : GdprFilter), req.Known →
        Finds none req.toRequest s.world f → Validates f req.toRequest →
        req.Allowed s) ∧
      ∀ req : NamedRequest, req.Known → req.command = .get →
        (World.serve (mapEnv true none ⟨lit "logs", none⟩) req.toRequest
          s.world).1 ≠ .ok GET_FAILED → req.Allowed s := by
  refine purposes_respected true ⟨lit "logs", none⟩ []
    ⟨⟨⟨?_, ?_, ?_, ?_, ?_⟩, ⟨fun _ _ => ?_, fun hPutm => nomatch hPutm⟩⟩,
      fun _ _ => trivial⟩
  · intro names hNames n hn
    obtain rfl : [purposeName 1] = names := Option.some.inj hNames
    exact ⟨1, by decide, List.mem_singleton.mp hn⟩
  · intro names hNames
    cases hNames
  · intro n hn
    cases hn
  · intro n hn
    exact ⟨1, by decide, List.mem_singleton.mp hn⟩
  · intro n hn
    cases hn
  · exact ⟨by decide, by decide, by decide⟩

end GDPRuler.Controller
