import GDPRuler.Verified.BitSet
import GDPRuler.Controller.Query
import GDPRuler.Controller.Record

/-!
# The filter

`gdpr_filter` decodes the metadata of a stored record by position and decides
whether a request may touch the record.

Decoding undoes `Metadata.encode` for clean metadata, whatever the value
(`ofValue_encode`).  The decision is compared with its statement over sets,
`Grants`: owner or named user, purposes included and not objected to, not
expired.  The two differ in one case only, described by `NamelessUser`: the
token loop over the share list also yields empty tokens, and a client whose
user key is empty equals them.
-/

namespace GDPRuler.Controller

open GDPRuler.Verified.Delim GDPRuler.Verified.BitSet

/-! ## Decoding -/

/-- The fields of a record in order of occurrence. -/
inductive MetadataField
  | usr | encr | pur | obj | org | exp | shr | log | val
  deriving DecidableEq

/-- `case` labels: the field a loop counter stands for. -/
def MetadataField.ofCount (count : Nat) : Option MetadataField :=
  [usr, encr, pur, obj, org, exp, shr, log, val][count]?

structure GdprFilter extends Metadata where
  valid : Bool := false
  deriving DecidableEq

namespace GdprFilter

/-- Field number `count` has text `token`. -/
def setField (count : Nat) (token : Str) (f : GdprFilter) :
    Except Exn GdprFilter :=
  match MetadataField.ofCount count with
  | some .usr => .ok { f with userKey := token }
  | some .encr => .ok { f with encryption := token == lit "1" }
  | some .pur => do
      let bits ← stoull token
      return { f with purpose := bits }
  | some .obj => do
      let bits ← stoull token
      return { f with objection := bits }
  | some .org => .ok { f with origin := token }
  | some .exp => do
      let expiration ← stoll token
      return { f with expiration := expiration }
  | some .shr => .ok { f with share := token }
  | some .log => .ok { f with monitor := token == lit "1" }
  | _ => .ok f

/-- The constructor, on the result of a lookup. -/
def ofValue : Option Str → Except Exn GdprFilter
  | none => .ok {}
  | some value => do
      let (count, _, f) ←
        scan bar setField metadataPrefixFields 0 value { valid := true }
      if count ≠ metadataPrefixFields then
        .error (.invalidArgument (lit "Invalid GDPR metadata format"))
      else
        return f

theorem steps_setField_fields (m : Metadata) :
    steps setField 0 m.fields { valid := true } = .ok { m with valid := true } := by
  simp [Metadata.fields, steps, setField, MetadataField.ofCount,
    flagText_eq_one, bind, Except.bind, pure, Except.pure]

/-- Clean metadata is decoded as written, whatever the value. -/
theorem ofValue_encode {m : Metadata} (h : m.Clean) (value : Str) :
    ofValue (some (m.encode value)) = .ok { m with valid := true } := by
  have hScan : scan bar setField metadataPrefixFields 0 (m.encode value)
      { valid := true } = .ok (8, value, { m with valid := true }) := by
    have hJoin := scan_joinFields setField m.fields h.fields 0 0 value
      { valid := true }
    rw [steps_setField_fields] at hJoin
    exact hJoin
  rw [ofValue, hScan]
  rfl

theorem setField_valid {count : Nat} {token : Str} {f f' : GdprFilter}
    (h : setField count token f = .ok f') : f'.valid = f.valid := by
  unfold setField at h
  split at h
  case h_3 | h_4 =>
    cases hNum : stoull token with
    | error e => simp [hNum, bind, Except.bind] at h
    | ok bits =>
        simp only [hNum, bind, Except.bind, pure, Except.pure,
          Except.ok.injEq] at h
        exact h ▸ rfl
  case h_6 =>
    cases hNum : stoll token with
    | error e => simp [hNum, bind, Except.bind] at h
    | ok expiration =>
        simp only [hNum, bind, Except.bind, pure, Except.pure,
          Except.ok.injEq] at h
        exact h ▸ rfl
  all_goals
    simp only [Except.ok.injEq] at h
    exact h ▸ rfl

theorem steps_setField_valid {fields : List Str} {i : Nat}
    {f f' : GdprFilter} (h : steps setField i fields f = .ok f') :
    f'.valid = f.valid := by
  induction fields generalizing i f with
  | nil =>
      simp only [steps, Except.ok.injEq] at h
      exact h ▸ rfl
  | cons field fields ih =>
      cases hField : setField i field f with
      | error e => simp [steps, hField] at h
      | ok next =>
          simp only [steps, hField] at h
          rw [ih h, setField_valid hField]

/-- An accepted record has eight separator-free fields in front of its
value, and the filter is marked as holding one. -/
theorem ofValue_eq_ok {value : Str} {f : GdprFilter}
    (h : ofValue (some value) = .ok f) :
    f.valid = true ∧ ∃ (fields : List Str) (rest : Str),
      value = joinFields bar fields rest ∧ fields.length = 8 ∧
      (∀ field ∈ fields, bar ∉ field) ∧
      steps setField 0 fields { valid := true } = .ok f := by
  cases hScan : scan bar setField metadataPrefixFields 0 value
      { valid := true } with
  | error e =>
      rw [ofValue, hScan] at h
      cases h
  | ok result =>
      obtain ⟨count, rest, g⟩ := result
      rw [ofValue, hScan] at h
      simp only [bind, Except.bind] at h
      by_cases hCount : count = metadataPrefixFields
      · simp only [hCount, ne_eq, not_true_eq_false, if_false, pure,
          Except.pure, Except.ok.injEq] at h
        subst h
        obtain ⟨fields, hValue, hFree, hLen, _, hSteps, _⟩ := scan_eq_ok hScan
        refine ⟨?_, fields, rest, hValue, ?_, hFree, hSteps⟩
        · rw [steps_setField_valid hSteps]
        · simpa [metadataPrefixFields] using (hLen.symm.trans hCount)
      · simp [hCount] at h

/-- What the fields of an accepted record decode to. -/
theorem steps_setField_eq_ok {user encr pur obj org exp shr mon : Str}
    {f : GdprFilter}
    (h : steps setField 0 [user, encr, pur, obj, org, exp, shr, mon]
      { valid := true } = .ok f) :
    ∃ purpose objection expiration,
      stoull pur = .ok purpose ∧ stoull obj = .ok objection ∧
      stoll exp = .ok expiration ∧
      f = { userKey := user, encryption := encr == lit "1"
            purpose := purpose, objection := objection, origin := org
            expiration := expiration, share := shr
            monitor := mon == lit "1", valid := true } := by
  simp only [steps, setField, MetadataField.ofCount] at h
  cases hPur : stoull pur with
  | error e => simp [hPur, bind, Except.bind] at h
  | ok purpose =>
      cases hObj : stoull obj with
      | error e => simp [hPur, hObj, bind, Except.bind, pure, Except.pure] at h
      | ok objection =>
          cases hExp : stoll exp with
          | error e => simp [hPur, hObj, hExp, bind, Except.bind, pure,
              Except.pure] at h
          | ok expiration =>
              simp [hPur, hObj, hExp, bind, Except.bind, pure,
                Except.pure] at h
              exact ⟨purpose, objection, expiration, rfl, rfl, rfl, h.symm⟩

/-- An accepted record begins with its owner; the other fields, free of
separators as well, follow. -/
theorem ofValue_first {value : Str} {f : GdprFilter}
    (h : ofValue (some value) = .ok f) :
    ∃ fields rest, value = f.userKey ++ bar :: joinFields bar fields rest ∧
      fields.length = 7 ∧ ∀ field ∈ f.userKey :: fields, bar ∉ field := by
  obtain ⟨_, fields, rest, hText, hLen, hFree, hSteps⟩ := ofValue_eq_ok h
  match fields, hLen with
  | [user, encr, pur, obj, org, exp, shr, mon], _ =>
      obtain ⟨_, _, _, _, _, _, rfl⟩ := steps_setField_eq_ok hSteps
      exact ⟨[encr, pur, obj, org, exp, shr, mon], rest, hText, rfl, hFree⟩

/-- What the filter accepts, it decodes as clean metadata. -/
theorem clean_of_ofValue {value : Str} {f : GdprFilter}
    (h : ofValue (some value) = .ok f) : f.toMetadata.Clean := by
  obtain ⟨_, fields, _, _, hLen, hFree, hSteps⟩ := ofValue_eq_ok h
  match fields, hLen with
  | [user, encr, pur, obj, org, exp, shr, mon], _ =>
      obtain ⟨_, _, _, _, _, _, rfl⟩ := steps_setField_eq_ok hSteps
      exact ⟨hFree user (by simp), hFree org (by simp), hFree shr (by simp)⟩

/-- A record is decoded as it was put together exactly if its free strings
hold no separator. -/
theorem ofValue_encode_iff (m : Metadata) (value : Str) :
    ofValue (some (m.encode value)) = .ok { m with valid := true } ↔ m.Clean :=
  ⟨fun h => clean_of_ofValue h, fun h => ofValue_encode h value⟩

/-! ## The decision -/

/-- The loop over the share list. -/
def shareLoop (userKey : Str) : Nat → Str → Bool
  | 0, share => userKey == share
  | n + 1, share =>
      match cut comma share with
      | none => userKey == share
      | some (token, rest) =>
          if userKey == token then true else shareLoop userKey n rest

def validateSessionKey (f : GdprFilter) (queryUserKey : Option Str)
    (defUserKey : Str) : Bool :=
  let userKey := queryUserKey.getD defUserKey
  if userKey == f.userKey then true
  else shareLoop userKey f.share.length f.share

def validatePur (f : GdprFilter) (queryPur defPur : BitVec 64) : Bool :=
  if queryPur ≠ 0 then (f.purpose &&& queryPur) == queryPur
  else (f.purpose &&& defPur) == defPur

def validateObj (f : GdprFilter) (queryPur defPur : BitVec 64) : Bool :=
  if queryPur ≠ 0 then (f.objection &&& queryPur) == 0
  else (f.objection &&& defPur) == 0

/-- `now` is the clock in nanoseconds, compared in seconds. -/
def validateExpTime (f : GdprFilter) (now : Int64) : Bool :=
  if f.expiration = 0 then true else decide (seconds now ≤ f.expiration)

def validate (f : GdprFilter) (q : Query) (p : DefaultPolicy) (now : Int64) :
    Bool :=
  if !f.valid then false
  else if !f.validateSessionKey q.userKey p.userKey then false
  else if !f.validatePur q.condPurpose p.purpose then false
  else if !f.validateObj q.condPurpose p.purpose then false
  else if !f.validateExpTime now then false
  else true

def checkMonitoring (f : GdprFilter) : Bool := f.monitor

end GdprFilter

/-! ## The decision over sets -/

/-- The user a request acts as. -/
def effectiveUserKey (q : Query) (p : DefaultPolicy) : Str :=
  q.userKey.getD p.userKey

/-- The purposes a request is made for. -/
def effectivePurposes (q : Query) (p : DefaultPolicy) : BitVec 64 :=
  if q.condPurpose ≠ 0 then q.condPurpose else p.purpose

/-- The users a share list names; an empty item names nobody. -/
def sharedWith (share : Str) : Set Str :=
  {user | user ∈ share.splitOn comma ∧ user ≠ []}

/-- What access to a record requires of a request. -/
structure Grants (m : Metadata) (q : Query) (p : DefaultPolicy)
    (now : Int64) : Prop where
  user : effectiveUserKey q p = m.userKey ∨
    effectiveUserKey q p ∈ sharedWith m.share
  purposes : bitSet (effectivePurposes q p) ⊆ bitSet m.purpose
  objections : Disjoint (bitSet (effectivePurposes q p)) (bitSet m.objection)
  fresh : m.expiration = 0 ∨ seconds now ≤ m.expiration

/-- The one case the decision gets wrong: a client with an empty user key,
not the owner, at a share list with an empty item, with nothing else to
stop it. -/
structure NamelessUser (m : Metadata) (q : Query) (p : DefaultPolicy)
    (now : Int64) : Prop where
  nameless : effectiveUserKey q p = []
  notOwner : m.userKey ≠ []
  emptyItem : [] ∈ m.share.splitOn comma
  purposes : bitSet (effectivePurposes q p) ⊆ bitSet m.purpose
  objections : Disjoint (bitSet (effectivePurposes q p)) (bitSet m.objection)
  fresh : m.expiration = 0 ∨ seconds now ≤ m.expiration

namespace GdprFilter

theorem shareLoop_eq (userKey : Str) (n : Nat) (share : Str) :
    shareLoop userKey n share = true ↔ userKey ∈ tokens comma n share := by
  induction n generalizing share with
  | zero => simp [shareLoop, tokens]
  | succ n ih =>
      cases hCut : cut comma share with
      | none => simp [shareLoop, tokens, hCut]
      | some parts =>
          obtain ⟨token, rest⟩ := parts
          simp [shareLoop, tokens, hCut, ih]

theorem validateSessionKey_iff (f : GdprFilter) (q : Query)
    (p : DefaultPolicy) :
    f.validateSessionKey q.userKey p.userKey = true ↔
      effectiveUserKey q p = f.userKey ∨
        effectiveUserKey q p ∈ f.share.splitOn comma := by
  rw [← tokens_eq_splitOn (Nat.le_refl _), ← shareLoop_eq]
  simp [validateSessionKey, effectiveUserKey]

theorem validatePur_iff (f : GdprFilter) (q : Query) (p : DefaultPolicy) :
    f.validatePur q.condPurpose p.purpose = true ↔
      bitSet (effectivePurposes q p) ⊆ bitSet f.purpose := by
  rw [← and_eq_right_iff]
  unfold validatePur effectivePurposes
  split <;> exact beq_iff_eq

theorem validateObj_iff (f : GdprFilter) (q : Query) (p : DefaultPolicy) :
    f.validateObj q.condPurpose p.purpose = true ↔
      Disjoint (bitSet (effectivePurposes q p)) (bitSet f.objection) := by
  rw [← and_eq_zero_iff]
  unfold validateObj effectivePurposes
  split <;> exact beq_iff_eq

theorem validateExpTime_iff (f : GdprFilter) (now : Int64) :
    f.validateExpTime now = true ↔
      f.expiration = 0 ∨ seconds now ≤ f.expiration := by
  unfold validateExpTime
  split <;> rename_i h <;> simp [h]

/-- The decision, one test at a time. -/
theorem validate_iff {f : GdprFilter} (hValid : f.valid = true) (q : Query)
    (p : DefaultPolicy) (now : Int64) :
    f.validate q p now = true ↔
      (effectiveUserKey q p = f.userKey ∨
        effectiveUserKey q p ∈ f.share.splitOn comma) ∧
      bitSet (effectivePurposes q p) ⊆ bitSet f.purpose ∧
      Disjoint (bitSet (effectivePurposes q p)) (bitSet f.objection) ∧
      (f.expiration = 0 ∨ seconds now ≤ f.expiration) := by
  rw [← validateSessionKey_iff, ← validatePur_iff, ← validateObj_iff,
    ← validateExpTime_iff]
  simp only [validate, hValid]
  cases f.validateSessionKey q.userKey p.userKey <;>
    cases f.validatePur q.condPurpose p.purpose <;>
    cases f.validateObj q.condPurpose p.purpose <;>
    cases f.validateExpTime now <;> simp

/-- **Access decision.** On an accepted record the filter grants exactly
what `Grants` does, but for the nameless user. -/
theorem validate_iff_grants_iff {value : Str} {f : GdprFilter}
    (hValue : ofValue (some value) = .ok f) (q : Query) (p : DefaultPolicy)
    (now : Int64) :
    (f.validate q p now = true ↔ Grants f.toMetadata q p now) ↔
      ¬ NamelessUser f.toMetadata q p now := by
  rw [validate_iff (ofValue_eq_ok hValue).1]
  constructor
  · intro hIff hNameless
    have hGrants : Grants f.toMetadata q p now :=
      hIff.mp ⟨.inr (hNameless.nameless ▸ hNameless.emptyItem),
        hNameless.purposes, hNameless.objections, hNameless.fresh⟩
    rcases hGrants.user with hOwner | hShared
    · exact hNameless.notOwner (hOwner.symm.trans hNameless.nameless)
    · exact hShared.2 hNameless.nameless
  · intro hNot
    constructor
    · rintro ⟨hUser, hPur, hObj, hExp⟩
      refine ⟨?_, hPur, hObj, hExp⟩
      rcases hUser with hOwner | hItem
      · exact .inl hOwner
      · by_cases hEmpty : effectiveUserKey q p = []
        · by_cases hOwner : f.userKey = []
          · exact .inl (hEmpty.trans hOwner.symm)
          · exact absurd ⟨hEmpty, hOwner, hEmpty ▸ hItem, hPur, hObj, hExp⟩
              hNot
        · exact .inr ⟨hItem, hEmpty⟩
    · intro hGrants
      exact ⟨hGrants.user.imp id And.left, hGrants.purposes,
        hGrants.objections, hGrants.fresh⟩

/-- A request with `sessionKey("")` that names a purpose of a stranger's
unshared record: granted, although the record names nobody but its owner. -/
theorem nameless_user_granted :
    ∃ (f : GdprFilter) (q : Query),
      ofValue (some (lit "alice|0|2|0|home|0||0|secret")) = .ok f ∧
      Query.ofText
        (lit "query(GET(\"k\"))&sessionKey(\"\")&objPurIs(\"purpose1\")") =
          .ok q ∧
      f.validate q ⟨lit "bob", false, 0, 0, [], 0, [], false⟩ 0 = true ∧
      ¬ Grants f.toMetadata q ⟨lit "bob", false, 0, 0, [], 0, [], false⟩ 0 := by
  refine ⟨{ userKey := lit "alice", purpose := 2, origin := lit "home",
            valid := true },
    { cmd := lit "get", key := lit "k", userKey := some [],
      condPurpose := 2 },
    by decide +kernel, by decide +kernel, by decide +kernel, ?_⟩
  intro h
  rcases h.user with hOwner | hShared
  · exact absurd hOwner (by decide)
  · exact hShared.2 rfl

/-- The owner's own request: the filter and `Grants` agree. -/
theorem validate_iff_grants_owner :
    ({ userKey := lit "alice", valid := true } : GdprFilter).validate
        { userKey := some (lit "alice") }
        ⟨lit "bob", false, 0, 0, [], 0, [], false⟩ 0 = true ↔
      Grants { userKey := lit "alice" } { userKey := some (lit "alice") }
        ⟨lit "bob", false, 0, 0, [], 0, [], false⟩ 0 := by
  have hValue : ofValue (some (lit "alice|0|0|0||0||0|v")) =
      .ok { userKey := lit "alice", valid := true } := by
    decide +kernel
  exact (validate_iff_grants_iff hValue _ _ 0).mpr
    fun h => absurd h.nameless (by decide)

end GdprFilter

end GDPRuler.Controller
