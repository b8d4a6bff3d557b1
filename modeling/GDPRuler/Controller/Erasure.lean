import GDPRuler.Controller.Ownership

/-!
# Erasing one's data

The rule for deletion asks for the session key only.  `handle_delete` asks the
filter for its whole verdict, so an owner can be kept from erasing a record by
what the record says of purposes, objections and expiration:
`owner_erases_iff` gives the exact condition.

An owner's connection also names purposes without being asked to, those of its
default policy.  A record that objects to one of them, or that has expired,
is one its owner cannot delete.
-/

namespace GDPRuler.Controller

open GDPRuler.Verified.BitSet

/-- Nothing but the owner's key is needed: the filter accepts the record, its
purposes and objections do not concern the request, and it has not expired. -/
structure Unrestricted (value : Str) (req : Request) (f : GdprFilter) :
    Prop where
  accepted : GdprFilter.ofValue (some value) = .ok f
  purposes : bitSet (effectivePurposes req.query req.policy) ⊆ bitSet f.purpose
  objections : Disjoint (bitSet (effectivePurposes req.query req.policy))
    (bitSet f.objection)
  fresh : f.expiration = 0 ∨ seconds req.readings.validateTime ≤ f.expiration

/-- For its owner, a request is granted exactly if it is unrestricted. -/
theorem validates_owner_iff {value : Str} {f : GdprFilter}
    (hValue : GdprFilter.ofValue (some value) = .ok f) {req : Request}
    (hOwner : ownerField value =
      some (effectiveUserKey req.query req.policy)) :
    Validates f req ↔ Unrestricted value req f := by
  have hUser : effectiveUserKey req.query req.policy = f.userKey := by
    rw [ownerField_of_ofValue hValue, Option.some.injEq] at hOwner
    exact hOwner.symm
  unfold Validates
  rw [GdprFilter.validate_iff (GdprFilter.ofValue_eq_ok hValue).1]
  constructor
  · rintro ⟨_, hPur, hObj, hExp⟩
    exact ⟨hValue, hPur, hObj, hExp⟩
  · intro h
    exact ⟨.inl hUser, h.purposes, h.objections, h.fresh⟩

section Erasure

variable (delAbsent : Bool) (cipher : Option Cipher) (log : LogConfig)

/-- The request removed its key's record and said so. -/
def Erases (req : Request) (w : World Store) : Prop :=
  (World.serve (mapEnv delAbsent cipher log) req w).1 = .ok DELETE_SUCCESS ∧
    (World.serve (mapEnv delAbsent cipher log) req w).2.kv req.query.key = none

/-- A granted delete erases. -/
theorem erases_of_granted {req : Request}
    (hCommand : KeyCommand.ofText req.query.cmd = some .delete)
    {w : World Store} {value : Str} {f : GdprFilter}
    (hLookup : KvClient.lookup cipher w.kv req.query.key = some value)
    (hValue : GdprFilter.ofValue (some value) = .ok f)
    (hGranted : Validates f req) : Erases delAbsent cipher log req w := by
  have hSome : (w.kv req.query.key).isSome = true := by
    cases hKv : w.kv req.query.key with
    | some stored => rfl
    | none =>
        cases cipher <;> simp [KvClient.lookup, hKv] at hLookup
  unfold Erases
  rw [World.serve_keyed delAbsent cipher log hCommand, hLookup,
    plan_granted hValue hGranted]
  simp only [grantedPlan, World.carryOut, Plan.outcome, Plan.kv, Write.apply,
    KvClient.gdprDel_mapClient, hSome, if_true, Function.update_self]
  exact ⟨trivial, trivial⟩

/-- **Erasure.** An owner's delete erases the record exactly if the request is
unrestricted. -/
theorem owner_erases_iff {req : Request} (hCmd : req.query.cmd = lit "delete")
    {w : World Store} {value : Str}
    (hLookup : KvClient.lookup cipher w.kv req.query.key = some value)
    (hOwner : ownerField value =
      some (effectiveUserKey req.query req.policy)) :
    Erases delAbsent cipher log req w ↔ ∃ f, Unrestricted value req f := by
  have hCommand : KeyCommand.ofText req.query.cmd = some .delete := by
    rw [hCmd]
    decide
  cases hValue : GdprFilter.ofValue (some value) with
  | error e =>
      have hRaises : (World.serve (mapEnv delAbsent cipher log) req w).1 =
          .error e := by
        rw [World.serve_keyed delAbsent cipher log hCommand, hLookup,
          plan_error hValue]
        rfl
      refine iff_of_false (fun h => ?_) ?_
      · cases hRaises.symm.trans h.1
      · rintro ⟨f, h⟩
        cases hValue.symm.trans h.accepted
  | ok f =>
      constructor
      · intro hErases
        refine ⟨f, (validates_owner_iff hValue hOwner).mp ?_⟩
        by_contra hDenied
        obtain ⟨hReply, _⟩ := serve_denied delAbsent cipher log hCommand
          ⟨value, hLookup, hValue⟩ hDenied
        have hSame : deleteRefused = DELETE_SUCCESS :=
          Except.ok.inj (hReply.symm.trans hErases.1)
        exact absurd hSame (by decide)
      · rintro ⟨f', h⟩
        obtain rfl : f = f' := Except.ok.inj (hValue.symm.trans h.accepted)
        exact erases_of_granted delAbsent cipher log hCommand hLookup hValue
          ((validates_owner_iff hValue hOwner).mpr h)

end Erasure

/-! ## An owner is refused -/

/-- Alice's delete of `k`. -/
def aliceDelete : Request :=
  ⟨{ cmd := lit "delete", key := lit "k" }, alicePolicy, Readings.constant 0⟩

/-- Alice's put of a record that objects to the purpose of her own policy. -/
def aliceObjectingPut : Request :=
  ⟨{ cmd := lit "put", key := lit "k", value := lit "VAL"
     objection := some 2 }, alicePolicy, Readings.constant 0⟩

/-- Alice puts the record and cannot delete it again. -/
theorem owner_cannot_erase :
    Query.ofText
      (lit "query(PUT(\"k\",\"VAL\"))&objObjections(\"purpose1\")") =
      .ok aliceObjectingPut.query ∧
    Query.ofText (lit "query(DELETE(\"k\"))") = .ok aliceDelete.query ∧
    ((World.serveAll (mapEnv true none ⟨lit "logs", none⟩)
      [aliceObjectingPut] ⟨fun _ => none, []⟩).2.kv (lit "k")).bind
        ownerField = some (effectiveUserKey aliceDelete.query alicePolicy) ∧
    (World.serveAll (mapEnv true none ⟨lit "logs", none⟩)
      [aliceObjectingPut, aliceDelete] ⟨fun _ => none, []⟩).1 =
        [.ok PUT_SUCCESS, .ok deleteRefused] ∧
    ((World.serveAll (mapEnv true none ⟨lit "logs", none⟩)
      [aliceObjectingPut, aliceDelete] ⟨fun _ => none, []⟩).2.kv
        (lit "k")).isSome = true := by
  refine ⟨by decide +kernel, by decide +kernel, by decide +kernel,
    by decide +kernel, by decide +kernel⟩

/-- `owner_erases_iff` at a record without objections. -/
theorem owner_erases_alice :
    Erases true none ⟨lit "logs", none⟩ aliceDelete
      ⟨fun _ => some (lit "alice|0|2|0|home|0||1|VAL"), []⟩ := by
  have hValue : GdprFilter.ofValue
      (some (lit "alice|0|2|0|home|0||1|VAL")) =
        .ok { userKey := lit "alice", purpose := 2, origin := lit "home"
              monitor := true, valid := true } := by decide +kernel
  have hOwner : ownerField (lit "alice|0|2|0|home|0||1|VAL") =
      some (effectiveUserKey aliceDelete.query aliceDelete.policy) := by
    decide +kernel
  have hUnrestricted := (validates_owner_iff hValue hOwner).mp (by decide)
  exact (owner_erases_iff true none ⟨lit "logs", none⟩ rfl rfl hOwner).mpr
    ⟨_, hUnrestricted⟩

end GDPRuler.Controller
