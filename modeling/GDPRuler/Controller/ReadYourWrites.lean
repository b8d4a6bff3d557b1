import GDPRuler.Controller.Plans

/-!
# Read your writes

A put that was acknowledged left its value at the end of the record, behind a
separator, whichever rewriter built the record.  A granted get returns what
`remove_gdpr_metadata` makes of the record, which is the value exactly when it
is not empty and holds no separator.
-/

namespace GDPRuler.Controller

section ReadYourWrites

variable (delAbsent : Bool) (log : LogConfig)

/-- After an acknowledged put the key's record ends in the value. -/
theorem put_success {req : Request} (hCmd : req.query.cmd = lit "put")
    {w w' : World Store}
    (hPut : World.serve (mapEnv delAbsent none log) req w =
      (.ok PUT_SUCCESS, w')) :
    ∃ front, w'.kv req.query.key = some (front ++ bar :: req.query.value) := by
  have hCommand : KeyCommand.ofText req.query.cmd = some .put := by
    rw [hCmd]
    decide
  rw [World.serve_keyed delAbsent none log hCommand, KvClient.lookup_plain]
    at hPut
  cases hKv : w.kv req.query.key with
  | none =>
      rw [hKv] at hPut
      obtain ⟨front, hFront⟩ := QueryRewriter.insert_eq_append req.query
        req.policy req.query.value req.readings.rewriteTime
      have hStore := congrArg (fun x => x.2.kv req.query.key) hPut
      simp only [plan, absentPlan, World.carryOut, Plan.kv, Write.apply,
        KvClient.gdprPut_plain, Function.update_self] at hStore
      exact ⟨front, by rw [← hStore, hFront]⟩
  | some value =>
      rw [hKv] at hPut
      cases hValue : GdprFilter.ofValue (some value) with
      | error e =>
          rw [plan_error hValue] at hPut
          cases (Prod.mk.inj hPut).1
      | ok f =>
          cases hValid : f.validate req.query req.policy
              req.readings.validateTime with
          | false =>
              rw [plan_denied hValue hValid] at hPut
              have hReply := Except.ok.inj (Prod.mk.inj hPut).1
              exact absurd hReply (show PUT_FAILED ≠ PUT_SUCCESS by decide)
          | true =>
              rw [plan_granted hValue hValid] at hPut
              obtain ⟨front, hFront⟩ :=
                QueryRewriter.update_eq_append value req.query.value
              have hStore := congrArg (fun x => x.2.kv req.query.key) hPut
              simp only [grantedPlan, World.carryOut, Plan.kv, Write.apply,
                KvClient.gdprPut_plain, Function.update_self] at hStore
              exact ⟨front, by rw [← hStore, hFront]⟩

/-- A granted get returns the record without its metadata. -/
theorem get_granted {req : Request} (hCmd : req.query.cmd = lit "get")
    {w : World Store} {value : Str} {f : GdprFilter}
    (hKv : w.kv req.query.key = some value)
    (hValue : GdprFilter.ofValue (some value) = .ok f)
    (hGranted : f.validate req.query req.policy req.readings.validateTime =
      true) :
    (World.serve (mapEnv delAbsent none log) req w).1 =
      .ok (removeGdprMetadata value) := by
  have hCommand : KeyCommand.ofText req.query.cmd = some .get := by
    rw [hCmd]
    decide
  rw [World.serve_keyed delAbsent none log hCommand, KvClient.lookup_plain,
    hKv, plan_granted hValue hGranted]
  rfl

/-- **Read your writes.** In every store: the get that follows an
acknowledged put, with requests on other keys between, returns the value put
exactly if that is not empty and holds no separator. -/
theorem read_your_writes_iff {put get : Request}
    (hPutCmd : put.query.cmd = lit "put") (hGetCmd : get.query.cmd = lit "get")
    (hKey : get.query.key = put.query.key) {w w' : World Store}
    (hPut : World.serve (mapEnv delAbsent none log) put w =
      (.ok PUT_SUCCESS, w'))
    (others : List Request)
    (hOthers : ∀ req ∈ others, ¬ req.OnKey put.query.key)
    {value : Str} {f : GdprFilter}
    (hRecord : (World.serveAll (mapEnv delAbsent none log) others w').2.kv
      put.query.key = some value)
    (hValue : GdprFilter.ofValue (some value) = .ok f)
    (hGranted : f.validate get.query get.policy get.readings.validateTime =
      true) :
    (World.serve (mapEnv delAbsent none log) get
        (World.serveAll (mapEnv delAbsent none log) others w').2).1 =
      .ok put.query.value ↔ put.query.value ≠ [] ∧ bar ∉ put.query.value := by
  obtain ⟨front, hFront⟩ := put_success delAbsent log hPutCmd hPut
  have hSame := World.serveAll_kv_of_not_onKey delAbsent none log others w'
    hOthers
  have hText : value = front ++ bar :: put.query.value := by
    rw [hSame, hFront, Option.some.injEq] at hRecord
    exact hRecord.symm
  rw [get_granted delAbsent log hGetCmd (hKey ▸ hRecord) hValue hGranted,
    Except.ok.injEq, hText]
  exact removeGdprMetadata_append_iff front put.query.value

end ReadYourWrites

/-- A put of `value` at `k`, as alice. -/
def alicePut (value : Str) : Request :=
  ⟨{ cmd := lit "put", key := lit "k", value := value }, alicePolicy,
    Readings.constant 0⟩

/-- A get of `k`, as alice. -/
def aliceGet : Request :=
  ⟨{ cmd := lit "get", key := lit "k" }, alicePolicy, Readings.constant 0⟩

/-- Of `a|b`, put into an empty store and acknowledged, a granted get returns
`b`. -/
theorem separator_cut_off :
    Query.ofText (lit "query(PUT(\"k\",\"a|b\"))") =
      .ok (alicePut (lit "a|b")).query ∧
    (World.serveAll (mapEnv true none ⟨lit "logs", none⟩)
      [alicePut (lit "a|b"), aliceGet] ⟨fun _ => none, []⟩).1 =
        [.ok PUT_SUCCESS, .ok (lit "b")] ∧
    (GdprFilter.ofValue
        ((World.serve (mapEnv true none ⟨lit "logs", none⟩)
          (alicePut (lit "a|b")) ⟨fun _ => none, []⟩).2.kv (lit "k"))).map
      (fun f => f.validate aliceGet.query alicePolicy 0) = .ok true := by
  refine ⟨by decide +kernel, by decide +kernel, by decide +kernel⟩

/-- A put at another key, as alice. -/
def alicePutElsewhere : Request :=
  ⟨{ cmd := lit "put", key := lit "l" }, alicePolicy, Readings.constant 0⟩

/-- `read_your_writes_iff` at a put of `VAL` and a put elsewhere. -/
theorem read_your_writes_alice :
    (World.serve (mapEnv true none ⟨lit "logs", none⟩) aliceGet
      (World.serveAll (mapEnv true none ⟨lit "logs", none⟩)
        [alicePutElsewhere]
        (World.serve (mapEnv true none ⟨lit "logs", none⟩)
          (alicePut (lit "VAL")) ⟨fun _ => none, []⟩).2).2).1 =
      .ok (lit "VAL") ↔ lit "VAL" ≠ [] ∧ bar ∉ lit "VAL" := by
  have hPut : World.serve (mapEnv true none ⟨lit "logs", none⟩)
      (alicePut (lit "VAL")) ⟨fun _ => none, []⟩ =
      (.ok PUT_SUCCESS, (World.serve (mapEnv true none ⟨lit "logs", none⟩)
        (alicePut (lit "VAL")) ⟨fun _ => none, []⟩).2) :=
    Prod.ext (by decide +kernel) rfl
  have hOthers : ∀ req ∈ [alicePutElsewhere], ¬ req.OnKey (lit "k") := by
    intro req hReq hOn
    rw [List.mem_singleton.mp hReq] at hOn
    exact absurd hOn.2 (by decide)
  have hRecord : (World.serveAll (mapEnv true none ⟨lit "logs", none⟩)
      [alicePutElsewhere] (World.serve (mapEnv true none ⟨lit "logs", none⟩)
        (alicePut (lit "VAL")) ⟨fun _ => none, []⟩).2).2.kv (lit "k") =
      some (lit "alice|0|2|0|home|0||1|VAL") := by
    decide +kernel
  have hValue : GdprFilter.ofValue
      (some (lit "alice|0|2|0|home|0||1|VAL")) =
      .ok { userKey := lit "alice", purpose := 2, origin := lit "home",
            monitor := true, valid := true } := by
    decide +kernel
  have hKey : aliceGet.query.key = (alicePut (lit "VAL")).query.key := rfl
  exact read_your_writes_iff true ⟨lit "logs", none⟩ rfl rfl hKey hPut _
    hOthers hRecord hValue (by decide +kernel)

end GDPRuler.Controller
