import GDPRuler.Controller.Mediation

/-!
# Storage limitation

A record carries its expiration date.  From the first clock reading after that
date on, every request on the record's key is refused, `putm` with a new
expiration included, because the date is checked before a request may write.
So the record stays as it is, expired, and no later request can bring it back:
`storage_limitation` is about runs of any length and all commands.
-/

namespace GDPRuler.Controller

/-! ## The clock -/

theorem s2ns_toInt : s2ns.toInt = 1000000000 := by decide

/-- A later reading is not an earlier second. -/
theorem seconds_le_seconds {a b : Int64} (h : a ≤ b) : seconds a ≤ seconds b := by
  have hNs : s2ns ≠ -1 := by decide
  have hPos : (0 : Int) < 1000000000 := by decide
  rw [Int64.le_iff_toInt_le] at h ⊢
  rw [seconds, seconds, Int64.toInt_div_of_ne_right _ _ hNs,
    Int64.toInt_div_of_ne_right _ _ hNs, s2ns_toInt]
  exact Int.tdiv_le_tdiv hPos h

/-- The readings of one request are taken in the order of the handler's calls:
the check of the record, the new record, the log entry. -/
structure Readings.InOrder (r : Readings) : Prop where
  rewrite : r.validateTime ≤ r.rewriteTime
  log : r.rewriteTime ≤ r.log.timestamp

/-- From `now` on the clock does not go back, neither within a request nor
from one to the next. -/
def ClockFrom : Int64 → List Request → Prop
  | _, [] => True
  | now, req :: reqs =>
      now ≤ req.readings.validateTime ∧ req.readings.InOrder ∧
        ClockFrom req.readings.log.timestamp reqs

theorem ClockFrom.validateTime_le {reqs : List Request} {now : Int64}
    (h : ClockFrom now reqs) :
    ∀ req ∈ reqs, now ≤ req.readings.validateTime := by
  induction reqs generalizing now with
  | nil => exact fun req hReq => nomatch hReq
  | cons first reqs ih =>
      obtain ⟨hFirst, hOrder, hLater⟩ := h
      intro req hReq
      cases List.mem_cons.mp hReq with
      | inl hHead => exact hHead ▸ hFirst
      | inr hTail =>
          have hLog : first.readings.log.timestamp ≤
              req.readings.validateTime := ih hLater req hTail
          have hWithin : first.readings.validateTime ≤
              first.readings.log.timestamp :=
            Int64.le_trans hOrder.rewrite hOrder.log
          exact Int64.le_trans hFirst (Int64.le_trans hWithin hLog)

/-! ## Expired records -/

/-- The filter reads an expiration date from the record at `key`, and `now` is
after it. -/
def Expired (cipher : Option Cipher) (w : World Store) (key : Str)
    (now : Int64) : Prop :=
  ∃ value f, KvClient.lookup cipher w.kv key = some value ∧
    GdprFilter.ofValue (some value) = .ok f ∧ f.expiration ≠ 0 ∧
    f.expiration < seconds now

/-- Nobody is granted access after the date, whatever the request says. -/
theorem not_validates_of_expired {f : GdprFilter} (hDate : f.expiration ≠ 0)
    {now : Int64} (hNow : f.expiration < seconds now) {req : Request}
    (hLater : now ≤ req.readings.validateTime) : ¬ Validates f req := by
  intro hValid
  have hFresh : f.validateExpTime req.readings.validateTime = true := by
    unfold Validates GdprFilter.validate at hValid
    cases hExp : f.validateExpTime req.readings.validateTime with
    | true => rfl
    | false => simp [hExp] at hValid
  have hSeconds := seconds_le_seconds hLater
  cases (f.validateExpTime_iff _).mp hFresh with
  | inl hNone => exact hDate hNone
  | inr hLe =>
      rw [Int64.lt_iff_toInt_lt] at hNow
      rw [Int64.le_iff_toInt_le] at hLe hSeconds
      omega

section StorageLimitation

variable (delAbsent : Bool) (cipher : Option Cipher) (log : LogConfig)

/-- A request on the key of an expired record is refused, and the database is
as before. -/
theorem serve_expired {req : Request} {w : World Store} {now : Int64}
    (hExpired : Expired cipher w req.query.key now)
    (hLater : now ≤ req.readings.validateTime) {c : KeyCommand}
    (hCommand : KeyCommand.ofText req.query.cmd = some c) :
    (World.serve (mapEnv delAbsent cipher log) req w).1 = .ok c.refused ∧
      (World.serve (mapEnv delAbsent cipher log) req w).2.kv = w.kv := by
  obtain ⟨value, f, hLookup, hValue, hDate, hNow⟩ := hExpired
  exact serve_denied delAbsent cipher log hCommand ⟨value, hLookup, hValue⟩
    (not_validates_of_expired hDate hNow hLater)

/-- **Storage limitation.** Once the clock is past the date of a record, every
later run leaves the record as it is, and answers each request on its key with
the refusal of its command, which says nothing of the record. -/
theorem storage_limitation {w : World Store} {key : Str} {now : Int64}
    (hExpired : Expired cipher w key now) {reqs : List Request}
    (hClock : ClockFrom now reqs) :
    (World.serveAll (mapEnv delAbsent cipher log) reqs w).2.kv key =
        w.kv key ∧
      ∀ pair ∈ reqs.zip (World.serveAll (mapEnv delAbsent cipher log) reqs w).1,
        ∀ c, KeyCommand.ofText pair.1.query.cmd = some c →
          pair.1.query.key = key → pair.2 = .ok c.refused := by
  have hRule := World.serveAll_rule (mapEnv delAbsent cipher log)
    (P := fun req => now ≤ req.readings.validateTime)
    (I := fun w' => w'.kv key = w.kv key)
    (Q := fun req reply => ∀ c,
      KeyCommand.ofText req.query.cmd = some c → req.query.key = key →
        reply = .ok c.refused) ?_ hClock.validateTime_le (w := w) rfl
  · exact hRule
  intro req w' hLater hSame
  have hStill : Expired cipher w' key now := by
    obtain ⟨value, f, hLookup, hRest⟩ := hExpired
    refine ⟨value, f, ?_, hRest⟩
    rw [← hLookup]
    cases cipher with
    | none => exact hSame
    | some c => simp only [KvClient.lookup, hSame]
  by_cases hOn : req.OnKey key
  · obtain ⟨hKeyed, rfl⟩ := hOn
    obtain ⟨c, hCommand⟩ := Option.isSome_iff_exists.mp hKeyed
    obtain ⟨hReply, hStore⟩ :=
      serve_expired delAbsent cipher log hStill hLater hCommand
    refine ⟨fun c' hCommand' _ => ?_, by rw [hStore, hSame]⟩
    rw [hCommand, Option.some.injEq] at hCommand'
    exact hCommand' ▸ hReply
  · refine ⟨fun c hCommand hKey => ?_, ?_⟩
    · exact absurd ⟨by rw [hCommand]; rfl, hKey⟩ hOn
    · rw [World.serve_kv_of_not_onKey delAbsent cipher log req w' hOn, hSame]

end StorageLimitation

/-- `storage_limitation` at a record that expired in second 5: bob's get and
the owner's `putm` for more time, both in second 7. -/
theorem storage_limitation_putm :
    let w : World Store := ⟨fun _ => some (lit "alice|0|2|0|home|5|bob|1|VAL"), []⟩
    let reqs : List Request :=
      [⟨{ cmd := lit "putm", key := lit "k", expiration := some 100 },
          alicePolicy, Readings.constant 7000000000⟩,
        ⟨{ cmd := lit "get", key := lit "k", userKey := some (lit "bob") },
          alicePolicy, Readings.constant 7000000000⟩]
    (World.serveAll (mapEnv true none ⟨lit "logs", none⟩) reqs w).2.kv
        (lit "k") = w.kv (lit "k") ∧
      ∀ pair ∈ reqs.zip
          (World.serveAll (mapEnv true none ⟨lit "logs", none⟩) reqs w).1,
        ∀ c, KeyCommand.ofText pair.1.query.cmd = some c →
          pair.1.query.key = lit "k" → pair.2 = .ok c.refused := by
  have hExpired : Expired none
      ⟨fun _ => some (lit "alice|0|2|0|home|5|bob|1|VAL"), []⟩ (lit "k")
      6000000000 :=
    ⟨_, { userKey := lit "alice", purpose := 2, origin := lit "home",
          expiration := 5, share := lit "bob", monitor := true,
          valid := true }, rfl, by decide +kernel, by decide, by decide⟩
  exact storage_limitation true none ⟨lit "logs", none⟩ hExpired
    ⟨by decide, ⟨by decide, by decide⟩, by decide, ⟨by decide, by decide⟩,
      trivial⟩

end GDPRuler.Controller
