import GDPRuler.Controller.StorageLimitation

/-!
# The arithmetic of expiration dates

`get_expiration_time` turns a lifetime in seconds into a date: it converts the
lifetime to nanoseconds, adds the clock and cuts the sum back to seconds.  Both
operations are 64-bit and signed, and 0 stands for "no expiration".

A lifetime comes from `stoi` (the query option `objExp`) or from `stoll` (the
policy option `-expTime`), so any 64-bit number can be supplied, negative ones
included.  `soundLifetimes_iff` says for which of them the date is right: the
lifetime and its end, in nanoseconds, must be 64-bit numbers, and the end must
be a whole second away from the epoch.
-/

namespace GDPRuler.Controller

/-! ## The lifetimes that can be supplied -/

/-- Some text of `objExp` or of `-expTime` is read as `secs`. -/
def Supplied (secs : Int64) : Prop :=
  (∃ text, stoi text = .ok secs) ∨ ∃ text, stoll text = .ok secs

/-- The policy option can supply every number. -/
theorem supplied (secs : Int64) : Supplied secs :=
  .inr ⟨int64Text secs, stoll_int64Text secs⟩

/-- What the query option supplies fits in 32 bits. -/
theorem stoi_bounds {text : Str} {secs : Int64} (h : stoi text = .ok secs) :
    -2 ^ 31 ≤ secs.toInt ∧ secs.toInt < 2 ^ 31 := by
  unfold stoi at h
  cases hRead : Verified.Decimal.readInt text with
  | none => simp [hRead] at h
  | some read =>
      obtain ⟨negative, n⟩ := read
      simp only [hRead] at h
      by_cases hRange : -2 ^ 31 ≤ signed negative n ∧ signed negative n < 2 ^ 31
      · rw [if_pos hRange] at h
        injection h with hSecs
        have hInt : secs.toInt = signed negative n := by
          rw [← hSecs]
          exact Int64.toInt_ofInt_of_le (by omega) (by omega)
        rw [hInt]
        exact hRange
      · rw [if_neg hRange] at h
        cases h

/-! ## Overflow -/

/-- Each 64-bit operation of `get_expiration_time` gives its exact result. -/
structure NoOverflow (now secs : Int64) : Prop where
  product : (secs * s2ns).toInt = secs.toInt * s2ns.toInt
  sum : (now + secs * s2ns).toInt = now.toInt + (secs * s2ns).toInt

/-- The end of a lifetime in nanoseconds since the epoch. -/
def endOf (now secs : Int64) : Int := now.toInt + secs.toInt * 1000000000

/-- A machine operation is exact if the result is a 64-bit number. -/
private theorem bmod_eq_iff_range (z : Int) :
    z.bmod (2 ^ 64) = z ↔ -2 ^ 63 ≤ z ∧ z < 2 ^ 63 := by
  constructor
  · intro h
    have hLow := Int.le_bmod (x := z) (m := 2 ^ 64) (by decide)
    have hHigh := Int.bmod_lt (x := z) (m := 2 ^ 64) (by decide)
    rw [h] at hLow hHigh
    omega
  · intro h
    exact Int.bmod_eq_of_le (by omega) (by omega)

theorem noOverflow_iff (now secs : Int64) :
    NoOverflow now secs ↔
      (-2 ^ 63 ≤ secs.toInt * 1000000000 ∧ secs.toInt * 1000000000 < 2 ^ 63) ∧
        -2 ^ 63 ≤ endOf now secs ∧ endOf now secs < 2 ^ 63 := by
  have hProduct : (secs * s2ns).toInt = secs.toInt * s2ns.toInt ↔
      -2 ^ 63 ≤ secs.toInt * 1000000000 ∧ secs.toInt * 1000000000 < 2 ^ 63 := by
    rw [Int64.toInt_mul, s2ns_toInt]
    exact bmod_eq_iff_range _
  have hSum : (now + secs * s2ns).toInt = now.toInt + (secs * s2ns).toInt ↔
      -2 ^ 63 ≤ now.toInt + (secs * s2ns).toInt ∧
        now.toInt + (secs * s2ns).toInt < 2 ^ 63 := by
    rw [Int64.toInt_add]
    exact bmod_eq_iff_range _
  constructor
  · intro h
    have hEnd := hSum.mp h.sum
    rw [h.product, s2ns_toInt] at hEnd
    exact ⟨hProduct.mp h.product, hEnd⟩
  · intro h
    have hExact := hProduct.mpr h.1
    refine ⟨hExact, hSum.mpr ?_⟩
    rw [hExact, s2ns_toInt]
    exact h.2

/-! ## The date -/

/-- Without overflow the date is the end of the lifetime in whole seconds,
cut towards the epoch. -/
theorem getExpirationTime_toInt {now secs : Int64} (hSecs : secs ≠ 0)
    (h : NoOverflow now secs) :
    (getExpirationTime now secs).toInt = (endOf now secs).tdiv 1000000000 := by
  have hNs : s2ns ≠ -1 := by decide
  rw [getExpirationTime, if_neg hSecs, seconds,
    Int64.toInt_div_of_ne_right _ _ hNs, h.sum, h.product, s2ns_toInt, endOf]

theorem getExpirationTime_eq_zero_iff {now secs : Int64} (hSecs : secs ≠ 0)
    (h : NoOverflow now secs) :
    getExpirationTime now secs = 0 ↔ (endOf now secs).natAbs < 1000000000 := by
  have hDate := getExpirationTime_toInt hSecs h
  rw [← Int64.toInt_inj, hDate]
  show (endOf now secs).tdiv 1000000000 = 0 ↔ _
  by_cases hEnd : 0 ≤ endOf now secs
  · rw [Int.tdiv_eq_ediv_of_nonneg hEnd]
    omega
  · have hNeg : (endOf now secs).tdiv 1000000000 =
        -((-endOf now secs) / 1000000000) := by
      rw [← Int.tdiv_eq_ediv_of_nonneg (by omega), Int.neg_tdiv, Int.neg_neg]
    rw [hNeg]
    omega

/-- A longer lifetime does not end earlier. -/
theorem getExpirationTime_le {now short long : Int64} (hShort : short ≠ 0)
    (hLong : long ≠ 0) (hLe : short ≤ long) (hExactShort : NoOverflow now short)
    (hExactLong : NoOverflow now long) :
    getExpirationTime now short ≤ getExpirationTime now long := by
  rw [Int64.le_iff_toInt_le] at hLe ⊢
  rw [getExpirationTime_toInt hShort hExactShort,
    getExpirationTime_toInt hLong hExactLong]
  have hEnds : endOf now short ≤ endOf now long := by
    unfold endOf
    omega
  exact Int.tdiv_le_tdiv (by decide) hEnds

/-! ## Two lifetimes given at one time -/

/-- What is asked of the dates of two lifetimes, the longer one second. -/
structure SoundLifetimes (now short long : Int64) : Prop where
  exactShort : NoOverflow now short
  exactLong : NoOverflow now long
  ordered : getExpirationTime now short ≤ getExpirationTime now long
  shortDated : getExpirationTime now short ≠ 0
  longDated : getExpirationTime now long ≠ 0
  /-- A record with the longer lifetime is valid as long as one with the
  shorter is. -/
  outlives : ∀ (f g : GdprFilter) (t : Int64),
    f.expiration = getExpirationTime now short →
      g.expiration = getExpirationTime now long →
        f.validateExpTime t = true → g.validateExpTime t = true

/-- The lifetime and its end, in nanoseconds, are 64-bit numbers, and the end
is not within a second of the epoch. -/
structure Datable (now secs : Int64) : Prop where
  span : -2 ^ 63 ≤ secs.toInt * 1000000000 ∧ secs.toInt * 1000000000 < 2 ^ 63
  range : -2 ^ 63 ≤ endOf now secs ∧ endOf now secs < 2 ^ 63
  offEpoch : 1000000000 ≤ (endOf now secs).natAbs

theorem datable_iff {now secs : Int64} (hSecs : secs ≠ 0) :
    Datable now secs ↔
      NoOverflow now secs ∧ getExpirationTime now secs ≠ 0 := by
  constructor
  · intro h
    have hExact := (noOverflow_iff now secs).mpr ⟨h.span, h.range⟩
    refine ⟨hExact, fun hZero => ?_⟩
    have hNear := (getExpirationTime_eq_zero_iff hSecs hExact).mp hZero
    have hOff := h.offEpoch
    omega
  · intro h
    obtain ⟨hExact, hDated⟩ := h
    obtain ⟨hSpan, hRange⟩ := (noOverflow_iff now secs).mp hExact
    refine ⟨hSpan, hRange, ?_⟩
    by_contra hNear
    exact hDated ((getExpirationTime_eq_zero_iff hSecs hExact).mpr (by omega))

/-- A date that is not before another one is met for at least as long. -/
theorem validateExpTime_of_le {f g : GdprFilter} (hDated : f.expiration ≠ 0)
    (hLe : f.expiration ≤ g.expiration) {t : Int64}
    (h : f.validateExpTime t = true) : g.validateExpTime t = true := by
  rw [GdprFilter.validateExpTime_iff] at h ⊢
  rcases h with hNone | hBefore
  · exact absurd hNone hDated
  · exact .inr (Int64.le_trans hBefore hLe)

/-- **Expiration arithmetic.** Two nonzero lifetimes get dates without
overflow, in their order, and neither is "no expiration", exactly if both can
be dated. -/
theorem soundLifetimes_iff (now short long : Int64) (hShort : short ≠ 0)
    (hLong : long ≠ 0) (hLe : short ≤ long) :
    SoundLifetimes now short long ↔ Datable now short ∧ Datable now long := by
  rw [datable_iff hShort, datable_iff hLong]
  constructor
  · intro h
    exact ⟨⟨h.exactShort, h.shortDated⟩, h.exactLong, h.longDated⟩
  · rintro ⟨⟨hExactShort, hShortDated⟩, hExactLong, hLongDated⟩
    have hOrdered := getExpirationTime_le hShort hLong hLe hExactShort hExactLong
    refine ⟨hExactShort, hExactLong, hOrdered, hShortDated, hLongDated, ?_⟩
    intro f g t hf hg hValid
    exact validateExpTime_of_le (by rwa [hf]) (by rwa [hf, hg]) hValid

/-- A minute and an hour, given in November 2023. -/
theorem soundLifetimes_iff_minute_hour :
    SoundLifetimes 1700000000000000000 60 3600 ↔
      Datable 1700000000000000000 60 ∧ Datable 1700000000000000000 3600 :=
  soundLifetimes_iff 1700000000000000000 60 3600 (by decide) (by decide)
    (by decide)

/--
`objExp("-1700000000")`, supplied 1700000000 seconds after the epoch, makes a
record that never expires, and the longest lifetime `-expTime` can supply
overflows and ends before a lifetime of one second.
-/
theorem lifetimes_not_sound :
    stoi (lit "-1700000000") = .ok (-1700000000) ∧
      getExpirationTime 1700000000000000000 (-1700000000) = 0 ∧
      stoll (lit "9223372036854775807") = .ok 9223372036854775807 ∧
      getExpirationTime 1700000000000000000 9223372036854775807 <
        getExpirationTime 1700000000000000000 1 ∧
      ¬ ∀ now short long : Int64, Supplied short → Supplied long →
        short ≠ 0 → long ≠ 0 → short ≤ long →
          SoundLifetimes now short long := by
  have hZero : getExpirationTime 1700000000000000000 (-1700000000) = 0 := by
    decide
  refine ⟨by decide, hZero, by decide, by decide, fun hAll => ?_⟩
  exact (hAll 1700000000000000000 (-1700000000) 1 (supplied _) (supplied _)
    (by decide) (by decide) (by decide)).shortDated hZero

/-- A positive `objExp` can be dated for as long as the clock leaves room for
32-bit lifetimes. -/
theorem datable_of_stoi {text : Str} {now secs : Int64}
    (hText : stoi text = .ok secs) (hPos : 0 < secs.toInt)
    (hNow : 0 ≤ now.toInt)
    (hRoom : now.toInt < 2 ^ 63 - 2 ^ 31 * 1000000000) : Datable now secs := by
  obtain ⟨-, hHigh⟩ := stoi_bounds hText
  have hEnd : endOf now secs = now.toInt + secs.toInt * 1000000000 := rfl
  refine ⟨by omega, by omega, by omega⟩

/-- The date such an option leaves in a new record. -/
theorem insertMetadata_dated {text : Str} {now secs : Int64} {q : Query}
    {p : DefaultPolicy} (hQuery : q.expiration = some secs)
    (hText : stoi text = .ok secs) (hPos : 0 < secs.toInt)
    (hNow : 0 ≤ now.toInt)
    (hRoom : now.toInt < 2 ^ 63 - 2 ^ 31 * 1000000000) :
    (QueryRewriter.insertMetadata q p now).expiration ≠ 0 := by
  have hSecs : secs ≠ 0 := by
    rintro rfl
    simp at hPos
  have hDated := ((datable_iff hSecs).mp
    (datable_of_stoi hText hPos hNow hRoom)).2
  rwa [QueryRewriter.insertMetadata, hQuery, Option.getD_some]

end GDPRuler.Controller
