import GDPRuler.Controller.ValueParts

/-!
# What a reply says

A granted get, getm or getlogs is answered with data, any other with the code of
its failure, and nothing in the reply says which of the two it is.  A record
and a metadata reply hold a separator and the regulator's reply starts with a
heading, so these are no codes.  A value is any text, and one of them is the code
of a failed get.

No assumption is made on the database client: the handlers are compared on
whatever it answers, in two requests that need not have anything in common.

## Main results

* `removeGdprMetadata_eq_iff` — when a get shows a given text;
* `granted_eq_failed_iff` — when a granted and a failed request are answered
  alike.
-/

namespace GDPRuler.Controller

open GDPRuler.Verified GDPRuler.Verified.Delim

/-! ## Values and metadata -/

/-- The texts that are read as the value `value`. -/
theorem removeGdprMetadata_eq_iff {text value : Str} (hValue : value ≠ [])
    (hBar : bar ∉ value) :
    removeGdprMetadata text = value ↔
      text = value ∨ bar :: value <:+ text := by
  have hSuffix : bar :: value <:+ text ↔
      ∃ front, cutLast bar text = some (front, value) := by
    constructor
    · intro h
      rcases h with ⟨front, hText⟩
      exact ⟨front, cutLast_eq_some_iff.mpr ⟨hText.symm, hBar⟩⟩
    · intro h
      rcases h with ⟨front, hCut⟩
      exact ⟨front, (cutLast_eq_some_iff.mp hCut).1.symm⟩
  rw [hSuffix]
  unfold removeGdprMetadata
  cases hCut : cutLast bar text with
  | none => simp
  | some parts =>
      rcases parts with ⟨front, back⟩
      have hMem : bar ∈ text := by
        rw [(cutLast_eq_some_iff.mp hCut).1]
        simp
      have hNe : text ≠ value := fun hEq => hBar (hEq ▸ hMem)
      by_cases hNil : back = []
      · simp [hNil, hNe, hValue.symm]
      · simp [hNil, hNe]

theorem bar_mem_preserveOnlyGdprMetadata {text : Str} (h : bar ∈ text) :
    bar ∈ preserveOnlyGdprMetadata text := by
  unfold preserveOnlyGdprMetadata
  cases cutLast bar text with
  | none => exact h
  | some parts =>
      show bar ∈ if parts.2 = [] then text else parts.1 ++ [bar]
      split
      · exact h
      · simp

/-- A record that the filter accepts holds a separator. -/
theorem GrantedOn.bar_mem {text : Str} {q : Query} {p : DefaultPolicy}
    {now : Int64} (h : GrantedOn text q p now) : bar ∈ text := by
  rcases h with ⟨f, hFilter, _⟩
  obtain ⟨fields, rest, hText, _⟩ := GdprFilter.ofValue_first hFilter
  rw [hText]
  simp

/-! ## Reports -/

/-- The text starts with a heading of the regulator's reports. -/
def IsReport (text : Str) : Prop :=
  lit "Reading " <+: text ∨ lit "Available " <+: text

theorem IsReport.ne_failed {text : Str} (h : IsReport text) :
    text ≠ GET_LOGS_FAILED := by
  rintro rfl
  revert h
  unfold IsReport
  decide

/-- With the regulator's key, the reply is a report, whatever is in the logs. -/
theorem returns_handleGetLogs {q : Query} {p : DefaultPolicy} {r : Readings}
    (hKey : validateRegKey q p = true) :
    (handleGetLogs q p r).Returns IsReport := by
  simp only [handleGetLogs, hKey, Bool.not_true, Bool.false_eq_true, if_false,
    Prog.perform_bind]
  split
  · intro logFiles
    apply Prog.Returns.bind
    intro text
    exact .inl ⟨lit "all the log files:\n" ++ text, rfl⟩
  split
  · intro logFiles
    exact .inr ⟨lit "log files:\n" ++ entryLines logFiles, rfl⟩
  · intro read
    apply Prog.Returns.bind
    intro entries
    exact .inl ⟨lit "the log file of key " ++ q.logKey ++ lit ":\n" ++
      entryLines entries, rfl⟩

/-! ## Requests that are answered with data -/

inductive DataCommand
  | get | getm | getlogs
  deriving DecidableEq

namespace DataCommand

def handler : DataCommand → Query → DefaultPolicy → Readings → Handler Str
  | get => handleGet
  | getm => handleGetMetadata
  | getlogs => handleGetLogs

/-- The code of a failed request. -/
def failed : DataCommand → Str
  | get => GET_FAILED
  | getm => GETM_FAILED
  | getlogs => GET_LOGS_FAILED

section Reply

variable {σ : Type} (env : Environment σ)

/-- The reply of the handler, or the exception it ends with. -/
def reply (c : DataCommand) (req : Request) (w : World σ) : Except Exn Str :=
  ((c.handler req.query req.policy req.readings).run
    (World.exec env req.readings) w).1

/-- The record that the handler reads. -/
def record (c : DataCommand) (q : Query) (w : World σ) : Option Str :=
  match c with
  | get => (env.client.gdprGet q.key w.kv).1
  | getm => (env.client.gdprGetm q.key w.kv).1
  | getlogs => none

/-- Access is granted: to a record by its filter, to the logs by the regulator's
key. -/
def Granted (c : DataCommand) (req : Request) (w : World σ) : Prop :=
  match c with
  | getlogs => validateRegKey req.query req.policy = true
  | c => ∃ text, c.record env req.query w = some text ∧
      GrantedOn text req.query req.policy req.readings.validateTime

variable {env} {req : Request} {w : World σ}

theorem reply_get : get.reply env req w =
    (plan .get req.query req.policy req.readings
      (get.record env req.query w)).map fun pl =>
        pl.outcome env.client req.readings.iv req.query.key
          (env.client.gdprGet req.query.key w.kv).2 := by
  show ((handleGet _ _ _).run _ w).1 = _
  rw [handleGet_eq]
  exact World.run_follow env req.readings _ req.query req.policy _

theorem reply_getm : getm.reply env req w =
    (plan .getm req.query req.policy req.readings
      (getm.record env req.query w)).map fun pl =>
        pl.outcome env.client req.readings.iv req.query.key
          (env.client.gdprGetm req.query.key w.kv).2 := by
  show ((handleGetMetadata _ _ _).run _ w).1 = _
  rw [handleGetMetadata_eq]
  exact World.run_follow env req.readings _ req.query req.policy _

theorem reply_get_granted {text : Str}
    (hText : get.record env req.query w = some text)
    (hGranted : GrantedOn text req.query req.policy
      req.readings.validateTime) :
    get.reply env req w = .ok (removeGdprMetadata text) := by
  rcases hGranted with ⟨f, hFilter, hValid⟩
  rw [reply_get, hText, plan_granted hFilter hValid]
  rfl

theorem reply_getm_granted {text : Str}
    (hText : getm.record env req.query w = some text)
    (hGranted : GrantedOn text req.query req.policy
      req.readings.validateTime) :
    getm.reply env req w = .ok (preserveOnlyGdprMetadata text) := by
  rcases hGranted with ⟨f, hFilter, hValid⟩
  rw [reply_getm, hText, plan_granted hFilter hValid]
  rfl

/-- The outcome of a plan for a record that is absent, malformed or denied. -/
private theorem plan_failed {k : KeyCommand} {res : Option Str}
    {client : KvClient σ} {iv key t : Str} {s : σ}
    (hAbsent : (absentPlan k req.query req.policy req.readings).outcome client iv
      key s = k.refused)
    (hDenied : ¬ ∃ text, res = some text ∧
      GrantedOn text req.query req.policy req.readings.validateTime)
    (hReply : (plan k req.query req.policy req.readings res).map
      (fun pl => pl.outcome client iv key s) = .ok t) : t = k.refused := by
  cases res with
  | none => exact (Except.ok.inj hReply).symm.trans hAbsent
  | some text =>
      cases hFilter : GdprFilter.ofValue (some text) with
      | error e =>
          rw [plan_error hFilter] at hReply
          cases hReply
      | ok f =>
          cases hValid : f.validate req.query req.policy
              req.readings.validateTime with
          | true => exact absurd ⟨text, rfl, f, hFilter, hValid⟩ hDenied
          | false =>
              rw [plan_denied hFilter hValid] at hReply
              exact (Except.ok.inj hReply).symm

/-- **Any other request is answered with the code**, if at all. -/
theorem reply_failed {c : DataCommand} (hDenied : ¬ c.Granted env req w) {t : Str}
    (hReply : c.reply env req w = .ok t) : t = c.failed := by
  cases c with
  | get =>
      rw [reply_get] at hReply
      exact plan_failed rfl hDenied hReply
  | getm =>
      rw [reply_getm] at hReply
      exact plan_failed rfl hDenied hReply
  | getlogs =>
      have hKey : validateRegKey req.query req.policy = false :=
        Bool.eq_false_of_not_eq_true hDenied
      have hRun : getlogs.reply env req w = .ok GET_LOGS_FAILED := by
        show ((handleGetLogs _ _ _).run _ w).1 = _
        simp [handleGetLogs, hKey]
      rw [hRun] at hReply
      exact (Except.ok.inj hReply).symm

/-- A granted get is answered with the code of a failed one exactly if the
record ends with a zero behind a separator. -/
theorem failed_get_iff {t : Str} (hGranted : get.Granted env req w)
    (hReply : get.reply env req w = .ok t) :
    t = GET_FAILED ↔ ∃ text, get.record env req.query w = some text ∧
      lit "|0" <:+ text := by
  rcases hGranted with ⟨text, hText, hValid⟩
  rw [reply_get_granted hText hValid] at hReply
  rw [← Except.ok.inj hReply, hText,
    removeGdprMetadata_eq_iff (by decide) (by decide)]
  have hNe : text ≠ GET_FAILED := by
    intro hEq
    have hMem := hValid.bar_mem
    rw [hEq] at hMem
    exact absurd hMem (by decide)
  simp only [hNe, false_or, Option.some.injEq, exists_eq_left']
  exact Iff.rfl

theorem ne_failed_getm {t : Str} (hGranted : getm.Granted env req w)
    (hReply : getm.reply env req w = .ok t) : t ≠ GETM_FAILED := by
  rcases hGranted with ⟨text, hText, hValid⟩
  rw [reply_getm_granted hText hValid] at hReply
  have hMem := bar_mem_preserveOnlyGdprMetadata hValid.bar_mem
  rw [Except.ok.inj hReply] at hMem
  intro hEq
  rw [hEq] at hMem
  exact absurd hMem (by decide)

theorem ne_failed_getlogs {t : Str} (hGranted : getlogs.Granted env req w)
    (hReply : getlogs.reply env req w = .ok t) : t ≠ GET_LOGS_FAILED :=
  ((returns_handleGetLogs hGranted).run _ hReply).ne_failed

/--
**Replies to granted and to failed requests.** Take a granted get, getm or
getlogs and one that is not granted, made to any controllers over any databases
and logs, and let both be answered.  The replies are the same exactly for gets,
if the record that is shown ends with a zero behind a separator.
-/
theorem granted_eq_failed_iff {σ' : Type} {env' : Environment σ'}
    {req' : Request} {w' : World σ'} (c : DataCommand) {t t' : Str}
    (hGranted : c.Granted env req w) (hReply : c.reply env req w = .ok t)
    (hFailed : ¬ c.Granted env' req' w')
    (hReply' : c.reply env' req' w' = .ok t') :
    t = t' ↔ c = .get ∧ ∃ text, c.record env req.query w = some text ∧
      lit "|0" <:+ text := by
  rw [reply_failed hFailed hReply']
  cases c with
  | get =>
      rw [failed, failed_get_iff hGranted hReply]
      simp only [true_and]
  | getm =>
      refine iff_of_false (ne_failed_getm hGranted hReply) ?_
      simp
  | getlogs =>
      refine iff_of_false (ne_failed_getlogs hGranted hReply) ?_
      simp

end Reply

/-- A get of `k` by Alice. -/
def getK : Request :=
  ⟨{ cmd := lit "get", key := lit "k" }, alicePolicy, .constant 0⟩

/-- A database with the record `text` under every key. -/
def holding (text : Str) : World Store := ⟨fun _ => some text, []⟩

private theorem granted_getK (value : Str)
    (hFilter : GdprFilter.ofValue (some (lit "alice|0|2|0|home|0||1|" ++ value)) =
      .ok { userKey := lit "alice", purpose := 2, origin := lit "home",
            monitor := true, valid := true }) :
    get.Granted (mapEnv true none ⟨lit "logs", none⟩) getK
      (holding (lit "alice|0|2|0|home|0||1|" ++ value)) :=
  ⟨_, rfl, _, hFilter, by decide +kernel⟩

private theorem not_granted_getK :
    ¬ get.Granted (mapEnv true none ⟨lit "logs", none⟩) getK
      ⟨fun _ => none, []⟩ := by
  intro h
  rcases h with ⟨text, hText, _⟩
  cases hText

/-- The value `0` is shown like an absent record. -/
theorem zero_like_absent :
    ¬ ∀ (c : DataCommand) (req req' : Request) (w w' : World Store) (t t' : Str),
      c.Granted (mapEnv true none ⟨lit "logs", none⟩) req w →
      ¬ c.Granted (mapEnv true none ⟨lit "logs", none⟩) req' w' →
      c.reply (mapEnv true none ⟨lit "logs", none⟩) req w = .ok t →
      c.reply (mapEnv true none ⟨lit "logs", none⟩) req' w' = .ok t' →
      t ≠ t' := by
  intro hClaim
  exact hClaim .get getK getK (holding (lit "alice|0|2|0|home|0||1|0"))
    ⟨fun _ => none, []⟩ (lit "0") (lit "0")
    (granted_getK (lit "0") (by decide +kernel)) not_granted_getK
    (by decide +kernel) (by decide +kernel) rfl

/-- The value `v` is not. -/
theorem granted_eq_failed_iff_v :
    lit "v" = lit "0" ↔ DataCommand.get = .get ∧ ∃ text,
      get.record (mapEnv true none ⟨lit "logs", none⟩) getK.query
        (holding (lit "alice|0|2|0|home|0||1|v")) = some text ∧
      lit "|0" <:+ text :=
  granted_eq_failed_iff .get (granted_getK (lit "v") (by decide +kernel))
    (by decide +kernel) not_granted_getK (by decide +kernel)

end DataCommand

end GDPRuler.Controller
