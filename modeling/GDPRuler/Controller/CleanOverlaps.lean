import GDPRuler.Verified.RelyGuarantee
import GDPRuler.Controller.Connection
import GDPRuler.Controller.MapClient
import GDPRuler.Controller.Overlaps

/-!
# Well-formed records under overlaps

A record is written as its metadata and its value with separators between them,
and a separator in a free string makes another record of it.  Requests that
write none keep every record of the database well-formed, in every interleaving,
and as a filter of a well-formed record raises nothing, each of them is
answered (`wellFormed_overlaps`).

With encryption records must also be small enough for the engine, and as an
update keeps what an old value holds before its last separator, values must hold
none either.
-/

namespace GDPRuler.Controller

open GDPRuler.Verified GDPRuler.Verified.Transition
open GDPRuler.Verified.Interleave

/-! ## Small records -/

/-- The strings are no longer than messages, and the value is no list. -/
structure Record.Small (rec : Record) : Prop where
  userKey : rec.metadata.userKey.length ≤ maxMsgSize
  origin : rec.metadata.origin.length ≤ maxMsgSize
  share : rec.metadata.share.length ≤ maxMsgSize
  value : rec.value.length ≤ maxMsgSize
  plain : bar ∉ rec.value

private theorem length_flagText (b : Bool) : (flagText b).length = 1 := by
  cases b <;> rfl

private theorem length_ullText_le (n : BitVec 64) : (ullText n).length ≤ 20 :=
  Decimal.length_digits_le (by decide) (by have hLt := n.isLt; omega)

private theorem length_int64Text_le (z : Int64) : (int64Text z).length ≤ 20 := by
  have hLt := z.toInt_lt
  have hLe := z.le_toInt
  have hDigits : (Decimal.digits z.toInt.natAbs).length ≤ 19 :=
    Decimal.length_digits_le (by decide) (by omega)
  rw [int64Text, Decimal.intText]
  split
  · rw [List.length_cons]
    omega
  · omega

/-- A small record is far from what the engine can encrypt. -/
theorem Record.Small.length_encode {rec : Record} (h : rec.Small) :
    rec.encode.length < 2 ^ 15 := by
  have hPurpose := length_ullText_le rec.metadata.purpose
  have hObjection := length_ullText_le rec.metadata.objection
  have hExpiration := length_int64Text_le rec.metadata.expiration
  have hUserKey := h.userKey
  have hOrigin := h.origin
  have hShare := h.share
  have hValue := h.value
  have hMax : maxMsgSize = 4096 := rfl
  simp only [Record.encode, Metadata.encode, Metadata.fields, Delim.joinFields,
    List.foldr_cons, List.foldr_nil, List.length_append, List.length_cons,
    length_flagText]
  omega

/-! ## Clean requests -/

/-- The strings a request brings are no longer than messages, its value is no
list, and the vector of its encryption is whole. -/
structure Request.Small (req : Request) : Prop where
  userKey : ∀ text ∈ req.query.userKey, text.length ≤ maxMsgSize
  origin : ∀ text ∈ req.query.origin, text.length ≤ maxMsgSize
  share : ∀ text ∈ req.query.share, text.length ≤ maxMsgSize
  policyUserKey : req.policy.userKey.length ≤ maxMsgSize
  policyOrigin : req.policy.origin.length ≤ maxMsgSize
  policyShare : req.policy.share.length ≤ maxMsgSize
  value : req.query.value.length ≤ maxMsgSize
  plain : bar ∉ req.query.value
  iv : req.readings.iv.length = initializationVectorLen

/-- The strings a request may write hold no separator; with encryption it is
small. -/
structure Request.Clean (cipher : Option Cipher) (req : Request) : Prop where
  creates : KeyCommand.ofText req.query.cmd = some .put →
    QueryRewriter.InsertClean req.query req.policy
  supplies : KeyCommand.ofText req.query.cmd = some .putm →
    QueryRewriter.SuppliedClean req.query
  small : ∀ c ∈ cipher, req.Small

/-- A record without separators in its free strings, small if it is to be
encrypted. -/
structure Record.Clean (cipher : Option Cipher) (rec : Record) : Prop where
  metadata : rec.metadata.Clean
  small : ∀ c ∈ cipher, rec.Small

theorem Record.Clean.storable {cipher : Option Cipher} {rec : Record}
    (h : rec.Clean cipher) {iv : Str}
    (hIv : ∀ c ∈ cipher, iv.length = initializationVectorLen) :
    Storable cipher iv rec.encode :=
  fun c hCipher => ⟨hIv c hCipher, (h.small c hCipher).length_encode.trans (by decide)⟩

section Requests

variable {cipher : Option Cipher} {req : Request}

private theorem length_getD_le {o : Option Str} {text : Str} {n : Nat}
    (ho : ∀ t ∈ o, t.length ≤ n) (hText : text.length ≤ n) :
    (o.getD text).length ≤ n := by
  cases o with
  | none => exact hText
  | some t => exact ho t rfl

/-- The record a first put creates. -/
theorem Request.Clean.created (hReq : req.Clean cipher)
    (hPut : KeyCommand.ofText req.query.cmd = some .put) (now : Int64) :
    Record.Clean cipher
      ⟨QueryRewriter.insertMetadata req.query req.policy now,
        req.query.value⟩ := by
  refine ⟨(hReq.creates hPut).metadata now, fun c hCipher => ?_⟩
  have hSmall := hReq.small c hCipher
  exact
    { userKey := length_getD_le hSmall.userKey hSmall.policyUserKey
      origin := length_getD_le hSmall.origin hSmall.policyOrigin
      share := length_getD_le hSmall.share hSmall.policyShare
      value := hSmall.value
      plain := hSmall.plain }

/-- The record a put updates. -/
theorem Request.Clean.updated (hReq : req.Clean cipher) {rec : Record}
    (hRec : rec.Clean cipher) :
    Record.Clean cipher
      ⟨rec.metadata, QueryRewriter.updateValue rec.value req.query.value⟩ := by
  refine ⟨hRec.metadata, fun c hCipher => ?_⟩
  have hSmall := hReq.small c hCipher
  have hOld := hRec.small c hCipher
  rw [QueryRewriter.updateValue_eq_self hOld.plain]
  exact { hOld with value := hSmall.value, plain := hSmall.plain }

/-- The record a metadata put updates. -/
theorem Request.Clean.supplied (hReq : req.Clean cipher)
    (hPutm : KeyCommand.ofText req.query.cmd = some .putm) {rec : Record}
    (hRec : rec.Clean cipher) (now : Int64) :
    Record.Clean cipher
      ⟨QueryRewriter.putmMetadata rec.metadata req.query now,
        QueryRewriter.putmValue rec.value⟩ := by
  refine ⟨(hReq.supplies hPutm).metadata hRec.metadata now, fun c hCipher => ?_⟩
  have hSmall := hReq.small c hCipher
  have hOld := hRec.small c hCipher
  rw [QueryRewriter.putmValue_eq_self hOld.plain]
  exact
    { userKey := length_getD_le hSmall.userKey hOld.userKey
      origin := length_getD_le hSmall.origin hOld.origin
      share := length_getD_le hSmall.share hOld.share
      value := hOld.value
      plain := hOld.plain }

/-- What is read at a key is a clean record, or nothing. -/
def CleanText (cipher : Option Cipher) (res : Option Str) : Prop :=
  ∃ o : Option Record, res = o.map Record.encode ∧ ∀ rec ∈ o, rec.Clean cipher

/-- Every record of the store is one. -/
def CleanStore (cipher : Option Cipher) (w : World Store) : Prop :=
  ∀ key, CleanText cipher (KvClient.lookup cipher w.kv key)

theorem CleanText.of_record {rec : Record} (h : rec.Clean cipher) :
    CleanText cipher (some rec.encode) :=
  ⟨some rec, rfl, fun _ hMem => Option.mem_some.mp hMem ▸ h⟩

/-- A read is answered with such a record. -/
def Op.FindsClean (cipher : Option Cipher) : (op : Op) → op.Res → Prop
  | gdprGet _, res => CleanText cipher res
  | gdprGetm _, res => CleanText cipher res
  | _, _ => True

/-- A write stores such a record. -/
def Op.StoresClean (cipher : Option Cipher) : Op → Prop
  | gdprPut _ value => CleanText cipher (some value)
  | gdprPutm _ value => CleanText cipher (some value)
  | _ => True

/-- A request with a command on a key is answered. -/
def Answered (req : Request) (outcome : Except Exn Str) : Prop :=
  (KeyCommand.ofText req.query.cmd).isSome = true →
    ∃ reply, outcome = .ok reply

/-- The plan for a clean record raises nothing and writes a clean record, if
any. -/
theorem plan_clean {command : KeyCommand}
    (hCommand : KeyCommand.ofText req.query.cmd = some command)
    (hReq : req.Clean cipher) {res : Option Str} (hRes : CleanText cipher res) :
    ∃ pl, plan command req.query req.policy req.readings res = .ok pl ∧
      ∀ write ∈ pl.write, (write.1.op req.query.key).StoresClean cipher := by
  obtain ⟨o, rfl, hClean⟩ := hRes
  cases o with
  | none =>
      refine ⟨_, rfl, ?_⟩
      cases command with
      | put =>
          intro write hMem
          rw [← Option.mem_some.mp hMem]
          show CleanText cipher (some (QueryRewriter.insert _ _ _ _))
          rw [QueryRewriter.insert_eq]
          exact .of_record (hReq.created hCommand _)
      | _ => exact fun write hMem => nomatch hMem
  | some rec =>
      have hRec := hClean rec rfl
      have hValue := GdprFilter.ofValue_encode hRec.metadata rec.value
      cases hValid : ({ rec.metadata with valid := true } :
          GdprFilter).validate req.query req.policy
            req.readings.validateTime with
      | false => exact ⟨_, plan_denied hValue hValid, fun _ hMem => nomatch hMem⟩
      | true =>
          rw [Option.map_some, Record.encode, plan_granted hValue hValid]
          cases command with
          | get => exact ⟨_, rfl, fun _ hMem => nomatch hMem⟩
          | getm => exact ⟨_, rfl, fun _ hMem => nomatch hMem⟩
          | delete =>
              refine ⟨_, rfl, fun write hMem => ?_⟩
              rw [← Option.mem_some.mp hMem]
              trivial
          | put =>
              refine ⟨_, rfl, fun write hMem => ?_⟩
              rw [← Option.mem_some.mp hMem]
              show CleanText cipher (some (QueryRewriter.update _ _))
              rw [QueryRewriter.update_encode]
              exact .of_record (hReq.updated hRec)
          | putm =>
              have hPutm := QueryRewriter.putm_encode hRec.metadata rec.value
                req.query req.readings.rewriteTime
              simp only [grantedPlan, hPutm, bind, Except.bind, pure,
                Except.pure, Except.ok.injEq, exists_eq_left']
              intro write hMem
              rw [← Option.mem_some.mp hMem]
              exact .of_record (hReq.supplied hCommand hRec _)

/-- A clean request that finds clean records stores clean records, and is
answered if its command is on a key. -/
theorem assures_respond (hReq : req.Clean cipher) :
    (respond req.query req.policy req.readings).Assures (Op.FindsClean cipher)
      (Op.StoresClean cipher) (Answered req) := by
  cases hCommand : KeyCommand.ofText req.query.cmd with
  | none =>
      refine (World.only_respond_other req.policy req.readings
        hCommand).assures.mono ?_ ?_
      · intro op hReads
        cases op <;> trivial
      · intro outcome _ hSome
        rw [hCommand] at hSome
        cases hSome
  | some command =>
      have hDone : ∀ reply, Answered req (.ok reply) :=
        fun reply _ => ⟨reply, rfl⟩
      have hFollow : ∀ res, CleanText cipher res →
          (follow req.query req.policy (plan command req.query req.policy
            req.readings res)).Assures (Op.FindsClean cipher)
              (Op.StoresClean cipher) (Answered req) := by
        intro res hRes
        obtain ⟨pl, hPlan, hWrites⟩ := plan_clean hCommand hReq hRes
        rw [hPlan]
        have hFinish : (Plan.finish req.query.key pl.write
            pl.reply).Assures (Op.FindsClean cipher) (Op.StoresClean cipher)
              (Answered req) := by
          unfold Plan.finish
          split
          · exact hDone _
          · rename_i write failed hWrite
            have hStores := hWrites _ hWrite
            have hReply : ∀ ok : Bool, (if ok = true then
                (.ret pl.reply : Handler Str) else .ret failed).Assures
                  (Op.FindsClean cipher) (Op.StoresClean cipher)
                  (Answered req) := by
              intro ok
              cases ok <;> exact hDone _
            cases write <;> exact ⟨hStores, fun ok _ => hReply ok⟩
        simp only [follow, Plan.toProg]
        cases pl.entry with
        | none => exact hFinish
        | some entry => exact ⟨trivial, fun _ _ => hFinish⟩
      rw [respond_eq _ _ _ hCommand]
      cases command <;> exact ⟨trivial, hFollow⟩

end Requests

/-! ## Every interleaving -/

section Run

variable {delAbsent : Bool} {cipher : Option Cipher} {log : LogConfig}

/-- An operation that stores clean records keeps a clean store, and finds clean
records in it. -/
theorem clean_exec (hCipher : Recovers cipher) {r : Readings}
    (hIv : ∀ c ∈ cipher, r.iv.length = initializationVectorLen) (op : Op)
    {w : World Store} (hStore : CleanStore cipher w)
    (hOp : op.StoresClean cipher) :
    op.FindsClean cipher (World.exec (mapEnv delAbsent cipher log) r op w).1 ∧
      CleanStore cipher (World.exec (mapEnv delAbsent cipher log) r op w).2 := by
  have hPut : ∀ key value, CleanText cipher (some value) → CleanStore cipher
      { w with kv :=
        ((mapClient delAbsent cipher).gdprPut r.iv key value w.kv).2 } := by
    intro key value hValue other
    obtain ⟨o, hText, hRec⟩ := hValue
    obtain ⟨rec, rfl, rfl⟩ := Option.map_eq_some_iff.mp hText.symm
    show CleanText cipher (KvClient.lookup cipher _ other)
    rw [hCipher.lookup_put delAbsent ((hRec rec rfl).storable hIv)]
    split
    · exact .of_record (hRec rec rfl)
    · exact hStore other
  cases op with
  | gdprGet key =>
      simp only [World.exec, mapEnv, KvClient.gdprGet_mapClient]
      exact ⟨hStore key, hStore⟩
  | gdprGetm key =>
      simp only [World.exec, mapEnv, KvClient.gdprGetm_mapClient]
      exact ⟨hStore key, hStore⟩
  | gdprPut key value => exact ⟨trivial, hPut key value hOp⟩
  | gdprPutm key value =>
      refine ⟨trivial, ?_⟩
      simp only [World.exec, mapEnv, KvClient.gdprPutm_mapClient]
      exact hPut key value hOp
  | gdprDel key =>
      refine ⟨trivial, fun other => ?_⟩
      show CleanText cipher (KvClient.lookup cipher
        ((mapClient delAbsent cipher).gdprDel key w.kv).2 other)
      rw [lookup_del]
      split
      · exact ⟨none, rfl, fun rec hMem => (Option.not_mem_none rec hMem).elim⟩
      · exact hStore other
  | _ => exact ⟨trivial, hStore⟩

/-- **Well-formed overlaps.** From a store of well-formed records, requests
that write no separator into a free string leave one in every interleaving,
and none of them that is on a key raises. -/
theorem wellFormed_overlaps (hCipher : Recovers cipher) {w : World Store}
    (hStore : CleanStore cipher w) {queues : Nat → List Request}
    (hQueues : ∀ i, ∀ req ∈ queues i, req.Clean cipher) {schedule : List Nat}
    {c : Config Request Op Op.Res Exn Str (World Store)}
    (hRun : run (step (served (mapEnv delAbsent cipher log))) schedule
      (firstConfig w queues) = some c) :
    CleanStore cipher c.shared ∧ ∀ d ∈ c.done, Answered d.req d.outcome :=
  invariant_of_assures (S := served (mapEnv delAbsent cipher log))
    (fun _ => Op.FindsClean cipher)
    (fun req op => req.Clean cipher ∧ op.StoresClean cipher) Answered
    (fun _ op _ hInv hOp => clean_exec hCipher
      (fun c hMem => (hOp.1.small c hMem).iv) op hInv hOp.2)
    (fun _ hReq => (assures_respond hReq).mono (fun _ hOp => ⟨hReq, hOp⟩)
      fun _ hDone => hDone) hStore hQueues hRun

/-- `wellFormed_overlaps` at the race of a put and a revocation. -/
theorem wellFormed_race : ∃ c : Config Request Op Op.Res Exn Str (World Store),
    CleanStore none c.shared ∧ ∀ d ∈ c.done, Answered d.req d.outcome := by
  obtain ⟨c, hRun⟩ := overlap_runs
  have hPlain : ∀ c ∈ (none : Option Cipher), False := fun _ hMem => nomatch hMem
  refine ⟨c, wellFormed_overlaps recovers_none ?_ ?_ hRun⟩
  · intro key
    by_cases hKey : key = lit "k"
    · refine ⟨some ⟨⟨lit "alice", false, 2, 0, lit "home", 0, lit "bob", true⟩,
        lit "v0"⟩, ?_, ?_⟩
      · rw [hKey]
        decide +kernel
      · intro rec hMem
        rw [← Option.mem_some.mp hMem]
        exact ⟨⟨by decide, by decide, by decide⟩, fun c hMem => (hPlain c hMem).elim⟩
    · refine ⟨none, ?_, fun _ hMem => nomatch hMem⟩
      exact if_neg hKey
  · intro i req hMem
    match i with
    | 0 =>
        rw [List.mem_singleton.mp hMem]
        exact ⟨fun _ => ⟨by decide, by decide, by decide⟩,
          fun hPutm => (nomatch hPutm), fun c hMem => (hPlain c hMem).elim⟩
    | 1 =>
        rw [List.mem_singleton.mp hMem]
        refine ⟨fun hPut => (nomatch hPut), fun _ => ⟨?_, ?_, ?_⟩,
          fun c hMem => (hPlain c hMem).elim⟩ <;> decide
    | _ + 2 => cases hMem

end Run

end GDPRuler.Controller
