import GDPRuler.Controller.RocksDbMessage

/-!
# The grammar of the RocksDB protocol

The comment over `query_message` gives the protocol, `<command> <key> <value>`
where the reads and the deletion have no value.  `Grammar` states it as a
relation between lines and messages, and this module compares it with what
`deserialize` accepts, over all lines and not only over those the client
writes.

They agree on most lines.  Those they do not agree on are of three kinds
(`Misread`): what follows the key of a get, del or getm is ignored; a put
without a second space takes the whole line for its value, since `npos + 1` is
0; and a putm, which the protocol gives a value, is treated like a get.

## Main results

* `wire_exact_iff` — the client's messages arrive as they were sent, but for
  putm;
* `conforms_iff` — exactly the lines that are not misread are treated as the
  protocol says.
-/

namespace GDPRuler.Controller.QueryMessage

open GDPRuler.Verified.Delim

/-! ## Messages of the client -/

/-- A message is received as it was sent, the server executes what was asked
for, and every response is received as it was sent. -/
structure WireExact (query : QueryMessage) : Prop where
  received : deserialize query.serialize = .ok { query with isValid := true }
  executed : ∀ db, rocksdbExchange query db =
    (some (rocksdbProxy { query with isValid := true } db).1,
      (rocksdbProxy { query with isValid := true } db).2)
  answered : ∀ response : ResponseMessage,
    ResponseMessage.deserialize response.serialize = response

/-- The commands that are sent with a value. -/
def valueTypes : List Str := [lit "put", lit "putm"]

/-- The commands that are sent without. -/
def plainTypes : List Str := [lit "get", lit "del", lit "getm"]

theorem mem_validQueryTypes_iff {command : Str} :
    command ∈ validQueryTypes ↔ command ∈ plainTypes ∨ command ∈ valueTypes := by
  simp only [validQueryTypes, plainTypes, valueTypes, List.mem_cons,
    List.not_mem_nil, or_false]
  grind

/-- No command is sent both with and without a value. -/
theorem not_mem_valueTypes {command : Str} (h : command ∈ plainTypes) :
    command ∉ valueTypes := by
  have hDisjoint : ∀ c ∈ plainTypes, c ∉ valueTypes := by decide
  exact hDisjoint command h

theorem wireExact_of_received {query : QueryMessage}
    (h : deserialize query.serialize = .ok { query with isValid := true }) :
    WireExact query :=
  ⟨h, rocksdbExchange_of_ok h, ResponseMessage.deserialize_serialize⟩

/-- **The client's messages arrive as they were sent**, keys without spaces
and a value where the command has one, exactly if they are no putm: the value
of a putm is not read. -/
theorem wire_exact_iff {query : QueryMessage}
    (hCommand : query.command ∈ validQueryTypes) (hKey : query.key ≠ [])
    (hSpace : space ∉ query.key)
    (hValue : query.value ≠ [] ↔ query.command ∈ valueTypes)
    (hFits : query.serialize.length < npos) :
    WireExact query ↔ query.command ≠ lit "putm" := by
  obtain ⟨command, key, value, isValid⟩ := query
  simp only at hCommand hKey hSpace hValue ⊢
  by_cases hPutm : command = lit "putm"
  · subst hPutm
    have hNonempty : value ≠ [] := hValue.mpr (by decide)
    rw [serialize_of_ne_nil _ _ _ hNonempty] at hFits
    have hRead := deserialize_of_ne_put hCommand hFits (by decide) (by simp)
    rw [firstToken_append hSpace] at hRead
    refine iff_of_false (fun h => ?_) (not_not_intro rfl)
    have hSame := h.received
    rw [serialize_of_ne_nil _ _ _ hNonempty, hRead] at hSame
    simp only [Except.ok.injEq, QueryMessage.mk.injEq] at hSame
    exact hNonempty hSame.2.2.1.symm
  · refine iff_of_true (wireExact_of_received ?_) hPutm
    by_cases hPut : command = lit "put"
    · subst hPut
      have hNonempty : value ≠ [] := hValue.mpr (by decide)
      rw [serialize_of_ne_nil _ _ _ hNonempty] at hFits ⊢
      exact deserialize_put hSpace hNonempty hFits
    · have hNil : value = [] := by
        by_contra hNonempty
        have hMem := hValue.mp hNonempty
        simp only [valueTypes, List.mem_cons, List.not_mem_nil, or_false] at hMem
        exact hMem.elim hPut hPutm
      subst hNil
      rw [serialize_of_nil] at hFits ⊢
      rw [deserialize_of_ne_put hCommand hFits hPut hKey,
        firstToken_of_not_mem hSpace]

/-- The metadata of a putm do not arrive, and the record is emptied. -/
theorem putm_value_lost :
    deserialize (serialize
        { command := lit "putm", key := lit "k", value := lit "v" }) =
      .ok { command := lit "putm", key := lit "k", isValid := true } ∧
    (rocksdbExchange { command := lit "putm", key := lit "k"
                       value := lit "v" } (fun _ => some (lit "old"))).2
      (lit "k") = some [] ∧
    ¬ WireExact { command := lit "putm", key := lit "k", value := lit "v" } := by
  have hRead : deserialize (serialize
      { command := lit "putm", key := lit "k", value := lit "v" }) =
      .ok { command := lit "putm", key := lit "k", isValid := true } := by
    decide +kernel
  refine ⟨hRead, by decide +kernel, fun h => ?_⟩
  have hSame := h.received
  rw [hRead] at hSame
  exact absurd hSame (by decide)

/-- A put whose value looks like a further message. -/
theorem wire_exact_put :
    WireExact { command := lit "put", key := lit "k"
                value := lit " put k v" } ↔ lit "put" ≠ lit "putm" :=
  wire_exact_iff (by decide) (by decide) (by decide) (by decide)
    (by decide +kernel)

/-! ## Lines -/

/-- The lines of the protocol and what they mean. -/
inductive Grammar : Str → QueryMessage → Prop
  | plain {command key : Str} (hCommand : command ∈ plainTypes)
      (hKey : space ∉ key) (hNonempty : key ≠ []) :
      Grammar (command ++ space :: key)
        { command := command, key := key, isValid := true }
  | value {command key value : Str} (hCommand : command ∈ valueTypes)
      (hKey : space ∉ key) (hNonempty : value ≠ []) :
      Grammar (command ++ space :: (key ++ space :: value))
        { command := command, key := key, value := value, isValid := true }

/-- A line is treated as the protocol says: its parts are read if it is one of
the protocol, and the database is left alone if it is not. -/
structure Conforms (line : Str) : Prop where
  accepts : ∀ m, deserialize line = .ok m ∧ m.isValid = true ↔ Grammar line m
  rejects : (∀ m, ¬ Grammar line m) →
    ∀ db, ∃ m, deserialize line = .ok m ∧ rocksdbProxy m db = ({}, db)

/-- The lines that are not. -/
inductive Misread : Str → Prop
  | trailing {command rest : Str} (hCommand : command ∈ plainTypes)
      (hRest : space ∈ rest) : Misread (command ++ space :: rest)
  | barePut {key : Str} (hKey : space ∉ key) (hNonempty : key ≠ []) :
      Misread (lit "put" ++ space :: key)
  | putm {rest : Str} (hRest : rest ≠ []) :
      Misread (lit "putm" ++ space :: rest)

/-- A line begins with a command and a space. -/
def Commands (line command rest : Str) : Prop :=
  command ∈ validQueryTypes ∧ line = command ++ space :: rest

theorem Commands.unique {line command rest command' rest' : Str}
    (h : Commands line command rest) (h' : Commands line command' rest') :
    command = command' ∧ rest = rest' := by
  obtain ⟨hCommand, rfl⟩ := h
  obtain ⟨hCommand', hLine⟩ := h'
  have hCut := cut_append (space_not_mem_of_valid hCommand) rest
  rw [hLine, cut_append (space_not_mem_of_valid hCommand')] at hCut
  simp only [Option.some.injEq, Prod.mk.injEq] at hCut
  exact ⟨hCut.1.symm, hCut.2.symm⟩

theorem Grammar.commands {line : Str} {m : QueryMessage} (h : Grammar line m) :
    ∃ rest, Commands line m.command rest := by
  cases h with
  | plain hCommand hKey hNonempty =>
      exact ⟨_, mem_validQueryTypes_iff.mpr (.inl hCommand), rfl⟩
  | value hCommand hKey hNonempty =>
      exact ⟨_, mem_validQueryTypes_iff.mpr (.inr hCommand), rfl⟩

/-- A line of the protocol that begins with a plain command. -/
theorem grammar_plain_iff {command rest : Str} (hCommand : command ∈ plainTypes)
    (m : QueryMessage) :
    Grammar (command ++ space :: rest) m ↔ space ∉ rest ∧ rest ≠ [] ∧
      m = { command := command, key := rest, isValid := true } := by
  have hHere : Commands (command ++ space :: rest) command rest :=
    ⟨mem_validQueryTypes_iff.mpr (.inl hCommand), rfl⟩
  constructor
  · intro h
    generalize hLine : command ++ space :: rest = line at h
    rw [hLine] at hHere
    cases h with
    | plain hCommand' hKey hNonempty =>
        obtain ⟨rfl, rfl⟩ := hHere.unique
          ⟨mem_validQueryTypes_iff.mpr (.inl hCommand'), rfl⟩
        exact ⟨hKey, hNonempty, rfl⟩
    | value hCommand' hKey hNonempty =>
        obtain ⟨rfl, -⟩ := hHere.unique
          ⟨mem_validQueryTypes_iff.mpr (.inr hCommand'), rfl⟩
        exact absurd hCommand' (not_mem_valueTypes hCommand)
  · rintro ⟨hKey, hNonempty, rfl⟩
    exact .plain hCommand hKey hNonempty

/-- One that begins with a command that has a value. -/
theorem grammar_value_iff {command rest : Str} (hCommand : command ∈ valueTypes)
    (m : QueryMessage) :
    Grammar (command ++ space :: rest) m ↔
      ∃ key value, rest = key ++ space :: value ∧ space ∉ key ∧ value ≠ [] ∧
        m = { command := command, key := key, value := value
              isValid := true } := by
  have hHere : Commands (command ++ space :: rest) command rest :=
    ⟨mem_validQueryTypes_iff.mpr (.inr hCommand), rfl⟩
  constructor
  · intro h
    generalize hLine : command ++ space :: rest = line at h
    rw [hLine] at hHere
    cases h with
    | plain hCommand' hKey hNonempty =>
        obtain ⟨rfl, -⟩ := hHere.unique
          ⟨mem_validQueryTypes_iff.mpr (.inl hCommand'), rfl⟩
        exact absurd hCommand (not_mem_valueTypes hCommand')
    | value hCommand' hKey hNonempty =>
        obtain ⟨rfl, rfl⟩ := hHere.unique
          ⟨mem_validQueryTypes_iff.mpr (.inr hCommand'), rfl⟩
        exact ⟨_, _, rfl, hKey, hNonempty, rfl⟩
  · rintro ⟨key, value, rfl, hKey, hNonempty, rfl⟩
    exact .value hCommand hKey hNonempty

/-! ## Lines that are treated as the protocol says -/

/-- A rejected line, where it is not one of the protocol. -/
theorem conforms_of_rejected {line : Str} {m : QueryMessage}
    (hRead : deserialize line = .ok m) (hInvalid : m.isValid = false)
    (hNot : ∀ m, ¬ Grammar line m) : Conforms line where
  accepts m' := by
    refine iff_of_false ?_ (hNot m')
    rintro ⟨hRead', hValid⟩
    rw [hRead, Except.ok.injEq] at hRead'
    rw [← hRead', hInvalid] at hValid
    cases hValid
  rejects _ db := ⟨m, hRead, by simp [rocksdbProxy, hInvalid]⟩

/-- An accepted line, where the protocol gives it the meaning it was read
with. -/
theorem conforms_of_accepted {line : Str} {m : QueryMessage}
    (hRead : deserialize line = .ok m) (hValid : m.isValid = true)
    (hGrammar : ∀ m', Grammar line m' ↔ m' = m) : Conforms line where
  accepts m' := by
    rw [hGrammar, hRead, Except.ok.injEq]
    constructor
    · exact fun h => h.1.symm
    · rintro rfl
      exact ⟨rfl, hValid⟩
  rejects hNot := absurd ((hGrammar m).mpr rfl) (hNot m)

/-- An accepted line that the protocol does not give this meaning. -/
theorem not_conforms {line : Str} {m : QueryMessage}
    (hRead : deserialize line = .ok m) (hValid : m.isValid = true)
    (hNot : ¬ Grammar line m) : ¬ Conforms line :=
  fun h => hNot ((h.accepts m).mp ⟨hRead, hValid⟩)

/-! ## Every line -/

/-- A line without a command is rejected. -/
private theorem conforms_of_no_command {line : Str} (hFits : line.length < npos)
    (hNone : ∀ command rest, ¬ Commands line command rest) : Conforms line := by
  have hNot : ∀ m, ¬ Grammar line m := fun m h =>
    h.commands.elim fun rest hCommands => hNone _ rest hCommands
  cases hCut : cut space line with
  | none =>
      have hFind : find space line 0 = npos :=
        find_of_not_mem (cut_eq_none_iff.mp hCut) []
      refine conforms_of_rejected (m := {}) ?_ rfl hNot
      rw [deserialize, hFind, if_pos rfl]
  | some parts =>
      obtain ⟨command, rest⟩ := parts
      obtain ⟨rfl, hSpace⟩ := cut_eq_some_iff.mp hCut
      have hCommand : command ∉ validQueryTypes := fun h =>
        hNone command rest ⟨h, rfl⟩
      have hFound : command.length ≠ npos := by
        simp only [List.length_append, List.length_cons] at hFits
        omega
      have hName : substr (command ++ space :: rest) 0 command.length =
          .ok command := substr_append [] command (space :: rest)
      refine conforms_of_rejected (m := { command := command }) ?_ rfl hNot
      simp only [deserialize, find_first hSpace, if_neg hFound, hName, bind,
        Except.bind, hCommand, not_false_eq_true, if_true, pure, Except.pure]

/-- A put that ends behind its key. -/
private theorem deserialize_put_nil {key : Str} (hKey : space ∉ key)
    (hFits : (lit "put" ++ space :: (key ++ [space])).length < npos) :
    deserialize (lit "put" ++ space :: (key ++ [space])) =
      .ok { command := lit "put", key := key } := by
  rw [deserialize_command (by decide) hFits, if_neg (by simp), if_pos rfl,
    firstToken_append hKey []]
  have hFront : lit "put" ++ space :: (key ++ [space]) =
      (lit "put" ++ [space]) ++ (key ++ [space]) := by simp
  have hPos : (lit "put").length + 1 = (lit "put" ++ [space]).length := by simp
  have hEnd : find space (lit "put" ++ space :: (key ++ [space]))
      ((lit "put").length + 1) = (lit "put").length + 1 + key.length := by
    rw [hFront, hPos, find_append hKey]
  have hLength : (lit "put" ++ space :: (key ++ [space])).length =
      (lit "put").length + 1 + key.length + 1 := by
    simp only [List.length_append, List.length_cons, List.length_nil]
    omega
  rw [hLength, npos] at hFits
  have hStart : sizeAdd ((lit "put").length + 1 + key.length) 1 =
      (lit "put").length + 1 + key.length + 1 := sizeAdd_of_lt (by omega)
  simp only [hEnd, hStart, hLength, Nat.le_refl, if_true, pure, Except.pure]

section Lines

variable {command rest : Str} (hFits : (command ++ space :: rest).length < npos)

include hFits

private theorem conforms_nil (hCommand : command ∈ validQueryTypes)
    (hRest : rest = []) (hNot : ∀ m, ¬ Grammar (command ++ space :: rest) m) :
    Conforms (command ++ space :: rest) := by
  refine conforms_of_rejected (m := { command := command }) ?_ rfl hNot
  rw [deserialize_command hCommand hFits, if_pos hRest]

/-- Behind a plain command everything is the key, or should be. -/
theorem conforms_plain_iff (hCommand : command ∈ plainTypes) :
    Conforms (command ++ space :: rest) ↔ space ∉ rest := by
  have hValid := mem_validQueryTypes_iff.mpr (.inl hCommand)
  have hPut : command ≠ lit "put" := by
    rintro rfl
    exact absurd hCommand (by decide)
  by_cases hRest : rest = []
  · refine iff_of_true (conforms_nil hFits hValid hRest fun m h => ?_)
      (by simp [hRest])
    exact ((grammar_plain_iff hCommand m).mp h).2.1 hRest
  · have hRead := deserialize_of_ne_put hValid hFits hPut hRest
    by_cases hSpace : space ∈ rest
    · refine iff_of_false (not_conforms hRead rfl fun h => ?_)
        (not_not_intro hSpace)
      exact ((grammar_plain_iff hCommand _).mp h).1 hSpace
    · rw [firstToken_of_not_mem hSpace] at hRead
      refine iff_of_true (conforms_of_accepted hRead rfl fun m' => ?_) hSpace
      rw [grammar_plain_iff hCommand]
      exact ⟨fun h => h.2.2, fun h => ⟨hSpace, hRest, h⟩⟩

/-- The value of a putm is not looked for. -/
theorem conforms_putm_iff (hCommand : command = lit "putm") :
    Conforms (command ++ space :: rest) ↔ rest = [] := by
  subst hCommand
  have hValue : lit "putm" ∈ valueTypes := by decide
  by_cases hRest : rest = []
  · refine iff_of_true (conforms_nil hFits (by decide) hRest fun m h => ?_) hRest
    obtain ⟨key, value, hParts, -, -, -⟩ := (grammar_value_iff hValue m).mp h
    rw [hRest] at hParts
    cases key <;> cases hParts
  · have hRead := deserialize_of_ne_put (by decide) hFits (by decide) hRest
    refine iff_of_false (not_conforms hRead rfl fun h => ?_) hRest
    obtain ⟨key, value, -, -, hNonempty, hSame⟩ :=
      (grammar_value_iff hValue _).mp h
    simp only [QueryMessage.mk.injEq] at hSame
    exact hNonempty hSame.2.2.1.symm

/-- The value of a put is looked for behind a second space, found or not. -/
theorem conforms_put_iff (hCommand : command = lit "put") :
    Conforms (command ++ space :: rest) ↔ rest = [] ∨ space ∈ rest := by
  subst hCommand
  have hValue : lit "put" ∈ valueTypes := by decide
  by_cases hRest : rest = []
  · refine iff_of_true (conforms_nil hFits (by decide) hRest fun m h => ?_)
      (.inl hRest)
    obtain ⟨key, value, hParts, -, -, -⟩ := (grammar_value_iff hValue m).mp h
    rw [hRest] at hParts
    cases key <;> cases hParts
  cases hCut : cut space rest with
  | none =>
      have hSpace := cut_eq_none_iff.mp hCut
      have hRead := deserialize_put_of_not_mem hSpace hRest hFits
      refine iff_of_false (not_conforms hRead rfl fun h => ?_)
        (not_or.mpr ⟨hRest, hSpace⟩)
      obtain ⟨key, value, rfl, -, -, -⟩ := (grammar_value_iff hValue _).mp h
      exact hSpace (by simp)
  | some parts =>
      obtain ⟨key, value⟩ := parts
      obtain ⟨rfl, hKey⟩ := cut_eq_some_iff.mp hCut
      refine iff_of_true ?_ (.inr (by simp))
      by_cases hNonempty : value = []
      · subst hNonempty
        refine conforms_of_rejected (deserialize_put_nil hKey hFits) rfl
          fun m h => ?_
        obtain ⟨key', value', hParts, hKey', hNonempty, -⟩ :=
          (grammar_value_iff hValue m).mp h
        rw [hParts, cut_append hKey'] at hCut
        simp only [Option.some.injEq, Prod.mk.injEq] at hCut
        exact hNonempty hCut.2
      · have hRead := deserialize_put hKey hNonempty hFits
        refine conforms_of_accepted hRead rfl fun m' => ?_
        rw [grammar_value_iff hValue]
        constructor
        · rintro ⟨key', value', hParts, hKey', -, rfl⟩
          have hCut' := hCut
          rw [hParts, cut_append hKey'] at hCut'
          simp only [Option.some.injEq, Prod.mk.injEq] at hCut'
          rw [hCut'.1, hCut'.2]
        · rintro rfl
          exact ⟨key, value, rfl, hKey, hNonempty, rfl⟩

end Lines

/-- The misread lines by their command. -/
private theorem misread_iff {line command rest : Str}
    (h : Commands line command rest) :
    Misread line ↔ (command ∈ plainTypes ∧ space ∈ rest) ∨
      (command = lit "put" ∧ space ∉ rest ∧ rest ≠ []) ∨
      (command = lit "putm" ∧ rest ≠ []) := by
  constructor
  · intro hMisread
    cases hMisread with
    | trailing hCommand hRest =>
        obtain ⟨rfl, rfl⟩ := h.unique
          ⟨mem_validQueryTypes_iff.mpr (.inl hCommand), rfl⟩
        exact .inl ⟨hCommand, hRest⟩
    | barePut hKey hNonempty =>
        obtain ⟨rfl, rfl⟩ := h.unique ⟨by decide, rfl⟩
        exact .inr (.inl ⟨rfl, hKey, hNonempty⟩)
    | putm hRest =>
        obtain ⟨rfl, rfl⟩ := h.unique ⟨by decide, rfl⟩
        exact .inr (.inr ⟨rfl, hRest⟩)
  · obtain ⟨-, rfl⟩ := h
    rintro (⟨hCommand, hRest⟩ | ⟨rfl, hKey, hNonempty⟩ | ⟨rfl, hRest⟩)
    · exact .trailing hCommand hRest
    · exact .barePut hKey hNonempty
    · exact .putm hRest

/-- **The lines that are treated as the protocol says** are those that are not
misread. -/
theorem conforms_iff {line : Str} (hFits : line.length < npos) :
    Conforms line ↔ ¬ Misread line := by
  by_cases hCommands : ∃ command rest, Commands line command rest
  · obtain ⟨command, rest, h⟩ := hCommands
    rw [misread_iff h]
    obtain ⟨hCommand, rfl⟩ := h
    rcases mem_validQueryTypes_iff.mp hCommand with hPlain | hValue
    · have hPut : command ≠ lit "put" := by
        rintro rfl
        exact absurd hPlain (by decide)
      have hPutm : command ≠ lit "putm" := by
        rintro rfl
        exact absurd hPlain (by decide)
      simp only [conforms_plain_iff hFits hPlain, hPlain, hPut, hPutm, true_and,
        false_and, or_false]
    · have hPlain : command ∉ plainTypes := fun h => not_mem_valueTypes h hValue
      simp only [valueTypes, List.mem_cons, List.not_mem_nil, or_false] at hValue
      rcases hValue with hPut | hPutm
      · have hPutm : command ≠ lit "putm" := by
          rw [hPut]
          decide
        rw [conforms_put_iff hFits hPut]
        simp only [hPlain, hPutm, eq_true hPut, true_and, false_and, false_or,
          or_false, ne_eq, not_and_or, not_not]
        exact or_comm
      · have hPut : command ≠ lit "put" := by
          rw [hPutm]
          decide
        rw [conforms_putm_iff hFits hPutm]
        simp only [hPlain, hPut, eq_true hPutm, true_and, false_and, false_or,
          ne_eq, not_not]
  · refine iff_of_true (conforms_of_no_command hFits fun command rest h =>
      hCommands ⟨command, rest, h⟩) fun hMisread => hCommands ?_
    cases hMisread with
    | trailing hCommand hRest =>
        exact ⟨_, _, mem_validQueryTypes_iff.mpr (.inl hCommand), rfl⟩
    | barePut hKey hNonempty => exact ⟨_, _, by decide, rfl⟩
    | putm hRest => exact ⟨_, _, by decide, rfl⟩

/-- A put without a value is accepted, with the whole line for its value, and
overwrites the record. -/
theorem bare_put_accepted :
    deserialize (lit "put k") =
      .ok { command := lit "put", key := lit "k", value := lit "put k"
            isValid := true } ∧
    (rocksdbProxy { command := lit "put", key := lit "k", value := lit "put k"
                    isValid := true } (fun _ => some (lit "old"))).2 (lit "k") =
      some (lit "put k") ∧
    (∀ m, ¬ Grammar (lit "put k") m) ∧ ¬ Conforms (lit "put k") := by
  have hRead : deserialize (lit "put k") =
      .ok { command := lit "put", key := lit "k", value := lit "put k"
            isValid := true } := by
    decide +kernel
  have hNot : ∀ m, ¬ Grammar (lit "put k") m := by
    intro m h
    have hValue : lit "put" ∈ valueTypes := by decide
    have hLine : lit "put k" = lit "put" ++ space :: lit "k" := by decide
    rw [hLine] at h
    obtain ⟨key, value, hParts, -, -, -⟩ := (grammar_value_iff hValue m).mp h
    have hSpace : space ∉ lit "k" := by decide
    rw [hParts] at hSpace
    exact hSpace (by simp)
  exact ⟨hRead, by decide +kernel, hNot, not_conforms hRead rfl (hNot _)⟩

/-- A put of a value with spaces. -/
theorem conforms_put_spaces :
    Conforms (lit "put k v w") ↔ ¬ Misread (lit "put k v w") :=
  conforms_iff (by decide +kernel)

end GDPRuler.Controller.QueryMessage
