import GDPRuler.Verified.Delim
import GDPRuler.Controller.KvClient

/-!
# The RocksDB protocol

`rocksdb_client` sends a query as one line, command, key and value between
spaces, and the server takes the line apart again at the first two spaces.
Neither side escapes anything, so a key that holds a space is another key and a
longer value to the server, and a put without a value is one whose "value" is
the whole line: the search for the second space fails, and `npos + 1` is 0.

`isolated_iff` says exactly for which keys and values the three basic
operations act on the entry they were meant for.
-/

namespace GDPRuler.Controller

open GDPRuler.Verified.Delim

/-- `' '` -/
def space : UInt8 := 32

/-! ## Messages -/

structure QueryMessage where
  command : Str := []
  key : Str := []
  value : Str := []
  isValid : Bool := false
  deriving DecidableEq

namespace QueryMessage

def serialize (query : QueryMessage) : Str :=
  let result := query.command ++ [space] ++ query.key
  if query.value ≠ [] then result ++ [space] ++ query.value else result

def validQueryTypes : List Str :=
  [lit "get", lit "put", lit "del", lit "getm", lit "putm"]

def deserialize (rawQuery : Str) : Except Exn QueryMessage :=
  let firstSpace := find space rawQuery 0
  if firstSpace = npos then .ok {}
  else do
    let command ← substr rawQuery 0 firstSpace
    if command ∉ validQueryTypes then
      return { command := command }
    else
      let keyStart := sizeAdd firstSpace 1
      if rawQuery.length ≤ keyStart then
        return { command := command }
      else
        let keyEnd := find space rawQuery keyStart
        let key ← substr rawQuery keyStart (sizeSub keyEnd keyStart)
        if command = lit "put" then
          let valueStart := sizeAdd keyEnd 1
          if rawQuery.length ≤ valueStart then
            return { command := command, key := key }
          else
            let value ← substr rawQuery valueStart npos
            return { command := command, key := key, value := value
                     isValid := true }
        else
          return { command := command, key := key, isValid := true }

end QueryMessage

structure ResponseMessage where
  isSuccess : Bool := false
  data : Str := []
  deriving DecidableEq

namespace ResponseMessage

def serialize (response : ResponseMessage) : Str :=
  (if response.isSuccess then lit "1" else lit "0") ++ response.data

def deserialize (rawResponse : Str) : ResponseMessage :=
  match rawResponse with
  | [] => {}
  | valid :: data =>
      if [valid] = lit "0" ∨ [valid] = lit "1" then
        { isSuccess := [valid] = lit "1", data := data }
      else {}

@[simp] theorem deserialize_serialize (response : ResponseMessage) :
    deserialize response.serialize = response := by
  have hFailure : lit "0" = [48] := rfl
  have hSuccess : lit "1" = [49] := rfl
  obtain ⟨isSuccess, data⟩ := response
  cases isSuccess <;> simp [serialize, deserialize, hFailure, hSuccess]

end ResponseMessage

/-! ## The server's database -/

/-- `rocksdb_proxy` over a RocksDB that is a map; its `Delete` succeeds for an
absent key as well. -/
def rocksdbProxy (query : QueryMessage) (db : Store) :
    ResponseMessage × Store :=
  if !query.isValid then ({}, db)
  else if query.command = lit "get" ∨ query.command = lit "getm" then
    match db query.key with
    | some value => ({ isSuccess := true, data := value }, db)
    | none => ({}, db)
  else if query.command = lit "put" ∨ query.command = lit "putm" then
    ({ isSuccess := true },
      Function.update db query.key (some query.value))
  else ({ isSuccess := true }, Function.update db query.key none)

/-- A query as the server receives it, and the response as the client does. -/
def rocksdbExchange (query : QueryMessage) (db : Store) :
    Option ResponseMessage × Store :=
  match QueryMessage.deserialize query.serialize with
  | .error _ => (none, db)
  | .ok received =>
      (some (.deserialize (rocksdbProxy received db).1.serialize),
        (rocksdbProxy received db).2)

/-! ## The driver -/

/-- `rocksdb_client` over a way of exchanging messages; without a response
there is no result. -/
def rocksdbClient {σ : Type}
    (execute : QueryMessage → σ → Option ResponseMessage × σ) : KvBackend σ :=
  let retrieve := fun (command key : Str) (s : σ) =>
    let answer := execute { command := command, key := key, isValid := true } s
    (answer.1.bind fun response =>
      if response.isSuccess then some response.data else none, answer.2)
  let change := fun (command key value : Str) (s : σ) =>
    let answer := execute
      { command := command, key := key, value := value, isValid := true } s
    ((answer.1.getD {}).isSuccess, answer.2)
  { get := retrieve (lit "get")
    put := change (lit "put")
    del := fun key => change (lit "del") key []
    getm := retrieve (lit "getm")
    putm := change (lit "putm") }

/-! ## Taking a line apart -/

namespace QueryMessage

/-- The key the server reads: up to the first space. -/
def firstToken (text : Str) : Str :=
  match cut space text with
  | some (token, _) => token
  | none => text

theorem firstToken_of_not_mem {text : Str} (hText : space ∉ text) :
    firstToken text = text := by
  rw [firstToken, cut_eq_none_iff.mpr hText]

theorem firstToken_append {token : Str} (hToken : space ∉ token) (more : Str) :
    firstToken (token ++ space :: more) = token := by
  rw [firstToken, cut_eq_some_iff.mpr ⟨rfl, hToken⟩]

theorem space_not_mem_of_valid {command : Str}
    (hCommand : command ∈ validQueryTypes) : space ∉ command := by
  simp only [validQueryTypes, List.mem_cons, List.not_mem_nil, or_false]
    at hCommand
  rcases hCommand with rfl | rfl | rfl | rfl | rfl <;> decide

/-- The first space of a line with a valid command. -/
theorem find_first {command : Str} (hSpace : space ∉ command)
    (rest : Str) : find space (command ++ space :: rest) 0 = command.length := by
  simpa using find_append hSpace [] rest

/-- Behind a front, the search stops at the first token of what follows, or
the length wraps and reaches the end. -/
private theorem substr_firstToken (front rest : Str)
    (hFits : front.length + rest.length < npos) :
    substr (front ++ rest) front.length
      (sizeSub (find space (front ++ rest) front.length) front.length) =
      .ok (firstToken rest) := by
  rw [npos] at hFits
  cases hCut : cut space rest with
  | none =>
      have hNot := cut_eq_none_iff.mp hCut
      rw [firstToken_of_not_mem hNot, find_of_not_mem hNot,
        sizeSub_of_le (by rw [npos]; omega) (by rw [npos]; omega)]
      exact substr_rest _ _ (by rw [npos]; omega)
  | some parts =>
      obtain ⟨token, more⟩ := parts
      obtain ⟨rfl, hToken⟩ := cut_eq_some_iff.mp hCut
      simp only [List.length_append, List.length_cons] at hFits
      rw [firstToken_append hToken, find_append hToken,
        sizeSub_of_le (by omega) (by omega), Nat.add_sub_cancel_left]
      exact substr_append _ token _

section Deserialize

variable {command rest : Str} (hCommand : command ∈ validQueryTypes)
  (hFits : (command ++ space :: rest).length < npos)

include hCommand hFits

/-- A line with a valid command: nothing behind it, a put, or any other. -/
theorem deserialize_command :
    deserialize (command ++ space :: rest) =
      if rest = [] then .ok { command := command }
      else if command = lit "put" then do
        let valueStart := sizeAdd
          (find space (command ++ space :: rest) (command.length + 1)) 1
        if (command ++ space :: rest).length ≤ valueStart then
          return { command := command, key := firstToken rest }
        else
          let value ← substr (command ++ space :: rest) valueStart npos
          return { command := command, key := firstToken rest, value := value
                   isValid := true }
      else .ok { command := command, key := firstToken rest, isValid := true }
        := by
  have hSpace := space_not_mem_of_valid hCommand
  have hLength : (command ++ space :: rest).length =
      command.length + 1 + rest.length := by
    simp only [List.length_append, List.length_cons]
    omega
  have hKey := substr_firstToken (command ++ [space]) rest
    (by simpa [hLength] using hFits)
  rw [List.append_assoc, List.singleton_append, List.length_append,
    List.length_singleton] at hKey
  rw [hLength, npos] at hFits
  have hFound : command.length ≠ npos := by rw [npos]; omega
  have hName : substr (command ++ space :: rest) 0 command.length =
      .ok command := substr_append [] command (space :: rest)
  have hStart : sizeAdd command.length 1 = command.length + 1 :=
    sizeAdd_of_lt (by omega)
  have hEmpty : command.length + 1 + rest.length ≤ command.length + 1 ↔
      rest = [] := by
    rw [← List.length_eq_zero_iff]
    omega
  unfold deserialize
  simp only [find_first hSpace, if_neg hFound, hName, hStart, hLength, hKey,
    bind, Except.bind, hCommand, not_true_eq_false, if_false, hEmpty, pure,
    Except.pure]

/-- Every command but `put` reads its key up to the next space. -/
theorem deserialize_of_ne_put (hPut : command ≠ lit "put")
    (hRest : rest ≠ []) :
    deserialize (command ++ space :: rest) =
      .ok { command := command, key := firstToken rest, isValid := true } := by
  rw [deserialize_command hCommand hFits, if_neg hRest, if_neg hPut]

end Deserialize

/-- A put reads the value behind the second space. -/
theorem deserialize_put {key value : Str} (hKey : space ∉ key)
    (hValue : value ≠ [])
    (hFits : (lit "put" ++ space :: (key ++ space :: value)).length < npos) :
    deserialize (lit "put" ++ space :: (key ++ space :: value)) =
      .ok { command := lit "put", key := key, value := value
            isValid := true } := by
  have hRest : key ++ space :: value ≠ [] := by simp
  rw [deserialize_command (by decide) hFits, if_neg hRest, if_pos rfl,
    firstToken_append hKey]
  have hFront : lit "put" ++ space :: (key ++ space :: value) =
      (lit "put" ++ [space]) ++ (key ++ space :: value) := by simp
  have hFrontValue : lit "put" ++ space :: (key ++ space :: value) =
      (lit "put" ++ space :: (key ++ [space])) ++ value := by simp
  have hPos : (lit "put").length + 1 = (lit "put" ++ [space]).length := by simp
  have hPosValue : (lit "put").length + 1 + key.length + 1 =
      (lit "put" ++ space :: (key ++ [space])).length := by
    simp only [List.length_append, List.length_cons, List.length_nil]
    omega
  have hLength : (lit "put" ++ space :: (key ++ space :: value)).length =
      (lit "put").length + 1 + key.length + 1 + value.length := by
    simp only [List.length_append, List.length_cons]
    omega
  have hSome : 0 < value.length := List.length_pos_iff.mpr hValue
  rw [hLength, npos] at hFits
  have hEnd : find space (lit "put" ++ space :: (key ++ space :: value))
      ((lit "put").length + 1) = (lit "put").length + 1 + key.length := by
    rw [hFront, hPos, find_append hKey]
  have hText : substr (lit "put" ++ space :: (key ++ space :: value))
      ((lit "put").length + 1 + key.length + 1) npos = .ok value := by
    rw [hFrontValue, hPosValue]
    exact substr_rest _ _ (by rw [npos]; omega)
  have hStart : sizeAdd ((lit "put").length + 1 + key.length) 1 =
      (lit "put").length + 1 + key.length + 1 := sizeAdd_of_lt (by omega)
  have hInside : ¬ (lit "put").length + 1 + key.length + 1 + value.length ≤
      (lit "put").length + 1 + key.length + 1 := by omega
  simp only [hEnd, hStart, hText, hLength, if_neg hInside, bind, Except.bind,
    pure, Except.pure]

/-- Without a second space the value of a put is the whole line. -/
theorem deserialize_put_of_not_mem {key : Str} (hKey : space ∉ key)
    (hNonempty : key ≠ [])
    (hFits : (lit "put" ++ space :: key).length < npos) :
    deserialize (lit "put" ++ space :: key) =
      .ok { command := lit "put", key := key, value := lit "put" ++ space :: key
            isValid := true } := by
  rw [deserialize_command (by decide) hFits, if_neg hNonempty, if_pos rfl,
    firstToken_of_not_mem hKey]
  have hPos : (lit "put").length + 1 = (lit "put" ++ [space]).length := by simp
  have hFront : lit "put" ++ space :: key = (lit "put" ++ [space]) ++ key := by
    simp
  have hSome : ¬ (lit "put" ++ space :: key).length ≤ 0 := by simp
  have hEnd : find space (lit "put" ++ space :: key) ((lit "put").length + 1) =
      npos := by
    rw [hFront, hPos, find_of_not_mem hKey]
  -- `npos + 1` is 0
  have hStart : sizeAdd npos 1 = 0 := by decide
  have hText : substr (lit "put" ++ space :: key) 0 npos =
      .ok (lit "put" ++ space :: key) :=
    substr_rest [] _ (Nat.le_of_lt hFits)
  simp only [hEnd, hStart, if_neg hSome, hText, bind, Except.bind, pure,
    Except.pure]

end QueryMessage

/-! ## Requests -/

section Requests

open QueryMessage

variable {command key value : Str}

theorem space_not_mem_firstToken (key : Str) : space ∉ firstToken key := by
  unfold firstToken
  cases hCut : cut space key with
  | none => exact cut_eq_none_iff.mp hCut
  | some parts => exact (cut_eq_some_iff.mp hCut).2

/-- A query that is read back is executed, and its response is read back. -/
theorem rocksdbExchange_of_ok {query received : QueryMessage}
    (hRead : deserialize query.serialize = .ok received) (db : Store) :
    rocksdbExchange query db =
      (some (rocksdbProxy received db).1, (rocksdbProxy received db).2) := by
  simp only [rocksdbExchange, hRead, ResponseMessage.deserialize_serialize]

theorem serialize_of_nil (command key : Str) (isValid : Bool) :
    serialize { command := command, key := key, isValid := isValid } =
      command ++ space :: key := by
  simp [serialize]

theorem serialize_of_ne_nil (command key : Str) (isValid : Bool)
    (hValue : value ≠ []) :
    serialize { command := command, key := key, value := value
                isValid := isValid } =
      command ++ space :: (key ++ space :: value) := by
  simp [serialize, hValue]

variable (hFits : key.length + value.length + 5 < npos)

include hFits

private theorem line_lt (hCommand : command.length ≤ 4) :
    (command ++ space :: key).length < npos := by
  simp only [List.length_append, List.length_cons]
  omega

/-- A read is one of the entry under the first token of the key. -/
theorem rocksdbExchange_read
    (hCommand : command = lit "get" ∨ command = lit "getm") (hKey : key ≠ [])
    (db : Store) :
    rocksdbExchange { command := command, key := key, isValid := true } db =
      (some (match db (firstToken key) with
        | some stored => { isSuccess := true, data := stored }
        | none => {}), db) := by
  have hValid : command ∈ validQueryTypes := by
    rcases hCommand with rfl | rfl <;> decide
  have hPut : command ≠ lit "put" := by
    rcases hCommand with rfl | rfl <;> decide
  have hShort : command.length ≤ 4 := by
    rcases hCommand with rfl | rfl <;> decide
  have hRead := deserialize_of_ne_put hValid (line_lt hFits hShort) hPut hKey
  rw [← serialize_of_nil command key true] at hRead
  rw [rocksdbExchange_of_ok hRead]
  simp only [rocksdbProxy, Bool.not_true, Bool.false_eq_true, if_false,
    if_pos hCommand]
  cases db (firstToken key) <;> rfl

theorem rocksdbExchange_del (hKey : key ≠ []) (db : Store) :
    rocksdbExchange { command := lit "del", key := key, isValid := true } db =
      (some { isSuccess := true },
        Function.update db (firstToken key) none) := by
  have hGet : ¬ (lit "del" = lit "get" ∨ lit "del" = lit "getm") := by decide
  have hPut : ¬ (lit "del" = lit "put" ∨ lit "del" = lit "putm") := by decide
  have hLine : (lit "del" ++ space :: key).length < npos :=
    line_lt hFits (by decide)
  have hRead := deserialize_of_ne_put (by decide) hLine (by decide) hKey
  rw [← serialize_of_nil _ key true] at hRead
  rw [rocksdbExchange_of_ok hRead]
  simp only [rocksdbProxy, Bool.not_true, Bool.false_eq_true, if_false,
    if_neg hGet, if_neg hPut]

omit hFits in
private theorem rocksdbProxy_put (key value : Str) (db : Store) :
    rocksdbProxy { command := lit "put", key := key, value := value
                   isValid := true } db =
      ({ isSuccess := true }, Function.update db key (some value)) := by
  have hGet : ¬ (lit "put" = lit "get" ∨ lit "put" = lit "getm") := by decide
  simp only [rocksdbProxy, Bool.not_true, Bool.false_eq_true, if_false,
    if_neg hGet, true_or, if_true]

theorem rocksdbExchange_put (hKey : space ∉ key) (hValue : value ≠ [])
    (db : Store) :
    rocksdbExchange { command := lit "put", key := key, value := value
                      isValid := true } db =
      (some { isSuccess := true }, Function.update db key (some value)) := by
  have hLine : (lit "put" ++ space :: (key ++ space :: value)).length <
      npos := by
    have hName : (lit "put").length = 3 := rfl
    simp only [List.length_append, List.length_cons, hName]
    omega
  have hRead := deserialize_put hKey hValue hLine
  rw [← serialize_of_ne_nil _ key true hValue] at hRead
  rw [rocksdbExchange_of_ok hRead, rocksdbProxy_put]

/-- An empty value is not stored; the line that was to carry it is. -/
theorem rocksdbExchange_put_nil (hNonempty : key ≠ []) (hKey : space ∉ key)
    (db : Store) :
    rocksdbExchange { command := lit "put", key := key, isValid := true } db =
      (some { isSuccess := true },
        Function.update db key (some (lit "put" ++ space :: key))) := by
  have hLine : (lit "put" ++ space :: key).length < npos :=
    line_lt hFits (by decide)
  have hRead := (congrArg deserialize (serialize_of_nil _ key true)).trans
    (deserialize_put_of_not_mem hKey hNonempty hLine)
  rw [rocksdbExchange_of_ok hRead, rocksdbProxy_put]

end Requests

/-! ## Key isolation -/

section Isolation

open QueryMessage

/-- The exchange over a database in the server's memory. -/
abbrev rocksdbDirect : KvBackend Store := rocksdbClient rocksdbExchange

/-- Put, get and delete of `key` act on the entry of `key` and on no other, and
`value` is what a put stores. -/
structure Isolated (key value : Str) : Prop where
  put : ∀ db, rocksdbDirect.put key value db =
    (true, Function.update db key (some value))
  get : ∀ db, rocksdbDirect.get key db = (db key, db)
  del : ∀ db, rocksdbDirect.del key db = (true, Function.update db key none)

variable {key value : Str}

theorem rocksdbDirect_get (hFits : key.length + value.length + 5 < npos)
    (hKey : key ≠ []) (db : Store) :
    rocksdbDirect.get key db = (db (firstToken key), db) := by
  simp only [rocksdbDirect, rocksdbClient,
    rocksdbExchange_read hFits (.inl rfl) hKey]
  cases db (firstToken key) <;> rfl

/-- Without a key nothing is read. -/
theorem rocksdbDirect_get_nil (db : Store) :
    rocksdbDirect.get [] db = (none, db) := by
  have hRead : deserialize (serialize { command := lit "get", key := []
                                        isValid := true }) =
      .ok { command := lit "get" } := by decide +kernel
  simp only [rocksdbDirect, rocksdbClient, rocksdbExchange_of_ok hRead]
  rfl

namespace Isolated

/-- An isolated key is read under its own name, not that of its first token. -/
theorem space_not_mem (h : Isolated key value) (hNonempty : key ≠ [])
    (hFits : key.length + value.length + 5 < npos) : space ∉ key := by
  intro hSpace
  have hOther : firstToken key ≠ key := fun hSame =>
    space_not_mem_firstToken key (hSame.symm ▸ hSpace)
  have hRead := h.get (Function.update (fun _ => none) key (some []))
  rw [rocksdbDirect_get hFits hNonempty, Function.update_of_ne hOther,
    Function.update_self] at hRead
  cases congrArg Prod.fst hRead

theorem key_ne_nil (h : Isolated key value) : key ≠ [] := by
  rintro rfl
  have hRead := h.get fun _ => some []
  rw [rocksdbDirect_get_nil] at hRead
  cases congrArg Prod.fst hRead

theorem value_ne_nil (h : Isolated key value)
    (hFits : key.length + value.length + 5 < npos) : value ≠ [] := by
  rintro rfl
  have hStored := h.put fun _ => none
  simp only [rocksdbDirect, rocksdbClient, rocksdbExchange_put_nil hFits
    h.key_ne_nil (h.space_not_mem h.key_ne_nil hFits)] at hStored
  have hEntry := congrFun (congrArg Prod.snd hStored) key
  simp only [Function.update_self, Option.some.injEq] at hEntry
  cases congrArg List.length hEntry

end Isolated

/-- **Key isolation** over the RocksDB backend: exactly the non-empty keys
without a space and the non-empty values. -/
theorem isolated_iff (hFits : key.length + value.length + 5 < npos) :
    Isolated key value ↔ key ≠ [] ∧ space ∉ key ∧ value ≠ [] := by
  constructor
  · intro h
    exact ⟨h.key_ne_nil, h.space_not_mem h.key_ne_nil hFits,
      h.value_ne_nil hFits⟩
  · rintro ⟨hNonempty, hKey, hValue⟩
    refine ⟨fun db => ?_, fun db => ?_, fun db => ?_⟩
    · simp only [rocksdbDirect, rocksdbClient,
        rocksdbExchange_put hFits hKey hValue, Option.getD_some]
    · rw [rocksdbDirect_get hFits hNonempty, firstToken_of_not_mem hKey]
    · simp only [rocksdbDirect, rocksdbClient,
        rocksdbExchange_del hFits hNonempty, firstToken_of_not_mem hKey,
        Option.getD_some]

/-- `isolated_iff` at the key `ab`. -/
theorem isolated_ab : Isolated (lit "ab") (lit "v") :=
  (isolated_iff (by rw [npos]; decide)).mpr (by decide)

/-- A put of `a b` stores `b v` at `a`. -/
theorem put_at_another_key :
    (rocksdbDirect.put (lit "a b") (lit "v") fun _ => none).2 (lit "a") =
        some (lit "b v") ∧
      (rocksdbDirect.put (lit "a b") (lit "v") fun _ => none).2 (lit "a b") =
        none ∧
      ¬ Isolated (lit "a b") (lit "v") := by
  refine ⟨by decide +kernel, by decide +kernel, fun h => ?_⟩
  exact absurd ((isolated_iff (by rw [npos]; decide)).mp h).2.1 (by decide)

end Isolation

end GDPRuler.Controller
