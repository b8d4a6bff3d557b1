import Mathlib.Data.List.Basic

/-!
# Delimited lists: cutting, scanning and joining at a separator

Records, option lists and log entries are flat lists whose fields are told
apart by a separator element.  Four ways of taking such a list apart recur:

* `cut c s` — at the *first* separator;
* `cutLast c s` — at the *last* separator;
* `tokens c n s` — at every separator, in a loop of at most `n` cuts;
* `scan c step n i s acc` — the loop "while fewer than `n` fields were read
  and a separator remains, hand the next field to `step`".

This module gives their specifications over an arbitrary element type, and
relates them to `joinFields`, the list in which every field is followed by
the separator.  Nothing here knows what the fields mean.

## Main results

* `cut_eq_some_iff`, `cutLast_eq_some_iff` — the exact meaning of a cut.
* `tokens_eq_splitOn` — the token loop is core's `List.splitOn`.
* `scan_joinFields` — a scan reads back exactly the fields that were joined,
  as long as no field contains the separator.
* `scan_eq_ok` — conversely, a successful scan read a joined list of
  separator-free fields.
-/

namespace GDPRuler.Verified.Delim

variable {α : Type*} [DecidableEq α]

/-! ## Cutting at the first separator -/

/-- `s` up to the first `c`, and what follows that `c`. -/
def cut (c : α) : List α → Option (List α × List α)
  | [] => none
  | x :: xs =>
      if x = c then some ([], xs)
      else (cut c xs).map fun parts => (x :: parts.1, parts.2)

theorem cut_eq_none_iff {c : α} {s : List α} : cut c s = none ↔ c ∉ s := by
  induction s with
  | nil => simp [cut]
  | cons x xs ih =>
      by_cases hx : x = c
      · simp [cut, hx]
      · have hc : c ≠ x := fun h => hx h.symm
        simp [cut, hx, hc, ih]

theorem cut_append {c : α} {field : List α} (hField : c ∉ field)
    (rest : List α) : cut c (field ++ c :: rest) = some (field, rest) := by
  induction field with
  | nil => simp [cut]
  | cons x xs ih =>
      have hx : x ≠ c := fun h => hField (by simp [h])
      have hxs : c ∉ xs := fun h => hField (by simp [h])
      simp [cut, hx, ih hxs]

/-- A cut is exactly a decomposition whose left part is separator-free. -/
theorem cut_eq_some_iff {c : α} {s field rest : List α} :
    cut c s = some (field, rest) ↔ s = field ++ c :: rest ∧ c ∉ field := by
  constructor
  · intro h
    induction s generalizing field with
    | nil => simp [cut] at h
    | cons x xs ih =>
        by_cases hx : x = c
        · simp only [cut, hx, if_true, Option.some.injEq, Prod.mk.injEq] at h
          obtain ⟨rfl, rfl⟩ := h
          simp [hx]
        · simp only [cut, hx, if_false, Option.map_eq_some_iff] at h
          obtain ⟨⟨a, b⟩, hCut, hEq⟩ := h
          obtain ⟨rfl, rfl⟩ := Prod.mk.injEq .. ▸ hEq
          obtain ⟨hxs, ha⟩ := ih hCut
          have hc : c ≠ x := fun h => hx h.symm
          exact ⟨by simp [hxs], by simp [ha, hc]⟩
  · rintro ⟨rfl, hField⟩
    exact cut_append hField rest

/-! ## Cutting at the last separator -/

/-- `s` up to the last `c`, and what follows that `c`. -/
def cutLast (c : α) : List α → Option (List α × List α)
  | [] => none
  | x :: xs =>
      match cutLast c xs with
      | some parts => some (x :: parts.1, parts.2)
      | none => if x = c then some ([], xs) else none

theorem cutLast_eq_none_iff {c : α} {s : List α} :
    cutLast c s = none ↔ c ∉ s := by
  induction s with
  | nil => simp [cutLast]
  | cons x xs ih =>
      cases hRest : cutLast c xs with
      | none =>
          have hxs : c ∉ xs := ih.mp hRest
          by_cases hx : x = c
          · simp [cutLast, hRest, hx]
          · have hc : c ≠ x := fun h => hx h.symm
            simp [cutLast, hRest, hx, hc, hxs]
      | some parts =>
          have hxs : c ∈ xs := by
            by_contra hNot
            rw [ih.mpr hNot] at hRest
            cases hRest
          simp [cutLast, hRest, hxs]

theorem cutLast_append {c : α} (front : List α) {back : List α}
    (hBack : c ∉ back) :
    cutLast c (front ++ c :: back) = some (front, back) := by
  induction front with
  | nil => simp [cutLast, cutLast_eq_none_iff.mpr hBack]
  | cons x xs ih => simp [cutLast, ih]

/-- A last cut is exactly a decomposition whose right part is
separator-free. -/
theorem cutLast_eq_some_iff {c : α} {s front back : List α} :
    cutLast c s = some (front, back) ↔
      s = front ++ c :: back ∧ c ∉ back := by
  constructor
  · intro h
    induction s generalizing front with
    | nil => simp [cutLast] at h
    | cons x xs ih =>
        cases hRest : cutLast c xs with
        | some parts =>
            simp only [cutLast, hRest, Option.some.injEq, Prod.mk.injEq] at h
            obtain ⟨rfl, rfl⟩ := h
            obtain ⟨hxs, hBack⟩ := ih hRest
            exact ⟨by rw [List.cons_append, ← hxs], hBack⟩
        | none =>
            by_cases hx : x = c
            · simp only [cutLast, hRest, hx, if_true, Option.some.injEq,
                Prod.mk.injEq] at h
              obtain ⟨rfl, rfl⟩ := h
              exact ⟨by simp [hx], cutLast_eq_none_iff.mp hRest⟩
            · simp [cutLast, hRest, hx] at h
  · rintro ⟨rfl, hBack⟩
    exact cutLast_append front hBack

/-- A list that holds the separator can be cut at the last one. -/
theorem exists_cutLast {c : α} {s : List α} (h : c ∈ s) :
    ∃ front back, cutLast c s = some (front, back) := by
  cases hCut : cutLast c s with
  | none => exact absurd h (cutLast_eq_none_iff.mp hCut)
  | some parts => exact ⟨parts.1, parts.2, rfl⟩

/-- The last cut of a list whose tail holds the separator is made inside
that tail. -/
theorem cutLast_append_of_mem {c : α} (head : List α) {tail : List α}
    (h : c ∈ tail) :
    cutLast c (head ++ tail) =
      (cutLast c tail).map fun parts => (head ++ parts.1, parts.2) := by
  obtain ⟨front, back, hCut⟩ := exists_cutLast h
  obtain ⟨rfl, hBack⟩ := cutLast_eq_some_iff.mp hCut
  rw [hCut, ← List.append_assoc, cutLast_append _ hBack]
  rfl

/-! ## All tokens -/

/-- The token loop: cut at the first separator again and again, the last
token being what is left when none remains. -/
def tokens (c : α) : Nat → List α → List (List α)
  | 0, s => [s]
  | n + 1, s =>
      match cut c s with
      | none => [s]
      | some (token, rest) => token :: tokens c n rest

/-- With enough rounds the token loop is `List.splitOn`. -/
theorem tokens_eq_splitOn {c : α} {n : Nat} {s : List α}
    (h : s.length ≤ n) : tokens c n s = s.splitOn c := by
  induction n generalizing s with
  | zero =>
      obtain rfl : s = [] := List.eq_nil_of_length_eq_zero (by omega)
      simp [tokens]
  | succ n ih =>
      cases hCut : cut c s with
      | none =>
          have hNot : c ∉ s := cut_eq_none_iff.mp hCut
          simp [tokens, hCut, List.splitOn_eq_singleton hNot]
      | some parts =>
          obtain ⟨token, rest⟩ := parts
          obtain ⟨rfl, hToken⟩ := cut_eq_some_iff.mp hCut
          have hRest : rest.length ≤ n := by
            simp only [List.length_append, List.length_cons] at h
            omega
          rw [tokens, cut_append hToken,
            List.splitOn_append_cons_self_of_not_mem hToken, ← ih hRest]

theorem length_le_of_mem_tokens {c : α} {n : Nat} {s token : List α}
    (hMem : token ∈ tokens c n s) : token.length ≤ s.length := by
  induction n generalizing s with
  | zero => exact Nat.le_of_eq (congrArg List.length (List.mem_singleton.mp hMem))
  | succ n ih =>
      cases hCut : cut c s with
      | none =>
          rw [tokens, hCut] at hMem
          exact Nat.le_of_eq
            (congrArg List.length (List.mem_singleton.mp hMem))
      | some parts =>
          obtain ⟨first, rest⟩ := parts
          obtain ⟨rfl, hFirst⟩ := cut_eq_some_iff.mp hCut
          rw [tokens, cut_append hFirst] at hMem
          simp only [List.length_append, List.length_cons]
          cases List.mem_cons.mp hMem with
          | inl hHead =>
              rw [hHead]
              omega
          | inr hTail =>
              have hRest := ih hTail
              omega

omit [DecidableEq α] in
/-- What holds of a separator and in every text holds in their list. -/
theorem forall_mem_intercalate {P : α → Prop} {c : α} {texts : List (List α)}
    (hSep : P c) (hTexts : ∀ text ∈ texts, ∀ b ∈ text, P b) :
    ∀ b ∈ [c].intercalate texts, P b := by
  induction texts with
  | nil => simp
  | cons text rest ih =>
      rw [List.forall_mem_cons] at hTexts
      cases rest with
      | nil => simpa using hTexts.1
      | cons next rest =>
          intro b hMem
          rw [List.intercalate_cons_cons, List.mem_append, List.mem_append,
            List.mem_singleton] at hMem
          rcases hMem with (hText | hComma) | hRest
          · exact hTexts.1 b hText
          · exact hComma ▸ hSep
          · exact ih hTexts.2 b hRest

/-! ## Joined fields -/

/-- Every field followed by the separator, then `rest`. -/
def joinFields (c : α) (fields : List (List α)) (rest : List α) : List α :=
  fields.foldr (fun field tail => field ++ c :: tail) rest

omit [DecidableEq α] in
@[simp] theorem joinFields_nil (c : α) (rest : List α) :
    joinFields c [] rest = rest := rfl

omit [DecidableEq α] in
@[simp] theorem joinFields_cons (c : α) (field : List α)
    (fields : List (List α)) (rest : List α) :
    joinFields c (field :: fields) rest =
      field ++ c :: joinFields c fields rest := rfl

omit [DecidableEq α] in
theorem joinFields_append (c : α) (fields more : List (List α))
    (rest : List α) :
    joinFields c (fields ++ more) rest =
      joinFields c fields (joinFields c more rest) := by
  induction fields with
  | nil => rfl
  | cons field fields ih => simp [ih]

omit [DecidableEq α] in
/-- What follows the fields is a suffix that can be split off. -/
theorem joinFields_rest (c : α) (fields : List (List α)) (rest : List α) :
    joinFields c fields rest = joinFields c fields [] ++ rest := by
  induction fields with
  | nil => rfl
  | cons field fields ih =>
      rw [joinFields_cons, ih]
      simp

omit [DecidableEq α] in
/-- The separator-terminated part ends in the separator. -/
theorem joinFields_concat (c : α) (fields : List (List α)) (last rest : List α) :
    joinFields c (fields ++ [last]) rest =
      (joinFields c fields [] ++ last) ++ c :: rest := by
  rw [joinFields_append, joinFields_rest]
  simp

/-! ## The pieces of joined fields -/

/-- A list joins from its tokens. -/
theorem joinFields_tokens {c : α} {n : Nat} {s : List α} (h : s.length ≤ n)
    (rest : List α) : joinFields c (tokens c n s) rest = s ++ c :: rest := by
  induction n generalizing s with
  | zero => rfl
  | succ n ih =>
      cases hCut : cut c s with
      | none => rw [tokens, hCut, joinFields_cons, joinFields_nil]
      | some parts =>
          obtain ⟨token, tail⟩ := parts
          obtain ⟨rfl, -⟩ := cut_eq_some_iff.mp hCut
          simp only [List.length_append, List.length_cons] at h
          rw [tokens, hCut]
          simp only
          rw [joinFields_cons, ih (by omega)]
          simp

/-- The tokens of all the fields, in order: what is found between separators
once the fields are joined. -/
def pieces (c : α) (fields : List (List α)) : List (List α) :=
  fields.flatMap fun field => tokens c field.length field

theorem joinFields_pieces (c : α) (fields : List (List α)) (rest : List α) :
    joinFields c (pieces c fields) rest = joinFields c fields rest := by
  induction fields with
  | nil => rfl
  | cons field fields ih =>
      rw [pieces, List.flatMap_cons, joinFields_append,
        joinFields_tokens (Nat.le_refl _), joinFields_cons]
      exact congrArg (field ++ c :: ·) ih

theorem not_mem_of_mem_tokens {c : α} {n : Nat} {s token : List α}
    (h : s.length ≤ n) (hMem : token ∈ tokens c n s) : c ∉ token := by
  induction n generalizing s with
  | zero =>
      obtain rfl : s = [] := List.eq_nil_of_length_eq_zero (by omega)
      rw [List.mem_singleton.mp hMem]
      exact List.not_mem_nil
  | succ n ih =>
      cases hCut : cut c s with
      | none =>
          rw [tokens, hCut] at hMem
          rw [List.mem_singleton.mp hMem]
          exact cut_eq_none_iff.mp hCut
      | some parts =>
          obtain ⟨first, rest⟩ := parts
          obtain ⟨rfl, hFirst⟩ := cut_eq_some_iff.mp hCut
          simp only [List.length_append, List.length_cons] at h
          rw [tokens, hCut] at hMem
          rcases List.mem_cons.mp hMem with rfl | hTail
          · exact hFirst
          · exact ih (by omega) hTail

theorem not_mem_of_mem_pieces {c : α} {fields : List (List α)}
    {piece : List α} (hMem : piece ∈ pieces c fields) : c ∉ piece := by
  obtain ⟨field, -, hToken⟩ := List.mem_flatMap.mp hMem
  exact not_mem_of_mem_tokens (Nat.le_refl _) hToken

theorem length_le_length_pieces (c : α) (fields : List (List α)) :
    fields.length ≤ (pieces c fields).length := by
  induction fields with
  | nil => exact Nat.zero_le _
  | cons field fields ih =>
      have hToken : 0 < (tokens c field.length field).length := by
        cases field with
        | nil => exact Nat.one_pos
        | cons a field =>
            rw [List.length_cons, tokens]
            split <;> exact Nat.succ_pos _
      rw [pieces, List.flatMap_cons, List.length_append, List.length_cons]
      rw [pieces] at ih
      omega

/-- Fields without separators are their own pieces. -/
theorem pieces_of_forall {c : α} {fields : List (List α)}
    (h : ∀ field ∈ fields, c ∉ field) : pieces c fields = fields := by
  induction fields with
  | nil => rfl
  | cons field fields ih =>
      rw [List.forall_mem_cons] at h
      have hToken : tokens c field.length field = [field] := by
        rw [tokens_eq_splitOn (Nat.le_refl _), List.splitOn_eq_singleton h.1]
      rw [pieces, List.flatMap_cons, hToken]
      exact congrArg (field :: ·) (ih h.2)

/-! ## Splitting behind a number of fields -/

/-- The first `n` fields with their separators, and what follows them; the
whole list where there are fewer. -/
def splitFields (c : α) : Nat → List α → List α × List α
  | 0, s => ([], s)
  | n + 1, s =>
      match cut c s with
      | none => (s, [])
      | some (field, rest) =>
          (field ++ c :: (splitFields c n rest).1, (splitFields c n rest).2)

theorem splitFields_joinFields {c : α} {fields : List (List α)}
    (hFields : ∀ field ∈ fields, c ∉ field) (rest : List α) :
    splitFields c fields.length (joinFields c fields rest) =
      (joinFields c fields [], rest) := by
  induction fields with
  | nil => rfl
  | cons field fields ih =>
      rw [List.forall_mem_cons] at hFields
      rw [List.length_cons, joinFields_cons, splitFields,
        cut_append hFields.1]
      simp only [ih hFields.2, joinFields_cons]

/-- A field is split off exactly where there is a separator. -/
theorem mem_splitFields_succ_iff {c : α} (n : Nat) {s : List α} :
    c ∈ (splitFields c (n + 1) s).1 ↔ c ∈ s := by
  cases hCut : cut c s with
  | none => simp [splitFields, hCut]
  | some parts =>
      obtain ⟨rfl, -⟩ := cut_eq_some_iff.mp hCut
      simp [splitFields, hCut]

/-! ## Scanning fields -/

section Scan

variable {σ ε : Type*}

/--
`while (count < bound && (end = s.find(c, start)) != npos)`: at most `n`
more fields are read, numbered from `i`; the unread suffix and the number of
fields read so far come back with the accumulator.
-/
def scan (c : α) (step : Nat → List α → σ → Except ε σ) :
    Nat → Nat → List α → σ → Except ε (Nat × List α × σ)
  | 0, i, s, acc => .ok (i, s, acc)
  | n + 1, i, s, acc =>
      match cut c s with
      | none => .ok (i, s, acc)
      | some (field, rest) =>
          match step i field acc with
          | .error e => .error e
          | .ok acc' => scan c step n (i + 1) rest acc'

/-- The accumulator after `step` saw `fields` in order, numbered from `i`. -/
def steps (step : Nat → List α → σ → Except ε σ) :
    Nat → List (List α) → σ → Except ε σ
  | _, [], acc => .ok acc
  | i, field :: fields, acc =>
      match step i field acc with
      | .error e => .error e
      | .ok acc' => steps step (i + 1) fields acc'

theorem scan_of_not_mem {c : α} (step : Nat → List α → σ → Except ε σ)
    (n i : Nat) {s : List α} (acc : σ) (h : c ∉ s) :
    scan c step n i s acc = .ok (i, s, acc) := by
  cases n with
  | zero => rfl
  | succ n => simp [scan, cut_eq_none_iff.mpr h]

/-- A scan reads joined separator-free fields back one by one and goes on
behind them. -/
theorem scan_joinFields {c : α} (step : Nat → List α → σ → Except ε σ)
    (fields : List (List α)) (hFields : ∀ field ∈ fields, c ∉ field)
    (n i : Nat) (rest : List α) (acc : σ) :
    scan c step (fields.length + n) i (joinFields c fields rest) acc =
      match steps step i fields acc with
      | .error e => .error e
      | .ok acc' => scan c step n (i + fields.length) rest acc' := by
  induction fields generalizing i acc with
  | nil => simp [steps]
  | cons field fields ih =>
      have hField : c ∉ field := hFields field (by simp)
      have hRest : ∀ f ∈ fields, c ∉ f := fun f hf => hFields f (by simp [hf])
      rw [List.length_cons, Nat.add_right_comm, joinFields_cons]
      simp only [scan, cut_append hField, steps]
      cases hStep : step i field acc with
      | error e => rfl
      | ok acc' =>
          simp only
          rw [ih hRest, Nat.add_assoc, Nat.add_comm 1]

/-- A successful scan read a joined list of separator-free fields; it
stopped short of its bound only where no separator was left. -/
theorem scan_eq_ok {c : α} {step : Nat → List α → σ → Except ε σ}
    {n i j : Nat} {s rest : List α} {acc acc' : σ}
    (h : scan c step n i s acc = .ok (j, rest, acc')) :
    ∃ fields : List (List α),
      s = joinFields c fields rest ∧ (∀ field ∈ fields, c ∉ field) ∧
      j = i + fields.length ∧ fields.length ≤ n ∧
      steps step i fields acc = .ok acc' ∧
      (fields.length < n → c ∉ rest) := by
  induction n generalizing i s acc with
  | zero =>
      simp only [scan, Except.ok.injEq, Prod.mk.injEq] at h
      obtain ⟨rfl, rfl, rfl⟩ := h
      exact ⟨[], by simp [steps]⟩
  | succ n ih =>
      cases hCut : cut c s with
      | none =>
          simp only [scan, hCut, Except.ok.injEq, Prod.mk.injEq] at h
          obtain ⟨rfl, rfl, rfl⟩ := h
          exact ⟨[], by simp [steps, cut_eq_none_iff.mp hCut]⟩
      | some parts =>
          obtain ⟨field, tail⟩ := parts
          obtain ⟨rfl, hField⟩ := cut_eq_some_iff.mp hCut
          cases hStep : step i field acc with
          | error e => simp [scan, hCut, hStep] at h
          | ok next =>
              simp only [scan, hCut, hStep] at h
              obtain ⟨fields, rfl, hFree, rfl, hLen, hSteps, hStop⟩ := ih h
              refine ⟨field :: fields, by simp, ?_, ?_, ?_, ?_, ?_⟩
              · intro f hf
                cases List.mem_cons.mp hf with
                | inl hHead => exact hHead ▸ hField
                | inr hTail => exact hFree f hTail
              · simp only [List.length_cons]
                omega
              · simpa using hLen
              · simp [steps, hStep, hSteps]
              · intro hLt
                exact hStop (by simpa using hLt)

/-- A list is cut at one place only. -/
private theorem cut_eq_of_append_eq {c : α} {field field' rest rest' : List α}
    (hField : c ∉ field) (hField' : c ∉ field')
    (h : field ++ c :: rest = field' ++ c :: rest') :
    field = field' ∧ rest = rest' := by
  have hCut := cut_append hField rest
  rw [h, cut_append hField'] at hCut
  simp only [Option.some.injEq, Prod.mk.injEq] at hCut
  exact ⟨hCut.1.symm, hCut.2.symm⟩

/-- A scan of at most `n` fields depends on these alone. -/
theorem scan_congr {c : α} (step : Nat → List α → σ → Except ε σ) {n : Nat}
    {s s' : List α} (h : (splitFields c n s).1 = (splitFields c n s').1)
    (i : Nat) (acc : σ) :
    (scan c step n i s acc).map (fun result => (result.1, result.2.2)) =
      (scan c step n i s' acc).map
        (fun result => (result.1, result.2.2)) := by
  induction n generalizing s s' i acc with
  | zero => rfl
  | succ n ih =>
      have hMem : c ∈ s ↔ c ∈ s' := by
        rw [← mem_splitFields_succ_iff n, h, mem_splitFields_succ_iff]
      cases hCut : cut c s with
      | none =>
          have hNone : cut c s' = none :=
            cut_eq_none_iff.mpr fun hc => cut_eq_none_iff.mp hCut (hMem.mpr hc)
          simp only [scan, hCut, hNone, Except.map]
      | some parts =>
          obtain ⟨field, rest⟩ := parts
          obtain ⟨rfl, hField⟩ := cut_eq_some_iff.mp hCut
          cases hCut' : cut c s' with
          | none =>
              exact absurd (hMem.mp (by simp)) (cut_eq_none_iff.mp hCut')
          | some parts' =>
              obtain ⟨field', rest'⟩ := parts'
              have hField' := (cut_eq_some_iff.mp hCut').2
              rw [splitFields, splitFields, hCut, hCut'] at h
              obtain ⟨rfl, hRest⟩ := cut_eq_of_append_eq hField hField' h
              simp only [scan, hCut, hCut']
              cases step i field acc with
              | error e => rfl
              | ok acc' => exact ih hRest (i + 1) acc'

end Scan

end GDPRuler.Verified.Delim
