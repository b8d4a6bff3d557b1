import GDPRuler.Controller.Query

/-!
# The texts a client may send

The constructors of policies and queries raise on much of what a client can
send, and nothing above them catches.  Here is what they accept.

A query is accepted predicate by predicate.  The `query(...)` predicate never
raises, whatever it holds; an option needs something behind its name to take
the quotation marks from, a known name, and an argument that its conversion
accepts.  A policy needs its eight options, and three of them must convert.

## Main results

* `Query.ofText_isOk_iff` — the queries that are accepted;
* `DefaultPolicy.ofText_isOk_iff` — the policies that are accepted.
-/

namespace GDPRuler.Controller

open GDPRuler.Verified.Delim GDPRuler.Verified.Decimal

/-- No exception was raised. -/
def IsOk {α : Type} (result : Except Exn α) : Prop := ∃ a, result = .ok a

section IsOk

variable {α β : Type}

@[simp] theorem isOk_ok (a : α) : IsOk (.ok a : Except Exn α) := ⟨a, rfl⟩

@[simp] theorem not_isOk_error (e : Exn) :
    ¬ IsOk (.error e : Except Exn α) := by
  rintro ⟨a, h⟩
  cases h

/-- A computation whose second part raises or not whatever the first gives. -/
theorem isOk_bind_and {x : Except Exn α} {f : α → Except Exn β} {P : Prop}
    (hf : ∀ a, IsOk (f a) ↔ P) : IsOk (x >>= f) ↔ IsOk x ∧ P := by
  cases x with
  | error e => simp [bind, Except.bind]
  | ok a => simpa [bind, Except.bind] using hf a

/-- A computation that goes on without raising. -/
theorem isOk_bind_iff {x : Except Exn α} {f : α → Except Exn β}
    (hf : ∀ a, IsOk (f a)) : IsOk (x >>= f) ↔ IsOk x := by
  rw [isOk_bind_and (P := True) fun a => iff_true_intro (hf a), and_true]

/-- A test, branch by branch. -/
theorem isOk_ite_iff {c : Prop} [Decidable c] {x y : Except Exn α} {P : Prop}
    (hx : c → (IsOk x ↔ P)) (hy : ¬ c → (IsOk y ↔ P)) :
    IsOk (if c then x else y) ↔ P := by
  by_cases h : c
  · rw [if_pos h]
    exact hx h
  · rw [if_neg h]
    exact hy h

/-- A conversion that reads a number and checks its range. -/
theorem isOk_convert_iff (read : Option (Bool × Nat)) (bound : Int)
    (f : Bool → Nat → α) (noNumber outside : Exn) :
    IsOk (match read with
      | none => .error noNumber
      | some (negative, n) =>
          if -bound ≤ signed negative n ∧ signed negative n < bound then
            .ok (f negative n)
          else .error outside) ↔
      ∃ negative n, read = some (negative, n) ∧
        -bound ≤ signed negative n ∧ signed negative n < bound := by
  cases read with
  | none => simp
  | some parts =>
      obtain ⟨negative, n⟩ := parts
      refine isOk_ite_iff (fun hRange => ?_) (fun hRange => ?_)
      · exact iff_of_true (isOk_ok _) ⟨negative, n, rfl, hRange⟩
      · refine iff_of_false (not_isOk_error _) ?_
        rintro ⟨negative', n', hSome, hRange'⟩
        cases hSome
        exact hRange hRange'

/-- A loop of checks. -/
theorem isOk_forM_iff {step : α → Except Exn Unit} (as : List α) :
    IsOk (as.forM step) ↔ ∀ a ∈ as, IsOk (step a) := by
  induction as with
  | nil => simp [pure, Except.pure]
  | cons a as ih =>
      rw [List.forall_mem_cons, ← ih]
      exact isOk_bind_and fun _ => Iff.rfl

/-- A fold whose steps raise or not whatever came before. -/
theorem isOk_foldlM_iff {step : β → α → Except Exn β} {P : α → Prop}
    {as : List α} (hStep : ∀ acc, ∀ a ∈ as, (IsOk (step acc a) ↔ P a))
    (acc : β) : IsOk (as.foldlM step acc) ↔ ∀ a ∈ as, P a := by
  induction as generalizing acc with
  | nil => simp [pure, Except.pure]
  | cons a as ih =>
      have hLater := fun next => ih (fun acc b hb =>
        hStep acc b (List.mem_cons_of_mem a hb)) next
      rw [List.foldlM_cons, List.forall_mem_cons,
        ← hStep acc a List.mem_cons_self]
      cases hHere : step acc a with
      | error e => simp [bind, Except.bind]
      | ok next => simp [bind, Except.bind, hLater]

end IsOk

/-! ## Predicates -/

namespace Query

/-- The name of a predicate: what stands before the first parenthesis. -/
def predAttr (predicate : Str) : Str :=
  match cut openParen predicate with
  | some (attr, _) => attr
  | none => predicate

/-- What stands behind it; everything when there is none. -/
def behind (predicate : Str) : Str :=
  match cut openParen predicate with
  | some (_, after) => after
  | none => predicate

/-- What a predicate holds: what is behind its name, up to the last closing
parenthesis there. -/
def predVal (predicate : Str) : Str :=
  match cutLast closeParen (behind predicate) with
  | some (front, _) => front
  | none => behind predicate

section Positions

variable {predicate : Str} (hFits : predicate.length < npos)

include hFits

private theorem substr_predAttr :
    substr predicate 0 (find openParen predicate 0) =
      .ok (predAttr predicate) := by
  cases hCut : cut openParen predicate with
  | none =>
      have hNot := cut_eq_none_iff.mp hCut
      have hEnd : find openParen predicate 0 = npos := find_of_not_mem hNot []
      rw [predAttr, hCut, hEnd]
      exact substr_rest [] predicate (Nat.le_of_lt hFits)
  | some parts =>
      obtain ⟨attr, after⟩ := parts
      obtain ⟨rfl, hAttr⟩ := cut_eq_some_iff.mp hCut
      have hEnd : find openParen (attr ++ openParen :: after) 0 =
          attr.length := by
        simpa using find_append hAttr [] after
      rw [predAttr, hCut, hEnd]
      exact substr_append [] attr _

omit hFits in
/-- Without a closing parenthesis behind the name the length reaches the end:
the search fails or finds one too early, and the difference wraps. -/
private theorem length_le_of_rfind {attr after : Str}
    (hFits : attr.length + (after.length + 1) < npos)
    (hNone : closeParen ∉ after) :
    after.length ≤ sizeSub (rfind closeParen (attr ++ openParen :: after))
      (attr.length + 1) := by
  rw [npos] at hFits
  have hParens : closeParen ≠ openParen := by decide
  by_cases hMem : closeParen ∈ attr
  · obtain ⟨front, back, hCut⟩ := exists_cutLast hMem
    obtain ⟨rfl, hBack⟩ := cutLast_eq_some_iff.mp hCut
    have hRest : closeParen ∉ back ++ openParen :: after := by
      simp only [List.mem_append, List.mem_cons, not_or]
      exact ⟨hBack, hParens, hNone⟩
    rw [List.append_assoc, List.cons_append, rfind_append front hRest]
    simp only [List.length_append, List.length_cons] at hFits ⊢
    unfold sizeSub
    omega
  · have hRest : closeParen ∉ attr ++ openParen :: after := by
      simp only [List.mem_append, List.mem_cons, not_or]
      exact ⟨hMem, hParens, hNone⟩
    rw [rfind_of_not_mem hRest, npos]
    unfold sizeSub
    omega

/-- Without a name, up to the last closing parenthesis. -/
private theorem substr_front :
    substr predicate 0 (sizeSub (rfind closeParen predicate) 0) =
      .ok (match cutLast closeParen predicate with
        | some (front, _) => front
        | none => predicate) := by
  have hNpos := hFits
  rw [npos] at hFits
  cases hLast : cutLast closeParen predicate with
  | none =>
      have hNone := cutLast_eq_none_iff.mp hLast
      rw [rfind_of_not_mem hNone, sizeSub_of_le (Nat.zero_le _) (by decide)]
      exact substr_rest [] predicate (Nat.le_of_lt hNpos)
  | some parts =>
      obtain ⟨front, back⟩ := parts
      obtain ⟨rfl, hBack⟩ := cutLast_eq_some_iff.mp hLast
      simp only [List.length_append, List.length_cons] at hFits
      rw [rfind_append front hBack, sizeSub_of_le (Nat.zero_le _) (by omega)]
      exact substr_append [] front _

omit hFits in
/-- Behind a name, up to the last closing parenthesis. -/
private theorem substr_behind {attr after : Str}
    (hFits : attr.length + (after.length + 1) < npos) :
    substr (attr ++ openParen :: after) (attr.length + 1)
      (sizeSub (rfind closeParen (attr ++ openParen :: after))
        (attr.length + 1)) =
      .ok (match cutLast closeParen after with
        | some (front, _) => front
        | none => after) := by
  have hNpos := hFits
  rw [npos] at hFits
  have hLength : attr.length + 1 = (attr ++ [openParen]).length := by simp
  have hFront : attr ++ openParen :: after = (attr ++ [openParen]) ++ after := by
    simp
  cases hLast : cutLast closeParen after with
  | none =>
      have hNone := cutLast_eq_none_iff.mp hLast
      have hRest := length_le_of_rfind hNpos hNone
      rw [hLength] at hRest ⊢
      exact (congrArg (substr · _ _) hFront).trans (substr_rest _ _ hRest)
  | some parts =>
      obtain ⟨front, back⟩ := parts
      obtain ⟨rfl, hBack⟩ := cutLast_eq_some_iff.mp hLast
      have hWhole : attr ++ openParen :: (front ++ closeParen :: back) =
          (attr ++ openParen :: front) ++ closeParen :: back := by simp
      have hSize : (attr ++ openParen :: front).length =
          attr.length + 1 + front.length := by
        simp only [List.length_append, List.length_cons]
        omega
      simp only [List.length_append, List.length_cons] at hFits
      rw [hWhole, rfind_append _ hBack, hSize,
        sizeSub_of_le (by omega) (by omega), Nat.add_sub_cancel_left, ← hWhole,
        hFront, hLength]
      exact substr_append _ front _

/-- The last closing parenthesis is looked for in the whole predicate; one
before the opening parenthesis counts as none, since the length wraps. -/
private theorem substr_predVal :
    substr predicate (sizeAdd (find openParen predicate 0) 1)
      (sizeSub (rfind closeParen predicate)
        (sizeAdd (find openParen predicate 0) 1)) =
      .ok (predVal predicate) := by
  cases hCut : cut openParen predicate with
  | none =>
      have hNot := cut_eq_none_iff.mp hCut
      have hEnd : find openParen predicate 0 = npos := find_of_not_mem hNot []
      have hStart : sizeAdd npos 1 = 0 := by decide
      rw [predVal, behind, hCut, hEnd, hStart]
      exact substr_front hFits
  | some parts =>
      obtain ⟨attr, after⟩ := parts
      obtain ⟨rfl, hAttr⟩ := cut_eq_some_iff.mp hCut
      have hParts : attr.length + (after.length + 1) < npos := by
        simpa using hFits
      have hEnd : find openParen (attr ++ openParen :: after) 0 =
          attr.length := by
        simpa using find_append hAttr [] after
      have hStart : sizeAdd attr.length 1 = attr.length + 1 :=
        sizeAdd_of_lt (by rw [npos] at hParts; omega)
      rw [predVal, behind, hCut, hEnd, hStart]
      exact substr_behind hParts

end Positions

/-! ## The query predicate -/

/-- Cutting between two positions that were found does not raise. -/
private theorem isOk_substr_between {s : Str} {start : Nat} (n : Nat)
    (hFits : s.length < npos) (hFound : start = npos ∨ start < s.length)
    (hStart : start ≠ npos) : IsOk (substr s (sizeAdd start 1) n) := by
  have hLt : start < s.length := hFound.resolve_left hStart
  rw [npos] at hFits
  have hInside : ¬ s.length < sizeAdd start 1 := by
    rw [sizeAdd_of_lt (by omega)]
    omega
  rw [substr, if_neg hInside]
  exact isOk_ok _

private theorem isOk_extractKey {query : Str} (hFits : query.length < npos) :
    IsOk (extractKey query) := by
  unfold extractKey
  simp only
  split
  · exact isOk_ok _
  · rename_i hFound
    simp only [not_or] at hFound
    exact isOk_substr_between _ hFits (find_lt_or _ _ _) hFound.1

private theorem isOk_extractValue {query : Str} (hFits : query.length < npos) :
    IsOk (extractValue query) := by
  unfold extractValue
  simp only
  split
  · exact isOk_ok _
  · rename_i hFound
    simp only [not_or] at hFound
    exact isOk_substr_between _ hFits (find_lt_or _ _ _) hFound.2.2.1

private theorem isOk_parseQuery (q : Query) {args : Str}
    (hFits : args.length < npos) : IsOk (parseQuery q args) := by
  have hKey := isOk_extractKey hFits
  have hValue := isOk_extractValue hFits
  unfold parseQuery
  split
  · exact (isOk_bind_iff fun _ => isOk_ok _).mpr hKey
  split
  · exact (isOk_bind_iff fun _ =>
      (isOk_bind_iff fun _ => isOk_ok _).mpr hKey).mpr hValue
  · exact (isOk_bind_iff fun _ => isOk_ok _).mpr hKey

/-! ## The options -/

/-- An argument `stoi` converts. -/
def IntText (value : Str) : Prop :=
  ∃ negative n, readInt value = some (negative, n) ∧
    -2 ^ 31 ≤ signed negative n ∧ signed negative n < 2 ^ 31

/-- An argument `str_to_bool` converts. -/
def BoolText (value : Str) : Prop :=
  equalsIgnoreCase value (lit "true") = true ∨
    equalsIgnoreCase value (lit "false") = true

theorem isOk_stoi_iff (value : Str) : IsOk (stoi value) ↔ IntText value :=
  isOk_convert_iff (readInt value) (2 ^ 31) _ _ _

theorem isOk_strToBool_iff (value : Str) :
    IsOk (strToBool value) ↔ BoolText value := by
  unfold strToBool BoolText
  refine isOk_ite_iff (fun hTrue => iff_of_true (isOk_ok _) (.inl hTrue))
    fun hTrue => ?_
  refine isOk_ite_iff (fun hFalse => iff_of_true (isOk_ok _) (.inr hFalse))
    fun hFalse => ?_
  exact iff_of_false (not_isOk_error _) fun h => h.elim hTrue hFalse

/-- The options that take any argument. -/
def textOptions : List Str :=
  [lit "sessionKey", lit "objOrig", lit "objShare", lit "objPur",
    lit "objObjections", lit "objOrigIs", lit "objShareIs", lit "objPurIs",
    lit "objObjectionsIs"]

/-- The options that take a number. -/
def intOptions : List Str := [lit "objExp", lit "objExpIs"]

/-- The options that take a flag. -/
def boolOptions : List Str := [lit "monitor", lit "monitorIs"]

/-- An option with an argument it accepts. -/
def OptionText (option value : Str) : Prop :=
  option ∈ textOptions ∨ option ∈ intOptions ∧ IntText value ∨
    option ∈ boolOptions ∧ BoolText value

section Options

variable {option : Str} (value : Str)

private theorem optionText_int (h : option ∈ intOptions) :
    IntText value ↔ OptionText option value := by
  have hText : option ∉ textOptions := by
    simp only [intOptions, List.mem_cons, List.not_mem_nil, or_false] at h
    rcases h with rfl | rfl <;> decide
  have hBool : option ∉ boolOptions := by
    simp only [intOptions, List.mem_cons, List.not_mem_nil, or_false] at h
    rcases h with rfl | rfl <;> decide
  simp only [OptionText, h, hText, hBool, false_or, true_and, false_and,
    or_false]

private theorem optionText_bool (h : option ∈ boolOptions) :
    BoolText value ↔ OptionText option value := by
  have hText : option ∉ textOptions := by
    simp only [boolOptions, List.mem_cons, List.not_mem_nil, or_false] at h
    rcases h with rfl | rfl <;> decide
  have hInt : option ∉ intOptions := by
    simp only [boolOptions, List.mem_cons, List.not_mem_nil, or_false] at h
    rcases h with rfl | rfl <;> decide
  simp only [OptionText, h, hText, hInt, false_or, true_and, false_and]

private theorem isOk_stoi_bind {β : Type} {f : Int64 → Except Exn β}
    (hf : ∀ z, IsOk (f z)) (h : option ∈ intOptions) :
    IsOk (stoi value >>= f) ↔ OptionText option value :=
  (isOk_bind_iff hf).trans ((isOk_stoi_iff value).trans
    (optionText_int value h))

private theorem isOk_strToBool_bind {β : Type} {f : Bool → Except Exn β}
    (hf : ∀ b, IsOk (f b)) (h : option ∈ boolOptions) :
    IsOk (strToBool value >>= f) ↔ OptionText option value :=
  (isOk_bind_iff hf).trans ((isOk_strToBool_iff value).trans
    (optionText_bool value h))

private theorem isOk_text (q : Query) (h : option ∈ textOptions) :
    IsOk (.ok q : Except Exn Query) ↔ OptionText option value :=
  iff_of_true (isOk_ok _) (.inl h)

/-- **The options that are accepted.** -/
theorem isOk_parseOption_iff (q : Query) :
    IsOk (parseOption q option value) ↔ OptionText option value := by
  unfold parseOption
  refine isOk_ite_iff (fun h => isOk_text value _ (h ▸ by decide))
    fun h₁ => ?_
  refine isOk_ite_iff (fun h => isOk_text value _ (h ▸ by decide))
    fun h₂ => ?_
  refine isOk_ite_iff (fun h => isOk_text value _ (h ▸ by decide))
    fun h₃ => ?_
  refine isOk_ite_iff (fun h => isOk_stoi_bind value (fun _ => isOk_ok _)
      (h ▸ by decide))
    fun h₄ => ?_
  refine isOk_ite_iff (fun h => isOk_text value _ (h ▸ by decide))
    fun h₅ => ?_
  refine isOk_ite_iff (fun h => isOk_text value _ (h ▸ by decide))
    fun h₆ => ?_
  refine isOk_ite_iff (fun h => isOk_strToBool_bind value (fun _ => isOk_ok _)
      (h ▸ by decide))
    fun h₇ => ?_
  refine isOk_ite_iff (fun h => isOk_text value _ (h ▸ by decide))
    fun h₈ => ?_
  refine isOk_ite_iff (fun h => isOk_text value _ (h ▸ by decide))
    fun h₉ => ?_
  refine isOk_ite_iff (fun h => isOk_stoi_bind value (fun _ => isOk_ok _)
      (h ▸ by decide))
    fun h₁₀ => ?_
  refine isOk_ite_iff (fun h => isOk_text value _ (h ▸ by decide))
    fun h₁₁ => ?_
  refine isOk_ite_iff (fun h => isOk_text value _ (h ▸ by decide))
    fun h₁₂ => ?_
  refine isOk_ite_iff (fun h => isOk_strToBool_bind value (fun _ => isOk_ok _)
      (h ▸ by decide))
    fun h₁₃ => ?_
  refine iff_of_false (not_isOk_error _) ?_
  simp only [OptionText, textOptions, intOptions, boolOptions, List.mem_cons,
    List.not_mem_nil, h₁, h₂, h₃, h₄, h₅, h₆, h₇, h₈, h₉, h₁₀, h₁₁, h₁₂, h₁₃,
    or_self, false_and, not_false_eq_true]

end Options

/-! ## Queries -/

/-- A predicate the parser accepts: the query predicate, or an option with
something inside.  The first and the last character there, taken for quotation
marks, are dropped. -/
def PredicateText (predicate : Str) : Prop :=
  predAttr predicate = lit "query" ∨
    predVal predicate ≠ [] ∧
      OptionText (predAttr predicate)
        (((predVal predicate).drop 1).take ((predVal predicate).length - 2))

private theorem length_predVal_le (predicate : Str) :
    (predVal predicate).length ≤ predicate.length := by
  have hBehind : (behind predicate).length ≤ predicate.length := by
    unfold behind
    cases hCut : cut openParen predicate with
    | none => exact Nat.le_refl _
    | some parts =>
        rw [(cut_eq_some_iff.mp hCut).1]
        simp only [List.length_append, List.length_cons]
        omega
  unfold predVal
  cases hCut : cutLast closeParen (behind predicate) with
  | none => exact hBehind
  | some parts =>
      have hLength := congrArg List.length (cutLast_eq_some_iff.mp hCut).1
      simp only [List.length_append, List.length_cons] at hLength ⊢
      omega

/-- Dropping the quotation marks raises where there is nothing to drop. -/
private theorem substr_argument {val : Str} (hFits : val.length < npos) :
    substr val 1 (sizeSub val.length 2) =
      if val = [] then
        .error (.outOfRange (lit "basic_string_view::substr"))
      else .ok ((val.drop 1).take (val.length - 2)) := by
  rw [npos] at hFits
  cases val with
  | nil => rfl
  | cons b rest =>
      cases rest with
      | nil => simp [substr]
      | cons c rest =>
          have hSize : sizeSub (b :: c :: rest).length 2 =
              (b :: c :: rest).length - 2 :=
            sizeSub_of_le (by simp) (by omega)
          have hInside : ¬ (b :: c :: rest).length < 1 := by simp
          rw [substr, hSize, if_neg hInside, if_neg (by simp)]

/-- **What a predicate does**, by its name and what it holds. -/
theorem processPredicate_eq (q : Query) {predicate : Str}
    (hFits : predicate.length < npos) :
    processPredicate q predicate =
      if predAttr predicate = lit "query" then
        let q := { q with cmd := (predAttr (predVal predicate)).map toLower }
        if q.cmd = lit "exit" then .ok q else parseQuery q (predVal predicate)
      else if predVal predicate = [] then
        .error (.outOfRange (lit "basic_string_view::substr"))
      else parseOption q (predAttr predicate)
        (((predVal predicate).drop 1).take
          ((predVal predicate).length - 2)) := by
  have hVal : (predVal predicate).length < npos :=
    Nat.lt_of_le_of_lt (length_predVal_le predicate) hFits
  unfold processPredicate
  simp only [substr_predAttr hFits, substr_predVal hFits, bind, Except.bind,
    substr_predAttr hVal, substr_argument hVal]
  by_cases hNil : predVal predicate = []
  · simp only [if_pos hNil]
    rfl
  · simp only [if_neg hNil]
    rfl

/-- **The predicates that are accepted.** -/
theorem isOk_processPredicate_iff (q : Query) {predicate : Str}
    (hFits : predicate.length < npos) :
    IsOk (processPredicate q predicate) ↔ PredicateText predicate := by
  have hVal : (predVal predicate).length < npos :=
    Nat.lt_of_le_of_lt (length_predVal_le predicate) hFits
  rw [processPredicate_eq q hFits, PredicateText]
  by_cases hQuery : predAttr predicate = lit "query"
  · refine iff_of_true ?_ (.inl hQuery)
    rw [if_pos hQuery]
    simp only
    split
    · exact isOk_ok _
    · exact isOk_parseQuery _ hVal
  · rw [if_neg hQuery]
    by_cases hNil : predVal predicate = []
    · rw [if_pos hNil]
      refine iff_of_false (not_isOk_error _) ?_
      simp [hQuery, hNil]
    · rw [if_neg hNil]
      simp only [isOk_parseOption_iff, hQuery, hNil, false_or, ne_eq,
        not_false_eq_true, true_and]

/-- A query the parser accepts. -/
def QueryText (input : Str) : Prop :=
  ∀ predicate ∈ input.splitOn ampersand, PredicateText predicate

/-- **The queries that are accepted.** -/
theorem ofText_isOk_iff {input : Str} (hFits : input.length < npos) :
    IsOk (ofText input) ↔ QueryText input := by
  rw [ofText, tokens_eq_splitOn (Nat.le_refl _), QueryText]
  have hStep : ∀ q, ∀ predicate ∈ input.splitOn ampersand,
      (IsOk (processPredicate q predicate) ↔ PredicateText predicate) := by
    intro q predicate hMem
    rw [← tokens_eq_splitOn (Nat.le_refl input.length)] at hMem
    exact isOk_processPredicate_iff q
      (Nat.lt_of_le_of_lt (length_le_of_mem_tokens hMem) hFits)
  exact isOk_foldlM_iff hStep {}

end Query

/-! ## Policies -/

namespace DefaultPolicy

/-- An argument `stoll` converts. -/
def LongText (value : Str) : Prop :=
  ∃ negative n, readInt value = some (negative, n) ∧
    -2 ^ 63 ≤ signed negative n ∧ signed negative n < 2 ^ 63

theorem isOk_stoll_iff (value : Str) : IsOk (stoll value) ↔ LongText value :=
  isOk_convert_iff (readInt value) (2 ^ 63) _ _ _

/-- A policy the constructor accepts: every option is there, the expiration is
a number and the two flags are flags. -/
structure PolicyText (input : Str) : Prop where
  complete : ∀ option ∈ requiredOptions,
    ((readOptions (words input)).lookup option).isSome = true
  expTime :
    LongText (optionValue (readOptions (words input)) (lit "-expTime"))
  encryption : Query.BoolText
    (optionValue (readOptions (words input)) (lit "-encryption"))
  monitor : Query.BoolText
    (optionValue (readOptions (words input)) (lit "-monitor"))

theorem isOk_checkPolicy_iff (options : List (Str × Str)) :
    IsOk (checkPolicy options) ↔
      ∀ option ∈ requiredOptions, (options.lookup option).isSome = true := by
  unfold checkPolicy
  rw [isOk_forM_iff]
  refine forall₂_congr fun option _ => ?_
  exact isOk_ite_iff (fun hSome => iff_of_true (isOk_ok _) hSome)
    fun hNone => iff_of_false (not_isOk_error _) hNone

/-- **The policies that are accepted.** -/
theorem ofText_isOk_iff (input : Str) :
    IsOk (ofText input) ↔ PolicyText input := by
  have hParts : IsOk (ofText input) ↔
      IsOk (checkPolicy (readOptions (words input))) ∧
      IsOk (stoll
        (optionValue (readOptions (words input)) (lit "-expTime"))) ∧
      IsOk (strToBool
        (optionValue (readOptions (words input)) (lit "-encryption"))) ∧
      IsOk (strToBool
        (optionValue (readOptions (words input)) (lit "-monitor"))) := by
    unfold ofText
    exact isOk_bind_and fun _ => isOk_bind_and fun _ => isOk_bind_and fun _ =>
      isOk_bind_iff fun _ => isOk_ok _
  rw [hParts, isOk_checkPolicy_iff, isOk_stoll_iff, Query.isOk_strToBool_iff,
    Query.isOk_strToBool_iff]
  exact ⟨fun ⟨h₁, h₂, h₃, h₄⟩ => ⟨h₁, h₂, h₃, h₄⟩,
    fun ⟨h₁, h₂, h₃, h₄⟩ => ⟨h₁, h₂, h₃, h₄⟩⟩

end DefaultPolicy

end GDPRuler.Controller
