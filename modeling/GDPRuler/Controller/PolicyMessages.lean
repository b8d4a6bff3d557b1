import Mathlib.Data.List.Perm.Subperm
import GDPRuler.Controller.Purposes
import GDPRuler.Controller.Rendering

/-!
# Policy messages

`policy_config.py` turns the policy of a user into one line of options, and the
policy constructor takes the line apart again at white space.  A list is
written with commas between its items, so an empty one is written as nothing,
and the constructor takes the name of the next option for its value.

The constructor then misses an option, unless what is empty is written last.
An empty list of users is read back there; an empty list of objections is not,
since the empty name it is split into stands for `purpose0`.

## Main results

* `DefaultPolicy.words_options` — the words of a line;
* `UserPolicy.readBack_iff` — the policies that are read back.
-/

namespace GDPRuler.Controller

open GDPRuler.Verified GDPRuler.Verified.Delim GDPRuler.Verified.Decimal
open GDPRuler.Verified.BitSet

/-! ## The line -/

/-- `','.join` -/
def joinComma (values : List Str) : Str := [comma].intercalate values

@[simp] theorem joinComma_nil : joinComma [] = [] := rfl

@[simp] theorem joinComma_singleton (value : Str) :
    joinComma [value] = value := by
  simp [joinComma]

/-- `format_args` -/
def formatArgs (attr value : Str) : Str := lit " -" ++ attr ++ lit " " ++ value

/-- An entry of the policy in a file: a general option, or `default_policy` with
its lists. -/
inductive PolicyEntry
  | general (config value : Str)
  | defaultPolicy (lists : List (Str × List Str))

/-- What the loop over the entries adds for one of them. -/
def PolicyEntry.args : PolicyEntry → Str
  | general config value => formatArgs config value
  | defaultPolicy lists =>
      lists.flatMap fun list => formatArgs list.1 (joinComma list.2)

/-- `setup_user`, with the entries in the order of the file. -/
def setupUser (userPolicy : List PolicyEntry) : Str :=
  lit "user_policy" ++ userPolicy.flatMap PolicyEntry.args

/-- The options of an entry with their texts. -/
def PolicyEntry.options : PolicyEntry → List (Str × Str)
  | general config value => [(config, value)]
  | defaultPolicy lists => lists.map fun list => (list.1, joinComma list.2)

/-- The options in the order in which they are written. -/
def writtenOptions (userPolicy : List PolicyEntry) : List (Str × Str) :=
  userPolicy.flatMap PolicyEntry.options

theorem setupUser_eq (userPolicy : List PolicyEntry) :
    setupUser userPolicy = lit "user_policy" ++
      (writtenOptions userPolicy).flatMap fun o => formatArgs o.1 o.2 := by
  have hEntry : ∀ entry : PolicyEntry, entry.args =
      entry.options.flatMap fun o => formatArgs o.1 o.2 := by
    intro entry
    cases entry with
    | general config value => simp [PolicyEntry.args, PolicyEntry.options]
    | defaultPolicy lists =>
        simp [PolicyEntry.args, PolicyEntry.options, List.flatMap_map]
  rw [setupUser, writtenOptions, List.flatMap_assoc]
  exact congrArg (fun args => lit "user_policy" ++ userPolicy.flatMap args)
    (funext hEntry)

/-! ## Its words -/

/-- No white space. -/
def Unspaced (s : Str) : Prop := ∀ b ∈ s, isSpace b = false

instance (s : Str) : Decidable (Unspaced s) :=
  List.decidableBAll (fun b => isSpace b = false) s

namespace DefaultPolicy

theorem words_append_space (s t : Str) {b : UInt8} (hSpace : isSpace b = true) :
    words (s ++ b :: t) = words s ++ words t := by
  rw [words, List.splitOnP_append_cons s t hSpace, List.filter_append]
  rfl

theorem words_of_unspaced {s : Str} (h : Unspaced s) :
    words s = if s = [] then [] else [s] := by
  rw [words, List.splitOnP_eq_singleton h]
  by_cases hNil : s = [] <;> simp [hNil]

/-- The words of an option: its name, and its value unless that is empty. -/
def optionWords (o : Str × Str) : List Str :=
  (45 :: o.1) :: if o.2 = [] then [] else [o.2]

/-- **The words of a line**, behind any first one. -/
theorem words_options {options : List (Str × Str)}
    (hOptions : ∀ o ∈ options, Unspaced o.1 ∧ Unspaced o.2) {first : Str}
    (hFirst : Unspaced first) :
    words (first ++ options.flatMap fun o => formatArgs o.1 o.2) =
      (if first = [] then [] else [first]) ++ options.flatMap optionWords := by
  induction options generalizing first with
  | nil => simp [words_of_unspaced hFirst]
  | cons o options ih =>
      rw [List.forall_mem_cons] at hOptions
      obtain ⟨⟨hName, hValue⟩, hRest⟩ := hOptions
      have hDash : Unspaced (45 :: o.1) := by
        intro b hMem
        rcases List.mem_cons.mp hMem with rfl | hLater
        · decide
        · exact hName b hLater
      have hText : (first ++ (o :: options).flatMap fun o =>
          formatArgs o.1 o.2) = first ++ 32 :: ((45 :: o.1) ++ 32 ::
            (o.2 ++ options.flatMap fun o => formatArgs o.1 o.2)) := by
        have hOpen : lit " -" = [32, 45] := rfl
        have hSpace : lit " " = [32] := rfl
        simp [formatArgs, hOpen, hSpace]
      rw [hText, words_append_space _ _ (by decide),
        words_append_space _ _ (by decide), words_of_unspaced hFirst,
        words_of_unspaced hDash, ih hRest hValue]
      simp [optionWords]

/-! ## Its options -/

/-- The option as the constructor sees it. -/
def dashed (o : Str × Str) : Str × Str := (45 :: o.1, o.2)

theorem readOptions_skip {word : Str} (h : word.head? ≠ some 45)
    (rest : List Str) : readOptions (word :: rest) = readOptions rest := by
  cases rest with
  | nil => simp [readOptions, h]
  | cons next rest => rw [readOptions, if_neg h]

/-- Options with values are read as they are written. -/
theorem readOptions_append {options : List (Str × Str)}
    (hValues : ∀ o ∈ options, o.2 ≠ []) (rest : List Str) :
    readOptions (options.flatMap optionWords ++ rest) =
      options.map dashed ++ readOptions rest := by
  induction options with
  | nil => rfl
  | cons o options ih =>
      rw [List.forall_mem_cons] at hValues
      rw [List.flatMap_cons, optionWords, if_neg hValues.1, List.append_assoc,
        List.cons_append, List.singleton_append, readOptions, List.head?_cons,
        if_pos rfl, ih hValues.2]
      rfl

/-- An option takes two words, but for one at the end. -/
theorem two_mul_length_readOptions_le (ws : List Str) :
    2 * (readOptions ws).length ≤ ws.length + 1 := by
  induction ws using readOptions.induct with
  | case1 => simp [readOptions]
  | case2 option h => simp [readOptions, h]
  | case3 option h => simp [readOptions, h]
  | case4 option value rest h ih =>
      rw [readOptions, if_pos h]
      simp only [List.length_cons]
      omega
  | case5 option value rest h ih =>
      rw [readOptions, if_neg h]
      simp only [List.length_cons] at ih ⊢
      omega

/-- With different names, each has the value it was given. -/
theorem optionValue_of_mem {options : List (Str × Str)} {name value : Str}
    (hNodup : (options.map Prod.fst).Nodup) (hMem : (name, value) ∈ options) :
    optionValue options name = value := by
  have hLookup : ∀ l : List (Str × Str), (l.map Prod.fst).Nodup →
      (name, value) ∈ l → l.lookup name = some value := by
    intro l
    induction l with
    | nil =>
        intro _ h
        cases h
    | cons o l ih =>
        intro hNames h
        rw [List.map_cons, List.nodup_cons] at hNames
        rcases List.mem_cons.mp h with hHead | hTail
        · rw [← hHead, List.lookup_cons_self]
        · have hNe : (name == o.1) = false := by
            rw [beq_eq_false_iff_ne]
            intro hEq
            exact hNames.1 (List.mem_map.mpr ⟨_, hTail, hEq⟩)
          rw [List.lookup_cons, hNe]
          exact ih hNames.2 hTail
  rw [optionValue, hLookup options.reverse]
  · rfl
  · rw [List.map_reverse]
    exact List.nodup_reverse.mpr hNodup
  · exact List.mem_reverse.mpr hMem

end DefaultPolicy

/-! ## User policies -/

/-- A text that is not empty and holds neither white space nor a comma. -/
abbrev PlainText := { s : Str // s ≠ [] ∧ comma ∉ s ∧ Unspaced s }

/-- One of the names of purposes. -/
abbrev KnownName := { name : Str // KnownPurpose name }

/-- A decimal integer that fits 64 bits. -/
structure LongNumeral where
  negative : Bool
  digits : Str
  hNe : digits ≠ []
  hDigits : ∀ b ∈ digits, isDigit b = true
  hLow : -2 ^ 63 ≤ signed negative (Decimal.value digits)
  hHigh : signed negative (Decimal.value digits) < 2 ^ 63

namespace LongNumeral

def text (z : LongNumeral) : Str :=
  if z.negative then 45 :: z.digits else z.digits

def toInt64 (z : LongNumeral) : Int64 :=
  Int64.ofInt (signed z.negative (Decimal.value z.digits))

theorem stoll_text (z : LongNumeral) : stoll z.text = .ok z.toInt64 := by
  have hRead : readInt z.text = some (z.negative, Decimal.value z.digits) := by
    unfold text
    cases z.negative with
    | true => exact readInt_minus z.hNe z.hDigits
    | false => exact readInt_of_forall z.hNe z.hDigits
  rw [stoll, hRead]
  exact if_pos ⟨z.hLow, z.hHigh⟩

theorem unspaced_text (z : LongNumeral) : Unspaced z.text := by
  have hDigits : Unspaced z.digits := fun b hMem =>
    (isDigit_head_ne (z.hDigits b hMem)).1
  unfold text
  split
  · intro b hMem
    rcases List.mem_cons.mp hMem with rfl | hLater
    · decide
    · exact hDigits b hLater
  · exact hDigits

theorem text_ne_nil (z : LongNumeral) : z.text ≠ [] := by
  unfold text
  split
  · exact List.cons_ne_nil _ _
  · exact z.hNe

end LongNumeral

/-- What a user policy says. -/
structure UserPolicy where
  sessionKey : PlainText
  encryption : Bool
  purpose : { names : List KnownName // names ≠ [] }
  objection : List KnownName
  origin : { texts : List PlainText // texts ≠ [] }
  expTime : LongNumeral
  objShare : List PlainText
  monitor : Bool

namespace UserPolicy

/-- The lists of `default_policy`. -/
def lists (u : UserPolicy) : List (Str × List Str) :=
  [(lit "purpose", u.purpose.val.map Subtype.val),
    (lit "objection", u.objection.map Subtype.val),
    (lit "origin", u.origin.val.map Subtype.val),
    (lit "expTime", [u.expTime.text]),
    (lit "objShare", u.objShare.map Subtype.val),
    (lit "monitor", [Query.boolText u.monitor])]

/-- The file of a policy, with its entries and its lists in any order. -/
def InFile (u : UserPolicy) (userPolicy : List PolicyEntry) : Prop :=
  ∃ lists, lists.Perm u.lists ∧ userPolicy.Perm
    [.general (lit "sessionKey") u.sessionKey,
      .general (lit "encryption") (Query.boolText u.encryption),
      .defaultPolicy lists]

/-- The options of a policy with their texts, in one order. -/
def options (u : UserPolicy) : List (Str × Str) :=
  (lit "sessionKey", u.sessionKey.val) ::
    (lit "encryption", Query.boolText u.encryption) ::
      u.lists.map fun list => (list.1, joinComma list.2)

/-- The policy that is read holds what was written. -/
structure Holds (u : UserPolicy) (p : DefaultPolicy) : Prop where
  userKey : p.userKey = u.sessionKey
  encryption : p.encryption = u.encryption
  purpose : ∀ name, KnownPurpose name → (getPur name ∈ bitSet p.purpose ↔
    name ∈ u.purpose.val.map Subtype.val)
  objection : ∀ name, KnownPurpose name → (getPur name ∈ bitSet p.objection ↔
    name ∈ u.objection.map Subtype.val)
  origin : p.origin = joinComma (u.origin.val.map Subtype.val)
  expiration : p.expiration = u.expTime.toInt64
  share : p.share = joinComma (u.objShare.map Subtype.val)
  monitor : p.monitor = u.monitor

/-- The constructor succeeds and holds what was written. -/
def Survives (u : UserPolicy) (userPolicy : List PolicyEntry) : Prop :=
  ∃ p, DefaultPolicy.ofText (setupUser userPolicy) = .ok p ∧ u.Holds p

/-! ## Texts without white space -/

theorem joinComma_ne_nil {texts : List Str} (hNe : texts ≠ [])
    (hTexts : ∀ text ∈ texts, text ≠ []) : joinComma texts ≠ [] := by
  cases texts with
  | nil => exact absurd rfl hNe
  | cons text rest =>
      have hText := hTexts text (by simp)
      cases rest with
      | nil => simpa [joinComma] using hText
      | cons next rest =>
          rw [joinComma, List.intercalate_cons_cons]
          simp

theorem unspaced_joinComma {texts : List Str}
    (hTexts : ∀ text ∈ texts, Unspaced text) : Unspaced (joinComma texts) :=
  forall_mem_intercalate (P := fun b => isSpace b = false) (by decide) hTexts

theorem unspaced_purposeName (i : Nat) : Unspaced (purposeName i) := by
  have hWord : Unspaced (lit "purpose") := by decide
  intro b hMem
  rcases List.mem_append.mp hMem with hName | hDigit
  · exact hWord b hName
  · exact (isDigit_head_ne (isDigit_of_mem_digits hDigit)).1

theorem comma_not_mem_purposeName (i : Nat) : comma ∉ purposeName i := by
  rw [purposeName, List.mem_append, not_or]
  exact ⟨by decide, not_mem_digits (by decide) i⟩

section Options

variable {u : UserPolicy} {userPolicy : List PolicyEntry}

theorem names_options (u : UserPolicy) :
    (u.options.map DefaultPolicy.dashed).map Prod.fst =
      DefaultPolicy.requiredOptions := rfl

/-- A file holds the options, in some order. -/
theorem InFile.perm (h : u.InFile userPolicy) :
    (writtenOptions userPolicy).Perm u.options := by
  rcases h with ⟨lists, hLists, hEntries⟩
  have hOptions := hEntries.flatMap_right PolicyEntry.options
  have hText : [PolicyEntry.general (lit "sessionKey") u.sessionKey,
      .general (lit "encryption") (Query.boolText u.encryption),
      .defaultPolicy lists].flatMap PolicyEntry.options =
      (lit "sessionKey", u.sessionKey.val) ::
        (lit "encryption", Query.boolText u.encryption) ::
          lists.map fun list => (list.1, joinComma list.2) := by
    simp [PolicyEntry.options]
  rw [hText] at hOptions
  exact hOptions.trans (((hLists.map _).cons _).cons _)

private theorem unspaced_known {names : List KnownName} :
    ∀ text ∈ names.map Subtype.val, Unspaced text := by
  intro text hMem
  rcases List.mem_map.mp hMem with ⟨⟨name, i, _, rfl⟩, _, rfl⟩
  exact unspaced_purposeName i

private theorem unspaced_plain {texts : List PlainText} :
    ∀ text ∈ texts.map Subtype.val, Unspaced text := by
  intro text hMem
  rcases List.mem_map.mp hMem with ⟨plain, _, rfl⟩
  exact plain.2.2.2

private theorem unspaced_boolText (flag : Bool) :
    Unspaced (Query.boolText flag) := by
  cases flag <;> decide

/-- Nothing that is written holds white space. -/
theorem unspaced_options (u : UserPolicy) :
    ∀ o ∈ u.options, Unspaced o.1 ∧ Unspaced o.2 := by
  have hSingle : ∀ s : Str, Unspaced s → Unspaced (joinComma [s]) := by
    intro s h
    rwa [joinComma_singleton]
  have hNames : ∀ name ∈ u.options.map Prod.fst, Unspaced name := by
    show ∀ name ∈ [lit "sessionKey", lit "encryption", lit "purpose",
      lit "objection", lit "origin", lit "expTime", lit "objShare",
      lit "monitor"], Unspaced name
    decide
  intro o hMem
  refine ⟨hNames _ (List.mem_map_of_mem hMem), ?_⟩
  simp only [options, lists, List.map_cons, List.map_nil, List.mem_cons,
    List.not_mem_nil, or_false] at hMem
  rcases hMem with rfl | rfl | rfl | rfl | rfl | rfl | rfl | rfl
  · exact u.sessionKey.2.2.2
  · exact unspaced_boolText _
  · exact unspaced_joinComma unspaced_known
  · exact unspaced_joinComma unspaced_known
  · exact unspaced_joinComma unspaced_plain
  · exact hSingle _ u.expTime.unspaced_text
  · exact unspaced_joinComma unspaced_plain
  · exact hSingle _ (unspaced_boolText _)

/-- Only the lists of objections and of users may be written as nothing. -/
theorem empty_options (u : UserPolicy) {o : Str × Str} (hMem : o ∈ u.options)
    (hEmpty : o.2 = []) :
    o.1 = lit "objection" ∧ u.objection = [] ∨
      o.1 = lit "objShare" ∧ u.objShare = [] := by
  have hKnown : ∀ names : List KnownName, names ≠ [] →
      joinComma (names.map Subtype.val) ≠ [] := by
    intro names hNe
    apply joinComma_ne_nil fun hNil => hNe (List.map_eq_nil_iff.mp hNil)
    intro text hText
    rcases List.mem_map.mp hText with ⟨⟨name, i, _, rfl⟩, _, rfl⟩
    simp [purposeName, lit]
  have hPlain : ∀ texts : List PlainText, texts ≠ [] →
      joinComma (texts.map Subtype.val) ≠ [] := by
    intro texts hNe
    apply joinComma_ne_nil fun hNil => hNe (List.map_eq_nil_iff.mp hNil)
    intro text hText
    rcases List.mem_map.mp hText with ⟨plain, _, rfl⟩
    exact plain.2.1
  have hFlag : ∀ flag, Query.boolText flag ≠ [] := by
    intro flag
    cases flag <;> decide
  simp only [options, lists, List.map_cons, List.map_nil, List.mem_cons,
    List.not_mem_nil, or_false] at hMem
  rcases hMem with rfl | rfl | rfl | rfl | rfl | rfl | rfl | rfl
  · exact absurd hEmpty u.sessionKey.2.1
  · exact absurd hEmpty (hFlag _)
  · exact absurd hEmpty (hKnown _ u.purpose.2)
  · exact .inl ⟨rfl, by_contra fun hNe => hKnown _ hNe hEmpty⟩
  · exact absurd hEmpty (hPlain _ u.origin.2)
  · exact absurd hEmpty (by simpa using u.expTime.text_ne_nil)
  · exact .inr ⟨rfl, by_contra fun hNe => hPlain _ hNe hEmpty⟩
  · exact absurd hEmpty (by simpa using hFlag _)

end Options

/-! ## Reading the options -/

section Reading

open DefaultPolicy

theorem requiredOptions_nodup : requiredOptions.Nodup := by decide

private theorem subperm_of_complete {options : List (Str × Str)}
    (hComplete : ∀ option ∈ requiredOptions,
      (options.lookup option).isSome = true) :
    requiredOptions.Subperm (options.map Prod.fst) := by
  apply requiredOptions_nodup.subperm
  intro option hMem
  rcases List.lookup_isSome_iff.mp (hComplete option hMem) with ⟨o, hOption, hEq⟩
  exact List.mem_map.mpr ⟨o, hOption, (beq_iff_eq.mp hEq).symm⟩

/-- Eight options take eight entries. -/
theorem length_of_complete {options : List (Str × Str)}
    (hComplete : ∀ option ∈ requiredOptions,
      (options.lookup option).isSome = true) : 8 ≤ options.length := by
  have hLength := (subperm_of_complete hComplete).length_le
  rwa [List.length_map] at hLength

/-- With no more than eight entries, no option is given twice. -/
theorem nodup_of_complete {options : List (Str × Str)}
    (hComplete : ∀ option ∈ requiredOptions,
      (options.lookup option).isSome = true)
    (hLength : options.length ≤ 8) : (options.map Prod.fst).Nodup := by
  have hPerm := (subperm_of_complete hComplete).perm_of_length_le
    (by rwa [List.length_map])
  exact hPerm.nodup_iff.mp requiredOptions_nodup

theorem length_optionWords (options : List (Str × Str)) :
    (options.flatMap optionWords).length +
      options.countP (fun o => o.2 = []) = 2 * options.length := by
  induction options with
  | nil => rfl
  | cons o options ih =>
      have hWords : (optionWords o).length + (if o.2 = [] then 1 else 0) = 2 := by
        unfold optionWords
        by_cases hNil : o.2 = [] <;> simp [hNil]
      rw [List.flatMap_cons, List.length_append, List.countP_cons,
        List.length_cons]
      simp only [decide_eq_true_eq]
      omega

/-- If only the last text may be empty, the options are read as written. -/
theorem readOptions_written {before : List (Str × Str)} (last : Str × Str)
    (hBefore : ∀ o ∈ before, o.2 ≠ []) :
    readOptions ((before ++ [last]).flatMap optionWords) =
      (before ++ [last]).map dashed := by
  rw [List.flatMap_append, readOptions_append hBefore, List.map_append]
  by_cases hNil : last.2 = [] <;>
    simp [optionWords, hNil, readOptions, dashed]

variable {u : UserPolicy} {userPolicy : List PolicyEntry}

theorem InFile.readOptions_eq (h : u.InFile userPolicy) :
    readOptions (words (setupUser userPolicy)) =
      readOptions ((writtenOptions userPolicy).flatMap optionWords) := by
  have hFirst : Unspaced (lit "user_policy") := by decide
  rw [setupUser_eq, words_options
    (fun o hMem => u.unspaced_options o (h.perm.mem_iff.mp hMem)) hFirst,
    if_neg (by decide), List.singleton_append, readOptions_skip (by decide)]

theorem InFile.names_perm (h : u.InFile userPolicy) :
    (((writtenOptions userPolicy).map dashed).map Prod.fst).Perm
      requiredOptions := by
  rw [← u.names_options]
  exact (h.perm.map _).map _

theorem InFile.names_nodup (h : u.InFile userPolicy) :
    (((writtenOptions userPolicy).map dashed).map Prod.fst).Nodup :=
  h.names_perm.nodup_iff.mpr requiredOptions_nodup

theorem InFile.length_eq (h : u.InFile userPolicy) :
    (writtenOptions userPolicy).length = 8 := h.perm.length_eq

/-- The name of the option that is written next. -/
def following : List (Str × Str) → Str
  | [] => []
  | next :: _ => 45 :: next.1

/-- **An option without text is given what follows it.** The constructor misses no
option only if that is the one option without text. -/
theorem InFile.value_of_empty (h : u.InFile userPolicy)
    (hComplete : ∀ option ∈ requiredOptions,
      ((readOptions (words (setupUser userPolicy))).lookup option).isSome = true)
    {before after : List (Str × Str)} {name : Str}
    (hSplit : writtenOptions userPolicy = before ++ (name, []) :: after) :
    optionValue (readOptions (words (setupUser userPolicy))) (45 :: name) =
      following after := by
  have hCount := length_optionWords (writtenOptions userPolicy)
  have hTwo := two_mul_length_readOptions_le
    ((writtenOptions userPolicy).flatMap optionWords)
  have hLength := length_of_complete hComplete
  rw [h.readOptions_eq] at hComplete hLength ⊢
  have hEmpty : (writtenOptions userPolicy).countP (fun o => o.2 = []) =
      before.countP (fun o => o.2 = []) +
        (after.countP (fun o => o.2 = []) + 1) := by
    rw [hSplit, List.countP_append, List.countP_cons]
    simp
  rw [h.length_eq] at hCount
  have hNodup := nodup_of_complete hComplete (by omega)
  have hBefore : ∀ o ∈ before, o.2 ≠ [] := by
    have hNone : before.countP (fun o => o.2 = []) = 0 := by omega
    simpa using List.countP_eq_zero.mp hNone
  apply optionValue_of_mem hNodup
  rw [hSplit, List.flatMap_append, readOptions_append hBefore,
    List.mem_append]
  right
  cases after with
  | nil => simp [optionWords, readOptions, following]
  | cons next after => simp [optionWords, readOptions, following]

/-- What the constructor takes for the two lists that may be empty. -/
theorem ofText_eq_ok {input : Str} {p : DefaultPolicy} (h : ofText input = .ok p) :
    p.share = optionValue (readOptions (words input)) (lit "-objShare") ∧
      p.objection = setBitmap 0 (splitCommaString
        (optionValue (readOptions (words input)) (lit "-objection"))) := by
  unfold ofText at h
  simp only [bind, Except.bind, pure, Except.pure] at h
  split at h
  · cases h
  split at h
  · cases h
  split at h
  · cases h
  split at h
  · cases h
  · cases h
    exact ⟨rfl, rfl⟩

/-! ## Policies that are read back -/

/-- The users are written last. -/
def ShareLast (userPolicy : List PolicyEntry) : Prop :=
  (writtenOptions userPolicy).getLast?.map Prod.fst = some (lit "objShare")

/-- Known names are read back. -/
private theorem bits_names {names : List KnownName} (hNe : names ≠ [])
    (name : Str) (hName : KnownPurpose name) :
    getPur name ∈ bitSet (setBitmap 0
        (splitCommaString (joinComma (names.map Subtype.val)))) ↔
      name ∈ names.map Subtype.val := by
  have hKnown : ∀ n ∈ names.map Subtype.val, KnownPurpose n := by
    intro n hMem
    rcases List.mem_map.mp hMem with ⟨known, _, rfl⟩
    exact known.2
  have hFree : ∀ n ∈ names.map Subtype.val, comma ∉ n := by
    intro n hMem
    rcases hKnown n hMem with ⟨i, _, rfl⟩
    exact comma_not_mem_purposeName i
  rw [joinComma, splitCommaString_intercalate
    (fun hNil => hNe (List.map_eq_nil_iff.mp hNil)) hFree]
  exact getPur_mem_bitSet_iff hKnown hName

/-- With the texts that were written, and some objection, the policy is read. -/
theorem ofText_of_values {input : Str} (hObjection : u.objection ≠ [])
    (hComplete : ∀ option ∈ requiredOptions,
      ((readOptions (words input)).lookup option).isSome = true)
    (hValues : ∀ o ∈ u.options,
      optionValue (readOptions (words input)) (45 :: o.1) = o.2) :
    ∃ p, ofText input = .ok p ∧ u.Holds p := by
  obtain ⟨_, hCheck⟩ := (isOk_checkPolicy_iff _).mpr hComplete
  simp only [options, lists, List.map_cons, List.map_nil, List.forall_mem_cons,
    joinComma_singleton] at hValues
  obtain ⟨hKey, hEncryption, hPurpose, hObject, hOrigin, hExp, hShare, hMonitor,
    _⟩ := hValues
  have hNames : (45 :: lit "sessionKey") = lit "-sessionKey" ∧
      (45 :: lit "encryption") = lit "-encryption" ∧
      (45 :: lit "purpose") = lit "-purpose" ∧
      (45 :: lit "objection") = lit "-objection" ∧
      (45 :: lit "origin") = lit "-origin" ∧
      (45 :: lit "expTime") = lit "-expTime" ∧
      (45 :: lit "objShare") = lit "-objShare" ∧
      (45 :: lit "monitor") = lit "-monitor" :=
    ⟨rfl, rfl, rfl, rfl, rfl, rfl, rfl, rfl⟩
  simp only [hNames] at hKey hEncryption hPurpose hObject
  simp only [hNames] at hOrigin hExp hShare hMonitor
  refine ⟨{ userKey := u.sessionKey, encryption := u.encryption
            purpose := setBitmap 0 (splitCommaString
              (joinComma (u.purpose.val.map Subtype.val)))
            objection := setBitmap 0 (splitCommaString
              (joinComma (u.objection.map Subtype.val)))
            origin := joinComma (u.origin.val.map Subtype.val)
            expiration := u.expTime.toInt64
            share := joinComma (u.objShare.map Subtype.val)
            monitor := u.monitor }, ?_, ?_⟩
  · simp only [ofText, hCheck, hKey, hEncryption, hPurpose, hObject, hOrigin,
      hExp, hShare, hMonitor, LongNumeral.stoll_text, Query.strToBool_boolText,
      bind, Except.bind, pure, Except.pure]
  · exact
      { userKey := rfl
        encryption := rfl
        purpose := bits_names u.purpose.2
        objection := bits_names hObjection
        origin := rfl
        expiration := rfl
        share := rfl
        monitor := rfl }

/-- Only the last option may be without text. -/
theorem InFile.survives (h : u.InFile userPolicy)
    (hObjection : u.objection ≠ [])
    (hShare : u.objShare ≠ [] ∨ ShareLast userPolicy) :
    u.Survives userPolicy := by
  have hNe : writtenOptions userPolicy ≠ [] := by
    rw [← List.length_pos_iff, h.length_eq]
    decide
  obtain ⟨before, last, hSplit⟩ := List.eq_nil_or_concat' _ |>.resolve_left hNe
  have hNodup := h.names_nodup
  have hBefore : ∀ o ∈ before, o.2 ≠ [] := by
    intro o hMem hEmpty
    have hOption : o ∈ u.options :=
      h.perm.mem_iff.mp (hSplit ▸ List.mem_append_left _ hMem)
    rcases u.empty_options hOption hEmpty with hNone | ⟨hName, hNone⟩
    · exact hObjection hNone.2
    · rcases hShare with hSome | hLast
      · exact hSome hNone
      · -- then two options would be called `objShare`
        rw [ShareLast, hSplit, List.getLast?_concat, Option.map_some,
          Option.some.injEq] at hLast
        rw [hSplit, List.map_append, List.map_append] at hNodup
        refine List.disjoint_of_nodup_append hNodup (a := 45 :: o.1)
          (List.mem_map_of_mem (List.mem_map_of_mem hMem)) ?_
        simp [dashed, hLast, hName]
  have hRead : readOptions (words (setupUser userPolicy)) =
      (writtenOptions userPolicy).map dashed := by
    rw [h.readOptions_eq, hSplit, readOptions_written last hBefore]
  apply ofText_of_values hObjection
  · intro option hMem
    rw [hRead, List.lookup_isSome_iff]
    rcases List.mem_map.mp (h.names_perm.mem_iff.mpr hMem) with ⟨o, hOption, hEq⟩
    exact ⟨o, hOption, beq_iff_eq.mpr hEq.symm⟩
  · intro o hMem
    rw [hRead]
    exact optionValue_of_mem hNodup
      (List.mem_map_of_mem (h.perm.mem_iff.mpr hMem))

/-- What stands for an empty list of objections is no name, so it is read as
`purpose0`. -/
private theorem purpose_zero_mem {value : Str} (hComma : comma ∉ value)
    (hHead : value.head? ≠ some 112) :
    getPur (purposeName 0) ∈
      bitSet (setBitmap 0 (splitCommaString value)) := by
  have hUnknown : ¬ KnownPurpose value := by
    rintro ⟨i, _, rfl⟩
    exact hHead rfl
  rw [splitCommaString_eq, List.splitOn_eq_singleton hComma,
    setBitmap_of_not_known hUnknown]
  have hZero : KnownPurpose (purposeName 0) := ⟨0, by decide, rfl⟩
  exact (getPur_mem_bitSet_iff (by simpa using hZero) hZero).mpr (by simp)

/-- The name of an option holds no comma. -/
private theorem comma_not_mem_following {after : List (Str × Str)}
    (hAfter : ∀ o ∈ after, o ∈ u.options) : comma ∉ following after := by
  cases after with
  | nil => exact List.not_mem_nil
  | cons next after =>
      have hName : (45 :: next.1) ∈ requiredOptions := by
        rw [← u.names_options]
        exact List.mem_map_of_mem
          (List.mem_map_of_mem (hAfter next List.mem_cons_self))
      have hFree : ∀ option ∈ requiredOptions, comma ∉ option := by decide
      exact hFree _ hName

theorem Survives.objection (h : u.InFile userPolicy)
    (hSurvives : u.Survives userPolicy) : u.objection ≠ [] := by
  rcases hSurvives with ⟨p, hText, hHolds⟩
  intro hNone
  have hComplete := ((ofText_isOk_iff _).mp ⟨p, hText⟩).complete
  have hMem : (lit "objection", []) ∈ writtenOptions userPolicy := by
    apply h.perm.mem_iff.mpr
    simp [options, lists, hNone]
  obtain ⟨before, after, hSplit⟩ := List.append_of_mem hMem
  have hValue : optionValue _ (lit "-objection") = following after :=
    h.value_of_empty hComplete hSplit
  have hZero : KnownPurpose (purposeName 0) := ⟨0, by decide, rfl⟩
  have hBits := hHolds.objection _ hZero
  rw [(ofText_eq_ok hText).2, hValue, hNone] at hBits
  have hComma : comma ∉ following after := by
    apply comma_not_mem_following (u := u)
    intro o hAfter
    apply h.perm.mem_iff.mp
    rw [hSplit]
    exact List.mem_append_right _ (List.mem_cons_of_mem _ hAfter)
  have hHead : (following after).head? ≠ some 112 := by
    cases after <;> simp [following]
  exact absurd (hBits.mp (purpose_zero_mem hComma hHead)) List.not_mem_nil

theorem Survives.share (h : u.InFile userPolicy)
    (hSurvives : u.Survives userPolicy) :
    u.objShare ≠ [] ∨ ShareLast userPolicy := by
  rcases hSurvives with ⟨p, hText, hHolds⟩
  by_cases hNone : u.objShare = []
  · right
    have hComplete := ((ofText_isOk_iff _).mp ⟨p, hText⟩).complete
    have hMem : (lit "objShare", []) ∈ writtenOptions userPolicy := by
      apply h.perm.mem_iff.mpr
      simp [options, lists, hNone]
    obtain ⟨before, after, hSplit⟩ := List.append_of_mem hMem
    have hValue : optionValue _ (lit "-objShare") = following after :=
      h.value_of_empty hComplete hSplit
    have hShare := hHolds.share
    rw [(ofText_eq_ok hText).1, hValue, hNone] at hShare
    cases after with
    | nil =>
        rw [ShareLast, hSplit, List.getLast?_concat]
        rfl
    | cons next after => cases hShare
  · exact .inl hNone

/--
**Policies that are read back.** A user policy, its entries and lists in any
order, survives the trip exactly if it has some objection, and some user to share
with or the list of users in the last place.
-/
theorem readBack_iff (h : u.InFile userPolicy) :
    u.Survives userPolicy ↔
      u.objection ≠ [] ∧ (u.objShare ≠ [] ∨ ShareLast userPolicy) := by
  constructor
  · intro hSurvives
    exact ⟨hSurvives.objection h, hSurvives.share h⟩
  · intro hLists
    exact h.survives hLists.1 hLists.2

end Reading

/-- The policy that `default_policy_creator.sh` writes for the only client. -/
def onlyClient : UserPolicy :=
  { sessionKey := ⟨lit "user0", by decide⟩
    encryption := true
    purpose := ⟨[⟨purposeName 0, 0, by decide, rfl⟩], by decide⟩
    objection := [⟨purposeName 1, 1, by decide, rfl⟩]
    origin := ⟨[⟨lit "src0", by decide⟩], by decide⟩
    expTime :=
      ⟨false, lit "0", by decide, by decide +kernel, by decide, by decide⟩
    objShare := []
    monitor := true }

/-- A file of it. -/
def onlyClientFile (lists : List (Str × List Str)) : List PolicyEntry :=
  [.general (lit "sessionKey") (lit "user0"),
    .general (lit "encryption") (lit "true"), .defaultPolicy lists]

/-- `readBack_iff` when the list of users is written last. -/
theorem readBack_iff_share_last :
    onlyClient.Survives (onlyClientFile
      [(lit "purpose", [lit "purpose0"]), (lit "objection", [lit "purpose1"]),
        (lit "origin", [lit "src0"]), (lit "expTime", [lit "0"]),
        (lit "monitor", [lit "true"]), (lit "objShare", [])]) := by
  refine (readBack_iff ⟨_, ?_, List.Perm.refl _⟩).mpr ⟨by decide, .inr rfl⟩
  exact ((((List.Perm.swap _ _ _).cons _).cons _).cons _).cons _

/-- As the script writes it, the constructor misses the option behind the empty
list. -/
theorem only_client_lost :
    ¬ ∀ (u : UserPolicy) (userPolicy : List PolicyEntry),
      u.InFile userPolicy → u.Survives userPolicy := by
  intro hClaim
  have hFile : onlyClient.InFile (onlyClientFile onlyClient.lists) :=
    ⟨_, List.Perm.refl _, List.Perm.refl _⟩
  rcases (hClaim _ _ hFile).share hFile with hSome | hLast
  · exact hSome rfl
  · exact absurd hLast (by unfold ShareLast; decide +kernel)

end UserPolicy

end GDPRuler.Controller
