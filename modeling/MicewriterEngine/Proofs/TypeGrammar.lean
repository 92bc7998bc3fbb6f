import MicewriterEngine.Model.FieldType
import Mathlib.Logic.Function.Iterate

/-!
# The grammar of type strings

`MappedType::from_str` accepts the names of the primitive types, and what it accepts in
`list(..)`. The slice that it takes from a list never panics.
-/

namespace MicewriterEngine.Proofs
open MappedType

/-- The names of a primitive type, the primary one first. -/
def names : MappedType → List String
  | .string => ["string"]
  | .long => ["long", "int64"]
  | .int => ["int", "int32"]
  | .double => ["double", "float64"]
  | .float => ["float", "float32"]
  | .boolean => ["boolean"]
  | .timestampTz => ["timestamptz"]
  | .timestamp => ["timestamp"]
  | .date => ["date"]
  | .binary => ["binary", "bytes"]
  | .list _ => []

def listOf (s : String) : String := "list(" ++ s ++ ")"

inductive Spelling : MappedType → String → Prop
  | name {t : MappedType} {s : String} : s ∈ names t → Spelling t s
  | list {t : MappedType} {s : String} : Spelling t s → Spelling (.list t) (listOf s)

/-- A type written with primary names. -/
def print : MappedType → String
  | .list inner => listOf (print inner)
  | t => (names t).headD ""

/-- How many parentheses are open after one more character, none when it closes one too many. -/
def openAfter : ℕ → Char → Option ℕ
  | n, '(' => some (n + 1)
  | 0, ')' => none
  | n + 1, ')' => some n
  | n, _ => some n

/-- Every parenthesis is closed, and none before it is opened. -/
def ParensMatch (s : String) : Prop := s.toList.foldlM openAfter 0 = some 0

/-- What `from_str` makes of every string. -/
structure ParsesGrammar : Prop where
  exact : ∀ s t, fromStr s = some t ↔ Spelling t s
  print : ∀ t, fromStr (print t) = some t
  unbalanced : ∀ s, ¬ParensMatch s → fromStr s = none
  empty : ∀ depth, fromStr (listOf^[depth] "") = none
  slice : ∀ s, hasListForm s → ∃ inner, listSlice s = some inner ∧ s = listOf inner

lemma primitive_eq_some_iff {s : String} {t : MappedType} : primitive s = some t ↔ s ∈ names t := by
  constructor
  · intro h
    unfold primitive at h
    split at h <;> cases h <;> simp [names]
  · intro h
    cases t <;> simp only [names, List.mem_cons, List.not_mem_nil, or_false] at h
    all_goals rcases h with rfl | rfl <;> rfl

lemma not_mem_of_mem_names {s : String} {t : MappedType} (h : s ∈ names t) :
    '(' ∉ s.toList ∧ ')' ∉ s.toList := by
  cases t <;> simp only [names, List.mem_cons, List.not_mem_nil, or_false] at h
  all_goals rcases h with rfl | rfl <;> decide

lemma toList_listOf (s : String) : (listOf s).toList = "list(".toList ++ s.toList ++ ")".toList := by
  rw [listOf, String.toList_append, String.toList_append]

/-- The names hold no parenthesis, so no list is taken for one of them. -/
lemma primitive_listOf (s : String) : primitive (listOf s) = none := by
  by_contra hne
  obtain ⟨t, ht⟩ := Option.ne_none_iff_exists'.mp hne
  refine (not_mem_of_mem_names (primitive_eq_some_iff.mp ht)).1 ?_
  rw [toList_listOf]
  simp

lemma hasListForm_iff {s : String} : hasListForm s ↔ ∃ inner, s = listOf inner := by
  constructor
  · intro h
    rw [hasListForm, Bool.and_eq_true, List.isPrefixOf_iff_prefix, List.isSuffixOf_iff_suffix] at h
    obtain ⟨⟨rest, hrest⟩, front, hfront⟩ := h
    -- the closing parenthesis is not a part of `list(`
    rcases List.eq_nil_or_concat rest with rfl | ⟨inner, c, rfl⟩
    · rw [List.append_nil] at hrest
      have hlast := congrArg List.getLast? (hrest.trans hfront.symm)
      simp at hlast
    · refine ⟨String.ofList inner, String.toList_inj.mp ?_⟩
      rw [List.concat_eq_append, ← List.append_assoc] at hrest
      have hclose := (List.append_inj' (hrest.trans hfront.symm) rfl).2
      have hback : (String.ofList inner).toList = inner := String.toList_ofList
      rw [toList_listOf, hback, ← hrest, hclose]
  · rintro ⟨inner, rfl⟩
    rw [hasListForm, toList_listOf, Bool.and_eq_true, List.isPrefixOf_iff_prefix, List.isSuffixOf_iff_suffix]
    exact ⟨⟨_, (List.append_assoc _ _ _).symm⟩, List.suffix_append _ _⟩

lemma listSlice_listOf (inner : String) : listSlice (listOf inner) = some inner := by
  have hstop : (listOf inner).utf8ByteSize - 1 = "list(".utf8ByteSize + inner.utf8ByteSize := by
    rw [listOf, String.utf8ByteSize_append, String.utf8ByteSize_append]
    rfl
  rw [listSlice, hstop]
  exact Lib.sliceBytes_append "list(" inner ")"

lemma listInner_eq (s : String) : listInner s = if hasListForm s then listSlice s else none := by
  split
  · rename_i h
    rw [listInner, if_pos h]
    obtain ⟨inner, rfl⟩ := hasListForm_iff.mp h
    have hdrop : ("list(".toList ++ (inner.toList ++ ")".toList)).drop 5 = inner.toList ++ ")".toList := rfl
    have hlast : (inner.toList ++ ")".toList).dropLast = inner.toList := List.dropLast_concat
    rw [listSlice_listOf, toList_listOf, List.append_assoc, hdrop, hlast, String.ofList_toList]
  · rename_i h
    rw [listInner, if_neg h]

lemma listInner_eq_some_iff {s inner : String} : listInner s = some inner ↔ s = listOf inner := by
  rw [listInner_eq]
  constructor
  · intro h
    split at h
    · rename_i hform
      obtain ⟨other, rfl⟩ := hasListForm_iff.mp hform
      rw [listSlice_listOf, Option.some.injEq] at h
      rw [h]
    · cases h
  · rintro rfl
    rw [if_pos (hasListForm_iff.mpr ⟨inner, rfl⟩), listSlice_listOf]

lemma fromStr_listOf (s : String) : fromStr (listOf s) = (fromStr s).map .list := by
  rw [fromStr_eq, primitive_listOf, listInner_eq_some_iff.mpr rfl]

lemma fromStr_cases {s : String} {t : MappedType} (h : fromStr s = some t) :
    s ∈ names t ∨ ∃ inner u, s = listOf inner ∧ fromStr inner = some u ∧ t = .list u := by
  rw [fromStr_eq] at h
  cases hprimitive : primitive s with
  | some u =>
    rw [hprimitive, Option.some.injEq] at h
    exact Or.inl (primitive_eq_some_iff.mp (h ▸ hprimitive))
  | none =>
    cases hinner : listInner s with
    | some inner =>
      simp only [hprimitive, hinner, Option.map_eq_some_iff] at h
      obtain ⟨u, hu, rfl⟩ := h
      exact Or.inr ⟨inner, u, listInner_eq_some_iff.mp hinner, hu, rfl⟩
    | none => simp [hprimitive, hinner] at h

lemma spelling_of_fromStr {s : String} {t : MappedType} (h : fromStr s = some t) : Spelling t s := by
  induction t generalizing s with
  | list t ih =>
    rcases fromStr_cases h with hname | ⟨inner, u, rfl, hu, heq⟩
    · exact .name hname
    · cases heq
      exact .list (ih hu)
  | _ =>
    rcases fromStr_cases h with hname | ⟨inner, u, -, -, heq⟩
    · exact .name hname
    · cases heq

lemma Spelling.fromStr_eq {s : String} {t : MappedType} (h : Spelling t s) : fromStr s = some t := by
  induction h with
  | name hname => rw [MappedType.fromStr_eq, primitive_eq_some_iff.mpr hname]
  | list _ ih => rw [fromStr_listOf, ih, Option.map_some]

lemma fromStr_eq_some_iff {s : String} {t : MappedType} : fromStr s = some t ↔ Spelling t s :=
  ⟨spelling_of_fromStr, Spelling.fromStr_eq⟩

lemma spelling_print (t : MappedType) : Spelling t (print t) := by
  induction t with
  | list t ih => exact .list ih
  | _ => exact .name List.mem_cons_self

lemma openAfter_of_ne {n : ℕ} {c : Char} (hopen : c ≠ '(') (hclose : c ≠ ')') : openAfter n c = some n := by
  unfold openAfter
  split <;> simp_all

lemma foldlM_openAfter_of_not_mem {n : ℕ} {cs : List Char} (hopen : '(' ∉ cs) (hclose : ')' ∉ cs) :
    cs.foldlM openAfter n = some n := by
  induction cs with
  | nil => rfl
  | cons c cs ih =>
    rw [List.mem_cons, not_or] at hopen hclose
    rw [List.foldlM_cons, openAfter_of_ne (Ne.symm hopen.1) (Ne.symm hclose.1)]
    exact ih hopen.2 hclose.2

lemma openAfter_add {m n : ℕ} {c : Char} (h : openAfter m c = some n) (k : ℕ) :
    openAfter (m + k) c = some (n + k) := by
  by_cases hopen : c = '('
  · subst hopen
    cases h
    rw [Nat.add_right_comm]
    rfl
  · by_cases hclose : c = ')'
    · subst hclose
      cases m with
      | zero => cases h
      | succ m =>
        cases h
        rw [Nat.add_right_comm]
        rfl
    · rw [openAfter_of_ne hopen hclose] at h ⊢
      rw [Option.some.inj h]

/-- Parentheses that are open already stay open. -/
lemma foldlM_openAfter_add {m n : ℕ} {cs : List Char} (h : cs.foldlM openAfter m = some n) (k : ℕ) :
    cs.foldlM openAfter (m + k) = some (n + k) := by
  induction cs generalizing m with
  | nil =>
    cases h
    rfl
  | cons c cs ih =>
    rw [List.foldlM_cons] at h ⊢
    obtain ⟨m', hfirst, hrest⟩ := Option.bind_eq_some_iff.mp h
    rw [openAfter_add hfirst k]
    exact ih hrest

lemma parensMatch_listOf {s : String} (h : ParensMatch s) : ParensMatch (listOf s) := by
  have hinner : s.toList.foldlM openAfter 1 = some 1 := by
    have hadd := foldlM_openAfter_add h 1
    rwa [Nat.zero_add] at hadd
  rw [ParensMatch, toList_listOf, List.foldlM_append, List.foldlM_append]
  have hopen : "list(".toList.foldlM openAfter 0 = some 1 := rfl
  rw [hopen]
  simp only [Option.bind_eq_bind, Option.bind_some, hinner]
  rfl

lemma Spelling.parensMatch {s : String} {t : MappedType} (h : Spelling t s) : ParensMatch s := by
  induction h with
  | name hname =>
    obtain ⟨hopen, hclose⟩ := not_mem_of_mem_names hname
    exact foldlM_openAfter_of_not_mem hopen hclose
  | list _ ih => exact parensMatch_listOf ih

/-- `from_str` parses exactly the spellings, and its slices do not panic. -/
theorem from_str_parses_grammar : ParsesGrammar where
  exact _ _ := fromStr_eq_some_iff
  print t := (spelling_print t).fromStr_eq
  unbalanced s h := by
    by_contra hne
    obtain ⟨t, ht⟩ := Option.ne_none_iff_exists'.mp hne
    exact h (spelling_of_fromStr ht).parensMatch
  empty depth := by
    induction depth with
    | zero => rfl
    | succ depth ih => rw [Function.iterate_succ_apply', fromStr_listOf, ih, Option.map_none]
  slice s h := by
    obtain ⟨inner, rfl⟩ := hasListForm_iff.mp h
    exact ⟨inner, listSlice_listOf inner, rfl⟩

end MicewriterEngine.Proofs
