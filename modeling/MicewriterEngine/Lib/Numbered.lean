import Mathlib.Data.List.Sort
import MicewriterEngine.Lib.SortedMap

/-!
# Lists whose elements draw consecutive numbers

Each element of a list takes the next number, and a number stands for a key. Written under
these keys to a sorted map, in any order and any selection, the elements come out in the
order of the list.
-/

namespace MicewriterEngine.Lib

variable {κ τ ν α : Type*}

/-- Pair each element with the key of its number. -/
def numbered (key : ℕ → κ) : ℕ → List α → List (κ × α)
  | _, [] => []
  | n, a :: l => (key n, a) :: numbered key (n + 1) l

@[simp] lemma numbered_nil (key : ℕ → κ) (n : ℕ) : numbered key n ([] : List α) = [] := rfl

lemma numbered_append (key : ℕ → κ) (n : ℕ) (l m : List α) :
    numbered key n (l ++ m) = numbered key n l ++ numbered key (n + l.length) m := by
  induction l generalizing n with
  | nil => rfl
  | cons a l ih =>
    have hn : n + 1 + l.length = n + (l.length + 1) := by omega
    rw [List.cons_append, numbered, ih, numbered, List.length_cons, hn, List.cons_append]

lemma map_snd_numbered (key : ℕ → κ) (n : ℕ) (l : List α) : (numbered key n l).map Prod.snd = l := by
  induction l generalizing n with
  | nil => rfl
  | cons a l ih => rw [numbered, List.map_cons, ih]

lemma key_of_mem_numbered {key : ℕ → κ} {n : ℕ} {l : List α} {e : κ × α} (h : e ∈ numbered key n l) :
    ∃ i, n ≤ i ∧ i < n + l.length ∧ e.1 = key i := by
  induction l generalizing n with
  | nil => cases h
  | cons a l ih =>
    rw [List.length_cons]
    rcases List.mem_cons.mp h with rfl | h
    · exact ⟨n, le_rfl, by omega, rfl⟩
    · obtain ⟨i, hlo, hhi, hkey⟩ := ih h
      exact ⟨i, by omega, by omega, hkey⟩

/-- The keys increase from `n` up to `n + length`. -/
def IncreasingKeys [LT κ] (key : ℕ → κ) (n length : ℕ) : Prop :=
  ∀ i j, n ≤ i → i < j → j < n + length → key i < key j

lemma numbered_increasing [LT κ] {key : ℕ → κ} {n : ℕ} {l : List α} (hkey : IncreasingKeys key n l.length) :
    (numbered key n l).Pairwise (fun a b => a.1 < b.1) := by
  induction l generalizing n with
  | nil => exact List.Pairwise.nil
  | cons a l ih =>
    rw [List.length_cons] at hkey
    refine List.pairwise_cons.mpr ⟨fun e he => ?_, ih fun i j hi hij hj => hkey i j (by omega) hij (by omega)⟩
    obtain ⟨i, hlo, hhi, heq⟩ := key_of_mem_numbered he
    rw [heq]
    exact hkey n i le_rfl (by omega) (by omega)

/-- The values with a chosen tag, each under the key of its number. -/
def entriesOf (key : ℕ → κ) (n : ℕ) (chosen : τ → Prop) [DecidablePred chosen] (l : List (τ × ν)) : List (κ × ν) :=
  ((numbered key n l).filter (fun e => chosen e.2.1)).map (fun e => (e.1, e.2.2))

variable {key : ℕ → κ} {n : ℕ} {chosen chosen' : τ → Prop} [DecidablePred chosen] [DecidablePred chosen']

lemma mem_entriesOf {l : List (τ × ν)} {e : κ × ν} :
    e ∈ entriesOf key n chosen l ↔ ∃ x ∈ numbered key n l, chosen x.2.1 ∧ (x.1, x.2.2) = e := by
  simp only [entriesOf, List.mem_map, List.mem_filter, decide_eq_true_eq, and_assoc]

lemma entriesOf_append (key : ℕ → κ) (n : ℕ) (chosen : τ → Prop) [DecidablePred chosen] (l m : List (τ × ν)) :
    entriesOf key n chosen (l ++ m) = entriesOf key n chosen l ++ entriesOf key (n + l.length) chosen m := by
  unfold entriesOf
  rw [numbered_append, List.filter_append, List.map_append]

lemma entriesOf_congr {l : List (τ × ν)} (h : ∀ x ∈ l, chosen x.1 ↔ chosen' x.1) :
    entriesOf key n chosen l = entriesOf key n chosen' l := by
  unfold entriesOf
  congr 1
  apply List.filter_congr
  intro x hx
  have hmem : x.2 ∈ l := by
    rw [← map_snd_numbered key n l]
    exact List.mem_map_of_mem hx
  exact decide_eq_decide.mpr (h x.2 hmem)

lemma entriesOf_eq_nil {l : List (τ × ν)} (h : ∀ x ∈ l, ¬chosen x.1) : entriesOf key n chosen l = [] := by
  rw [List.eq_nil_iff_forall_not_mem]
  intro e he
  obtain ⟨x, hx, hchosen, -⟩ := mem_entriesOf.mp he
  refine h x.2 ?_ hchosen
  rw [← map_snd_numbered key n l]
  exact List.mem_map_of_mem hx

/-- The values of the entries are the chosen values in the order of the list. -/
lemma map_snd_entriesOf (l : List (τ × ν)) :
    (entriesOf key n chosen l).map Prod.snd = (l.filter (fun x => chosen x.1)).map Prod.snd := by
  have hfilter : ((numbered key n l).filter (fun e => chosen e.2.1)).map Prod.snd = l.filter (fun x => chosen x.1) := by
    conv_rhs => rw [← map_snd_numbered key n l, List.filter_map]
    rfl
  rw [entriesOf, List.map_map, ← hfilter, List.map_map]
  rfl

lemma entriesOf_increasing [LT κ] {l : List (τ × ν)} (hkey : IncreasingKeys key n l.length) :
    (entriesOf key n chosen l).Pairwise (fun a b => a.1 < b.1) := by
  rw [entriesOf, List.pairwise_map]
  exact (numbered_increasing hkey).filter _

lemma key_of_mem_entriesOf {l : List (τ × ν)} {e : κ × ν} (h : e ∈ entriesOf key n chosen l) :
    ∃ i, n ≤ i ∧ i < n + l.length ∧ e.1 = key i := by
  obtain ⟨x, hx, -, rfl⟩ := mem_entriesOf.mp h
  exact key_of_mem_numbered hx

variable [LinearOrder κ]

/-- Entries under new keys land where the order of the keys puts them. -/
theorem SortedMap.entries_insertMany_eq {m : SortedMap κ ν} {es l : List (κ × ν)}
    (hes : es.Pairwise (fun a b => a.1 < b.1)) (hnew : ∀ e ∈ es, e.1 ∉ m.keys)
    (hl : l.Pairwise (fun a b => a.1 < b.1)) (hmem : ∀ e, e ∈ l ↔ e ∈ m.entries ∨ e ∈ es) :
    (m.insertMany es).entries = l := by
  have hirrefl : Std.Irrefl (fun a b : κ × ν => a.1 < b.1) := ⟨fun a => lt_irrefl a.1⟩
  have hantisymm : Std.Antisymm (fun a b : κ × ν => a.1 < b.1) := ⟨fun a b hab hba => absurd hab hba.asymm⟩
  refine List.Pairwise.eq_of_mem_iff (List.pairwise_map.mp (m.insertMany es).sorted) hl ?_
  have hinsert : ∀ (m : SortedMap κ ν), (∀ e ∈ es, e.1 ∉ m.keys) →
      ∀ e, e ∈ (m.insertMany es).entries ↔ e ∈ m.entries ∨ e ∈ es := by
    clear hmem hnew m
    induction es with
    | nil => simp
    | cons x es ih =>
      intro m hnew e
      rw [List.pairwise_cons] at hes
      have hrest : ∀ e ∈ es, e.1 ∉ (m.insert x.1 x.2).keys := by
        intro e he hmem
        rw [keys, insert, mem_keys_insertEntry] at hmem
        rcases hmem with heq | hold
        · exact absurd (hes.1 e he) (heq ▸ lt_irrefl _)
        · exact hnew e (List.mem_cons_of_mem x he) hold
      have hx : (x.1, x.2) = x := rfl
      have hfirst : ∀ e : κ × ν, e ∈ (m.insert x.1 x.2).entries ↔ e = x ∨ e ∈ m.entries := by
        rintro ⟨j, w⟩
        rw [mem_entries_insert_iff]
        constructor
        · rintro (⟨rfl, rfl⟩ | ⟨-, hold⟩)
          · exact Or.inl hx
          · exact Or.inr hold
        · rintro (heq | hold)
          · exact Or.inl ⟨congrArg Prod.fst heq, congrArg Prod.snd heq⟩
          · refine Or.inr ⟨fun hj => hnew x List.mem_cons_self ?_, hold⟩
            exact hj ▸ List.mem_map_of_mem (f := Prod.fst) hold
      rw [insertMany_cons, ih hes.2 _ hrest, hfirst, List.mem_cons, or_assoc, or_left_comm]
  exact fun e => (hinsert m hnew e).trans (hmem e).symm

/-- Writing the values with further tags to a map of the values with other tags gives the values
with both, in the order of the list. -/
theorem SortedMap.entries_insertMany_entriesOf {m : SortedMap κ ν} {base : List (κ × ν)} {l : List (τ × ν)}
    (hm : m.entries = base ++ entriesOf key n chosen l) (hkey : IncreasingKeys key n l.length)
    (hbase : ∀ e ∈ base, ∀ i, n ≤ i → i < n + l.length → e.1 < key i) (hdisjoint : ∀ t, chosen t → ¬chosen' t) :
    (m.insertMany (entriesOf key n chosen' l)).entries = base ++ entriesOf key n (fun t => chosen t ∨ chosen' t) l := by
  have hlt : ∀ e ∈ base, ∀ x ∈ entriesOf key n (fun t => chosen t ∨ chosen' t) l, e.1 < x.1 := by
    intro e he x hx
    obtain ⟨i, hlo, hhi, heq⟩ := key_of_mem_entriesOf hx
    rw [heq]
    exact hbase e he i hlo hhi
  have hmem : ∀ e, e ∈ entriesOf key n (fun t => chosen t ∨ chosen' t) l ↔
      e ∈ entriesOf key n chosen l ∨ e ∈ entriesOf key n chosen' l := by
    intro e
    simp only [mem_entriesOf]
    constructor
    · rintro ⟨x, hx, hchosen | hchosen, heq⟩
      · exact Or.inl ⟨x, hx, hchosen, heq⟩
      · exact Or.inr ⟨x, hx, hchosen, heq⟩
    · rintro (⟨x, hx, hchosen, heq⟩ | ⟨x, hx, hchosen, heq⟩)
      · exact ⟨x, hx, Or.inl hchosen, heq⟩
      · exact ⟨x, hx, Or.inr hchosen, heq⟩
  apply SortedMap.entries_insertMany_eq
  case hes => exact entriesOf_increasing hkey
  case hnew =>
    intro e he hold
    obtain ⟨x, hx, hchosen, rfl⟩ := mem_entriesOf.mp he
    rw [keys, hm, List.map_append, List.mem_append] at hold
    rcases hold with hold | hold
    · obtain ⟨b, hb, heq⟩ := List.mem_map.mp hold
      have hb' := hlt b hb _ ((hmem _).mpr (Or.inr he))
      exact absurd hb' (heq ▸ lt_irrefl _)
    · -- two elements under one key are the same element, which cannot have both tags
      obtain ⟨y, hy, heq⟩ := List.mem_map.mp hold
      obtain ⟨z, hz, hother, rfl⟩ := mem_entriesOf.mp hy
      have hnodup : ((numbered key n l).map Prod.fst).Nodup :=
        (List.pairwise_map.mpr (numbered_increasing hkey)).imp ne_of_lt
      have hsame : z = x := List.inj_on_of_nodup_map hnodup hz hx heq
      exact hdisjoint z.2.1 hother (hsame ▸ hchosen)
  case hl =>
    refine List.pairwise_append.mpr ⟨?_, entriesOf_increasing hkey, hlt⟩
    have hsorted := List.pairwise_map.mp m.sorted
    rw [hm, List.pairwise_append] at hsorted
    exact hsorted.1
  case hmem =>
    intro e
    rw [hm, List.mem_append, List.mem_append, hmem, or_assoc]

end MicewriterEngine.Lib
