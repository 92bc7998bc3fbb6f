import Mathlib.Data.List.Sort
import Mathlib.Order.Lattice

/-!
# Maps kept in key order

A finite map stored as its list of entries in strictly increasing key order, with the
order as a field. Writing an existing key replaces its value. A map that is only ever
written at keys above all of its keys is a log: its values are the written values in
the order of the writes.
-/

namespace MicewriterEngine.Lib

variable {κ ν : Type*} [LinearOrder κ]

/-- Put an entry into a list in key order, over the entry with the same key if there is one. -/
def insertEntry (k : κ) (v : ν) : List (κ × ν) → List (κ × ν)
  | [] => [(k, v)]
  | e :: rest =>
    if k < e.1 then (k, v) :: e :: rest
    else if k = e.1 then (k, v) :: rest
    else e :: insertEntry k v rest

lemma mem_keys_insertEntry {k j : κ} {v : ν} {l : List (κ × ν)} :
    j ∈ (insertEntry k v l).map Prod.fst ↔ j = k ∨ j ∈ l.map Prod.fst := by
  induction l with
  | nil => simp [insertEntry]
  | cons e rest ih =>
    rw [insertEntry]
    split
    · simp
    · split
      · rename_i hk
        simp [hk]
      · rw [List.map_cons, List.mem_cons, ih, List.map_cons, List.mem_cons]
        exact or_left_comm

lemma insertEntry_sorted {k : κ} {v : ν} {l : List (κ × ν)}
    (h : (l.map Prod.fst).Pairwise (· < ·)) : ((insertEntry k v l).map Prod.fst).Pairwise (· < ·) := by
  induction l with
  | nil => simp [insertEntry]
  | cons e rest ih =>
    rw [List.map_cons, List.pairwise_cons] at h
    rw [insertEntry]
    split
    · rename_i hk
      rw [List.map_cons, List.map_cons, List.pairwise_cons, List.pairwise_cons]
      refine ⟨?_, h⟩
      intro j hj
      rcases List.mem_cons.mp hj with rfl | hj
      · exact hk
      · exact hk.trans (h.1 j hj)
    · split
      · rename_i hk
        rw [List.map_cons, List.pairwise_cons]
        exact ⟨fun j hj => hk ▸ h.1 j hj, h.2⟩
      · rename_i hlt hne
        have hek : e.1 < k := lt_of_le_of_ne (not_lt.mp hlt) (Ne.symm hne)
        rw [List.map_cons, List.pairwise_cons]
        refine ⟨?_, ih h.2⟩
        intro j hj
        rcases mem_keys_insertEntry.mp hj with rfl | hj
        · exact hek
        · exact h.1 j hj

lemma insertEntry_of_forall_lt {k : κ} {v : ν} {l : List (κ × ν)}
    (h : ∀ j ∈ l.map Prod.fst, j < k) : insertEntry k v l = l ++ [(k, v)] := by
  induction l with
  | nil => rfl
  | cons e rest ih =>
    have he : e.1 < k := h e.1 (by simp)
    have hrest : insertEntry k v rest = rest ++ [(k, v)] := ih (fun j hj => h j (by simp [hj]))
    rw [insertEntry, if_neg he.not_gt, if_neg he.ne', hrest, List.cons_append]

lemma mem_insertEntry (k : κ) (v : ν) (l : List (κ × ν)) : (k, v) ∈ insertEntry k v l := by
  induction l with
  | nil => exact List.mem_singleton_self _
  | cons e rest ih =>
    rw [insertEntry]
    split
    · exact List.mem_cons_self
    · split
      · exact List.mem_cons_self
      · exact List.mem_cons_of_mem _ ih

/-- Writing a key leaves the entries under all other keys as they are. -/
lemma mem_insertEntry_iff {k j : κ} {v w : ν} {l : List (κ × ν)} (h : (l.map Prod.fst).Pairwise (· < ·)) :
    (j, w) ∈ insertEntry k v l ↔ j = k ∧ w = v ∨ j ≠ k ∧ (j, w) ∈ l := by
  induction l with
  | nil => simp [insertEntry]
  | cons e rest ih =>
    rw [List.map_cons, List.pairwise_cons] at h
    have hrest : (j, w) ∈ rest → e.1 < j := fun hmem => h.1 j (List.mem_map_of_mem hmem)
    have hhead : (j, w) = e → j = e.1 := fun heq => congrArg Prod.fst heq
    rw [insertEntry]
    split
    · rename_i hlt
      have habove : (j, w) ∈ e :: rest → j ≠ k := by
        intro hmem
        rcases List.mem_cons.mp hmem with heq | hmem
        · exact hhead heq ▸ hlt.ne'
        · exact (hlt.trans (hrest hmem)).ne'
      rw [List.mem_cons, Prod.mk.injEq]
      exact or_congr_right ⟨fun hmem => ⟨habove hmem, hmem⟩, And.right⟩
    · split
      · rename_i heq
        subst heq
        have hne : (j, w) ∈ rest → j ≠ e.1 := fun hmem => (hrest hmem).ne'
        rw [List.mem_cons, List.mem_cons, Prod.mk.injEq]
        refine or_congr_right ⟨fun hmem => ⟨hne hmem, Or.inr hmem⟩, ?_⟩
        rintro ⟨hjk, hmem⟩
        exact hmem.resolve_left (fun heq => hjk (hhead heq))
      · rename_i hne
        have hother : (j, w) = e → j ≠ k := fun heq hjk => hne (hjk ▸ hhead heq)
        rw [List.mem_cons, ih h.2, List.mem_cons, or_left_comm, and_or_left, and_iff_right_of_imp hother]

/-- Where there is no value but empty ones under a key, a write adds the length of its value. -/
lemma length_flatten_insertEntry {α : Type*} {k : κ} {v : List α} {l : List (κ × List α)}
    (h : ∀ w, (k, w) ∈ l → w = []) :
    ((insertEntry k v l).map Prod.snd).flatten.length = (l.map Prod.snd).flatten.length + v.length := by
  induction l with
  | nil => simp [insertEntry]
  | cons e rest ih =>
    have hrest := ih fun w hw => h w (List.mem_cons_of_mem e hw)
    rw [insertEntry]
    split
    · simp only [List.map_cons, List.flatten_cons, List.length_append]
      omega
    · split
      · rename_i heq
        have he : e.2 = [] := h e.2 (heq ▸ List.mem_cons_self)
        simp only [List.map_cons, List.flatten_cons, List.length_append, he, List.length_nil]
        omega
      · simp only [List.map_cons, List.flatten_cons, List.length_append, hrest]
        omega

/-- A finite map with its entries in strictly increasing key order. -/
structure SortedMap (κ ν : Type*) [LinearOrder κ] where
  entries : List (κ × ν)
  sorted : (entries.map Prod.fst).Pairwise (· < ·)

namespace SortedMap

def empty : SortedMap κ ν := ⟨[], List.Pairwise.nil⟩

def insert (m : SortedMap κ ν) (k : κ) (v : ν) : SortedMap κ ν :=
  ⟨insertEntry k v m.entries, insertEntry_sorted m.sorted⟩

def insertMany (m : SortedMap κ ν) (es : List (κ × ν)) : SortedMap κ ν :=
  es.foldl (fun m e => m.insert e.1 e.2) m

def keys (m : SortedMap κ ν) : List κ := m.entries.map Prod.fst

def values (m : SortedMap κ ν) : List ν := m.entries.map Prod.snd

def last? (m : SortedMap κ ν) : Option (κ × ν) := m.entries.getLast?

@[simp] lemma keys_empty : (empty : SortedMap κ ν).keys = [] := rfl

@[simp] lemma values_empty : (empty : SortedMap κ ν).values = [] := rfl

@[simp] lemma insertMany_nil (m : SortedMap κ ν) : m.insertMany [] = m := rfl

@[simp] lemma insertMany_cons (m : SortedMap κ ν) (e : κ × ν) (es : List (κ × ν)) :
    m.insertMany (e :: es) = (m.insert e.1 e.2).insertMany es := rfl

lemma mem_entries_insert_iff (m : SortedMap κ ν) {k j : κ} {v w : ν} :
    (j, w) ∈ (m.insert k v).entries ↔ j = k ∧ w = v ∨ j ≠ k ∧ (j, w) ∈ m.entries :=
  mem_insertEntry_iff m.sorted

/-- An entry whose key is not written stays. -/
theorem mem_insertMany_of_notMem {m : SortedMap κ ν} {es : List (κ × ν)} {j : κ} {w : ν}
    (hj : j ∉ es.map Prod.fst) (hmem : (j, w) ∈ m.entries) : (j, w) ∈ (m.insertMany es).entries := by
  induction es generalizing m with
  | nil => exact hmem
  | cons e es ih =>
    rw [List.map_cons, List.mem_cons, not_or] at hj
    exact ih hj.2 (m.mem_entries_insert_iff.mpr (Or.inr ⟨hj.1, hmem⟩))

/-- Under a key that is written there is a written value. -/
theorem eq_of_mem_insertMany {m : SortedMap κ ν} {es : List (κ × ν)} {j : κ} {v w : ν}
    (hes : ∀ e ∈ es, e.2 = v) (hj : j ∈ es.map Prod.fst ∨ ∀ w, (j, w) ∈ m.entries → w = v)
    (hmem : (j, w) ∈ (m.insertMany es).entries) : w = v := by
  induction es generalizing m with
  | nil => exact hj.elim (fun hnil => absurd hnil List.not_mem_nil) (fun hold => hold w hmem)
  | cons e es ih =>
    have he := hes e List.mem_cons_self
    refine ih (fun e' he' => hes e' (List.mem_cons_of_mem e he')) ?_ hmem
    by_cases hrest : j ∈ es.map Prod.fst
    · exact Or.inl hrest
    · refine Or.inr fun w' hw' => ?_
      rcases m.mem_entries_insert_iff.mp hw' with ⟨-, heq⟩ | ⟨hne, hold⟩
      · exact heq.trans he
      · rcases hj with hkey | hall
        · exact absurd ((List.mem_cons.mp hkey).resolve_right hrest) hne
        · exact hall w' hold

lemma mem_keys_insertMany {m : SortedMap κ ν} {es : List (κ × ν)} {j : κ} :
    j ∈ (m.insertMany es).keys ↔ j ∈ m.keys ∨ j ∈ es.map Prod.fst := by
  induction es generalizing m with
  | nil => simp
  | cons e es ih =>
    rw [insertMany_cons, ih, keys, insert, mem_keys_insertEntry, keys, List.map_cons, List.mem_cons, or_assoc,
      or_left_comm]

lemma mem_values_insert (m : SortedMap κ ν) (k : κ) (v : ν) : v ∈ (m.insert k v).values :=
  List.mem_map_of_mem (mem_insertEntry k v m.entries)

lemma entries_insert_of_forall_lt (m : SortedMap κ ν) (k : κ) (v : ν) (h : ∀ j ∈ m.keys, j < k) :
    (m.insert k v).entries = m.entries ++ [(k, v)] :=
  insertEntry_of_forall_lt h

/-- Writes at increasing keys above all present keys append to the entries. -/
theorem entries_insertMany_of_increasing (m : SortedMap κ ν) (es : List (κ × ν))
    (hes : (es.map Prod.fst).Pairwise (· < ·)) (h : ∀ j ∈ m.keys, ∀ k ∈ es.map Prod.fst, j < k) :
    (m.insertMany es).entries = m.entries ++ es := by
  induction es generalizing m with
  | nil => simp
  | cons e es ih =>
    rw [List.map_cons, List.pairwise_cons] at hes
    have hins : (m.insert e.1 e.2).entries = m.entries ++ [e] :=
      m.entries_insert_of_forall_lt e.1 e.2 (fun j hj => h j hj e.1 (by simp))
    have habove : ∀ j ∈ (m.insert e.1 e.2).keys, ∀ k ∈ es.map Prod.fst, j < k := by
      intro j hj k hk
      rw [keys, hins, List.map_append, List.mem_append] at hj
      rcases hj with hj | hj
      · exact h j hj k (List.mem_cons_of_mem _ hk)
      · rw [List.map_singleton, List.mem_singleton] at hj
        exact hj ▸ hes.1 k hk
    rw [insertMany_cons, ih (m.insert e.1 e.2) hes.2 habove, hins, List.append_assoc,
      List.singleton_append]

theorem keys_insertMany_of_increasing (m : SortedMap κ ν) (es : List (κ × ν))
    (hes : (es.map Prod.fst).Pairwise (· < ·)) (h : ∀ j ∈ m.keys, ∀ k ∈ es.map Prod.fst, j < k) :
    (m.insertMany es).keys = m.keys ++ es.map Prod.fst := by
  rw [keys, entries_insertMany_of_increasing m es hes h, List.map_append, keys]

theorem values_insertMany_of_increasing (m : SortedMap κ ν) (es : List (κ × ν))
    (hes : (es.map Prod.fst).Pairwise (· < ·)) (h : ∀ j ∈ m.keys, ∀ k ∈ es.map Prod.fst, j < k) :
    (m.insertMany es).values = m.values ++ es.map Prod.snd := by
  rw [values, entries_insertMany_of_increasing m es hes h, List.map_append, values]

lemma keys_eq_nil_of_last?_eq_none {m : SortedMap κ ν} (h : m.last? = none) : m.keys = [] := by
  rw [last?, List.getLast?_eq_none_iff] at h
  rw [keys, h, List.map_nil]

/-- No key is above the key of the last entry. -/
theorem le_of_last? {m : SortedMap κ ν} {e : κ × ν} (h : m.last? = some e) {j : κ} (hj : j ∈ m.keys) :
    j ≤ e.1 := by
  rw [last?, List.getLast?_eq_some_iff] at h
  obtain ⟨front, hfront⟩ := h
  have hsorted := m.sorted
  rw [hfront, List.map_append, List.pairwise_append] at hsorted
  rw [keys, hfront, List.map_append, List.mem_append] at hj
  rcases hj with hj | hj
  · exact (hsorted.2.2 j hj e.1 (by simp)).le
  · rw [List.map_singleton, List.mem_singleton] at hj
    exact hj.le

lemma mem_keys_of_last? {m : SortedMap κ ν} {e : κ × ν} (h : m.last? = some e) : e.1 ∈ m.keys :=
  List.mem_map_of_mem (List.mem_of_getLast? h)

end SortedMap

end MicewriterEngine.Lib
