import Mathlib

/-!
# Totals of finite maps

The sum of all values of a finite map with natural-number values, and the part of it that
belongs to a set of keys.
-/

namespace MicewriterEngine.Lib

variable {κ : Type*} [DecidableEq κ]

/-- The sum of the values. -/
def mapTotal (m : AList (fun _ : κ => ℕ)) : ℕ := (m.entries.map Sigma.snd).sum

/-- The value of a key, zero without one. -/
def valueOf (m : AList (fun _ : κ => ℕ)) (k : κ) : ℕ := (m.lookup k).getD 0

/-- The sum of the values of some keys. -/
def keysTotal (m : AList (fun _ : κ => ℕ)) (keys : Multiset κ) : ℕ := (keys.map (valueOf m)).sum

variable {m : AList (fun _ : κ => ℕ)} {keys : Multiset κ} {k : κ} {v : ℕ}

lemma mapTotal_insert (h : k ∉ m) : mapTotal (m.insert k v) = v + mapTotal m := by
  rw [AList.insert_of_notMem h]
  exact List.sum_cons

lemma mapTotal_erase (h : k ∈ m) : mapTotal m = valueOf m k + mapTotal (m.erase k) := by
  obtain ⟨v, front, back, hfront, hentries, herase⟩ := List.exists_of_kerase h
  have hlookup : m.lookup k = some v := by
    rw [AList.lookup, hentries, List.dlookup_append, List.dlookup_eq_none.mpr hfront, Option.none_or,
      List.dlookup_cons_eq]
  have hrest : mapTotal (m.erase k) = ((front ++ back).map Sigma.snd).sum := by
    rw [mapTotal, AList.erase]
    exact congrArg (fun entries => (entries.map Sigma.snd).sum) herase
  rw [hrest, valueOf, hlookup, mapTotal, hentries]
  simp only [List.map_append, List.map_cons, List.sum_append, List.sum_cons, Option.getD_some]
  omega

lemma keysTotal_cons (k : κ) (keys : Multiset κ) : keysTotal m (k ::ₘ keys) = valueOf m k + keysTotal m keys := by
  rw [keysTotal, Multiset.map_cons, Multiset.sum_cons]
  rfl

/-- The values of other keys do not matter. -/
lemma keysTotal_congr {m' : AList (fun _ : κ => ℕ)} (h : ∀ k ∈ keys, m'.lookup k = m.lookup k) :
    keysTotal m' keys = keysTotal m keys := by
  rw [keysTotal, keysTotal, Multiset.map_congr rfl (fun k hk => by rw [valueOf, h k hk, ← valueOf])]

lemma keysTotal_insert (h : k ∉ keys) : keysTotal (m.insert k v) keys = keysTotal m keys :=
  keysTotal_congr (fun _ hk => AList.lookup_insert_ne (fun heq => h (heq ▸ hk)))

lemma keysTotal_erase (h : k ∉ keys) : keysTotal (m.erase k) keys = keysTotal m keys :=
  keysTotal_congr (fun _ hk => AList.lookup_erase_ne (fun heq => h (heq ▸ hk)))

/-- Different keys of the map have at most its total. -/
theorem keysTotal_le (hnodup : keys.Nodup) (hkeys : ∀ k ∈ keys, k ∈ m) : keysTotal m keys ≤ mapTotal m := by
  induction keys using Multiset.induction generalizing m with
  | empty => exact Nat.zero_le _
  | cons k keys ih =>
    obtain ⟨hk, hrest⟩ := Multiset.nodup_cons.mp hnodup
    have hmem : ∀ other ∈ keys, other ∈ m.erase k := fun other hother =>
      AList.mem_erase.mpr ⟨fun heq => hk (heq ▸ hother), hkeys other (Multiset.mem_cons_of_mem hother)⟩
    have hle := ih hrest hmem
    rw [keysTotal_erase hk] at hle
    rw [keysTotal_cons, mapTotal_erase (hkeys k (Multiset.mem_cons_self k keys))]
    omega

end MicewriterEngine.Lib
