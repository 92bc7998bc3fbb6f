import Mathlib.Data.List.Lex
import Mathlib.Order.Nat
import Mathlib.Tactic.Ring
import Mathlib.Tactic.Linarith

/-!
# Big-endian byte strings

A number written with a fixed number of bytes, most significant byte first. On byte
strings of one length the lexicographic order is the order of the numbers.
-/

namespace MicewriterEngine.Lib

instance uint8LinearOrder : LinearOrder UInt8 where
  le_refl a := UInt8.le_refl a
  le_trans _ _ _ := UInt8.le_trans
  lt_iff_le_not_ge a b := by
    rw [UInt8.lt_iff_toNat_lt, UInt8.le_iff_toNat_le, UInt8.le_iff_toNat_le]
    omega
  le_antisymm _ _ := UInt8.le_antisymm
  le_total := UInt8.le_total
  toDecidableLE a b := inferInstanceAs (Decidable (a ≤ b))

/-- The `width` low bytes of `n`, most significant byte first. -/
def beBytes : ℕ → ℕ → List UInt8
  | 0, _ => []
  | width + 1, n => beBytes width (n / 256) ++ [UInt8.ofNat n]

/-- The number a byte string denotes, most significant byte first. -/
def ofBeBytes : List UInt8 → ℕ
  | [] => 0
  | b :: bs => b.toNat * 256 ^ bs.length + ofBeBytes bs

@[simp] lemma length_beBytes (width n : ℕ) : (beBytes width n).length = width := by
  induction width generalizing n with
  | zero => rfl
  | succ width ih => rw [beBytes, List.length_append, ih, List.length_singleton]

lemma ofBeBytes_append (as bs : List UInt8) :
    ofBeBytes (as ++ bs) = ofBeBytes as * 256 ^ bs.length + ofBeBytes bs := by
  induction as with
  | nil => simp [ofBeBytes]
  | cons a as ih =>
    rw [List.cons_append, ofBeBytes, ih, ofBeBytes, List.length_append, pow_add]
    ring

lemma ofBeBytes_lt (bs : List UInt8) : ofBeBytes bs < 256 ^ bs.length := by
  induction bs with
  | nil => simp [ofBeBytes]
  | cons b bs ih =>
    have hb : b.toNat < 256 := b.toNat_lt
    have hmul : (b.toNat + 1) * 256 ^ bs.length ≤ 256 * 256 ^ bs.length :=
      Nat.mul_le_mul_right _ hb
    rw [ofBeBytes, List.length_cons, pow_succ]
    linarith

theorem ofBeBytes_beBytes (width n : ℕ) : ofBeBytes (beBytes width n) = n % 256 ^ width := by
  induction width generalizing n with
  | zero => simp [beBytes, ofBeBytes, Nat.mod_one]
  | succ width ih =>
    have hlast : ofBeBytes [UInt8.ofNat n] = n % 256 := by simp [ofBeBytes]
    rw [beBytes, ofBeBytes_append, ih, hlast, List.length_singleton, pow_one, pow_succ',
      Nat.mod_mul]
    ring

/-- Lexicographic order on byte strings of one length is numeric order. -/
theorem lt_iff_ofBeBytes_lt {as bs : List UInt8} (h : as.length = bs.length) :
    as < bs ↔ ofBeBytes as < ofBeBytes bs := by
  induction as generalizing bs with
  | nil =>
    cases bs with
    | nil => simp [ofBeBytes]
    | cons b bs => simp at h
  | cons a as ih =>
    cases bs with
    | nil => simp at h
    | cons b bs =>
      have hlen : as.length = bs.length := by simpa using h
      have has := ofBeBytes_lt as
      have hbs := ofBeBytes_lt bs
      rw [List.cons_lt_cons_iff, ih hlen, ofBeBytes, ofBeBytes, hlen, UInt8.lt_iff_toNat_lt]
      rw [hlen] at has
      constructor
      · rintro (hab | ⟨rfl, hlt⟩)
        · have hmul : (a.toNat + 1) * 256 ^ bs.length ≤ b.toNat * 256 ^ bs.length :=
            Nat.mul_le_mul_right _ hab
          linarith
        · exact Nat.add_lt_add_left hlt _
      · intro hlt
        rcases lt_trichotomy a.toNat b.toNat with hab | hab | hab
        · exact Or.inl hab
        · refine Or.inr ⟨UInt8.toNat_inj.mp hab, ?_⟩
          rw [hab] at hlt
          exact Nat.lt_of_add_lt_add_left hlt
        · have hmul : (b.toNat + 1) * 256 ^ bs.length ≤ a.toNat * 256 ^ bs.length :=
            Nat.mul_le_mul_right _ hab
          linarith

theorem beBytes_lt_iff {width m n : ℕ} (hm : m < 256 ^ width) (hn : n < 256 ^ width) :
    beBytes width m < beBytes width n ↔ m < n := by
  rw [lt_iff_ofBeBytes_lt (by rw [length_beBytes, length_beBytes]), ofBeBytes_beBytes, ofBeBytes_beBytes,
    Nat.mod_eq_of_lt hm, Nat.mod_eq_of_lt hn]

/-- Only the number modulo the range of the width is written. -/
theorem beBytes_eq_iff {width m n : ℕ} :
    beBytes width m = beBytes width n ↔ m % 256 ^ width = n % 256 ^ width := by
  have hlen : (beBytes width m).length = (beBytes width n).length := by rw [length_beBytes, length_beBytes]
  have hlt := lt_iff_ofBeBytes_lt hlen
  have hgt := lt_iff_ofBeBytes_lt hlen.symm
  rw [ofBeBytes_beBytes, ofBeBytes_beBytes] at hlt hgt
  constructor
  · intro h
    rw [← ofBeBytes_beBytes, ← ofBeBytes_beBytes, h]
  · intro h
    exact le_antisymm (not_lt.mp (fun hcon => by have := hgt.mp hcon; omega))
      (not_lt.mp (fun hcon => by have := hlt.mp hcon; omega))

end MicewriterEngine.Lib
