import Mathlib.Data.List.Count
import MicewriterEngine.Lib.Utf8
import MicewriterEngine.Model.GrpcServer

/-!
# What lossy decoding keeps

A well-formed sequence decodes to its character, and everything else to U+FFFD. Hence a
text without U+FFFD has one preimage, its UTF-8 form, and every other text has more.
-/

namespace MicewriterEngine.Proofs
open Lib

/-- The first byte of a well-formed sequence, the bytes after it and the code of its character. -/
inductive Sequence : UInt8 → Bytes → ℕ → Prop
  | one {b₀ : UInt8} {n : ℕ} : b₀.toNat < 0x80 → n = b₀.toNat → Sequence b₀ [] n
  | two {b₀ b₁ : UInt8} {n : ℕ} : 0xC2 ≤ b₀.toNat → b₀.toNat ≤ 0xDF → isContinuation b₁ →
    n = (b₀.toNat - 0xC0) * 64 + (b₁.toNat - 0x80) → Sequence b₀ [b₁] n
  | three {b₀ b₁ b₂ : UInt8} {n : ℕ} : 0xE0 ≤ b₀.toNat → b₀.toNat ≤ 0xEF → isSecond b₀ b₁ → isContinuation b₂ →
    n = ((b₀.toNat - 0xE0) * 64 + (b₁.toNat - 0x80)) * 64 + (b₂.toNat - 0x80) → Sequence b₀ [b₁, b₂] n
  | four {b₀ b₁ b₂ b₃ : UInt8} {n : ℕ} : 0xF0 ≤ b₀.toNat → b₀.toNat ≤ 0xF4 → isSecond b₀ b₁ →
    isContinuation b₂ → isContinuation b₃ →
    n = (((b₀.toNat - 0xF0) * 64 + (b₁.toNat - 0x80)) * 64 + (b₂.toNat - 0x80)) * 64 + (b₃.toNat - 0x80) →
    Sequence b₀ [b₁, b₂, b₃] n

lemma isContinuation_iff (b : UInt8) : isContinuation b = true ↔ 0x80 ≤ b.toNat ∧ b.toNat ≤ 0xBF := by
  simp [isContinuation, UInt8.le_iff_toNat_le]

lemma isSecond_iff (first b : UInt8) : isSecond first b = true ↔
    0x80 ≤ b.toNat ∧ b.toNat ≤ 0xBF ∧ (first.toNat = 0xE0 → 0xA0 ≤ b.toNat) ∧
      (first.toNat = 0xED → b.toNat ≤ 0x9F) ∧ (first.toNat = 0xF0 → 0x90 ≤ b.toNat) ∧
      (first.toNat = 0xF4 → b.toNat ≤ 0x8F) := by
  unfold isSecond
  split_ifs with h1 h2 h3 h4
  · simp [h1, UInt8.le_iff_toNat_le]
    omega
  · simp [h2, UInt8.le_iff_toNat_le]
    omega
  · simp [h3, UInt8.le_iff_toNat_le]
    omega
  · simp [h4, UInt8.le_iff_toNat_le]
    omega
  · rw [← UInt8.toNat_inj] at h1 h2 h3 h4
    rw [isContinuation_iff]
    simp at h1 h2 h3 h4
    omega

lemma toNat_ofNat {n : ℕ} (h : n.isValidChar) : (Char.ofNat n).val.toNat = n := by
  rw [Char.ofNat, dif_pos h]
  rfl

lemma Sequence.encode {b : UInt8} {continuation : Bytes} {n : ℕ} (h : Sequence b continuation n) :
    String.utf8EncodeChar (Char.ofNat n) = b :: continuation := by
  cases h with
  | one hlt hn =>
    have hvalid : n.isValidChar := Or.inl (by omega)
    rw [String.utf8EncodeChar]
    simp only [toNat_ofNat hvalid]
    rw [if_pos (by omega), hn, UInt8.ofNat_toNat]
  | two hlow hhigh hb₁ hn =>
    rw [isContinuation_iff] at hb₁
    have hvalid : n.isValidChar := Or.inl (by omega)
    rw [String.utf8EncodeChar]
    simp only [toNat_ofNat hvalid]
    rw [if_neg (by omega), if_pos (by omega)]
    simp [← UInt8.toNat_inj]
    omega
  | three hlow hhigh hb₁ hb₂ hn =>
    rw [isContinuation_iff] at hb₂
    rw [isSecond_iff] at hb₁
    have hvalid : n.isValidChar := by unfold Nat.isValidChar; omega
    rw [String.utf8EncodeChar]
    simp only [toNat_ofNat hvalid]
    rw [if_neg (by omega), if_neg (by omega), if_pos (by omega)]
    simp [← UInt8.toNat_inj]
    omega
  | four hlow hhigh hb₁ hb₂ hb₃ hn =>
    rw [isContinuation_iff] at hb₂ hb₃
    rw [isSecond_iff] at hb₁
    have hvalid : n.isValidChar := by unfold Nat.isValidChar; omega
    rw [String.utf8EncodeChar]
    simp only [toNat_ofNat hvalid]
    rw [if_neg (by omega), if_neg (by omega), if_neg (by omega)]
    simp [← UInt8.toNat_inj]
    omega

lemma exists_byte {n : ℕ} (h : n < 256) : ∃ b : UInt8, b.toNat = n :=
  ⟨UInt8.ofNat n, by rw [UInt8.toNat_ofNat', Nat.mod_eq_of_lt h]⟩

lemma exists_sequence (c : Char) : ∃ b continuation, Sequence b continuation c.val.toNat := by
  have hvalid : c.val.toNat.isValidChar := c.valid
  generalize c.val.toNat = n at hvalid
  unfold Nat.isValidChar at hvalid
  rcases lt_or_ge n 0x80 with hone | hone
  · obtain ⟨b₀, h₀⟩ := exists_byte (n := n) (by omega)
    exact ⟨b₀, [], .one (by omega) h₀.symm⟩
  obtain ⟨last, hlast⟩ := exists_byte (n := n % 64 + 0x80) (by omega)
  have hclast : isContinuation last := (isContinuation_iff last).mpr (by omega)
  rcases lt_or_ge n 0x800 with htwo | htwo
  · obtain ⟨b₀, h₀⟩ := exists_byte (n := n / 64 + 0xC0) (by omega)
    exact ⟨b₀, [last], .two (by omega) (by omega) hclast (by omega)⟩
  rcases lt_or_ge n 0x10000 with hthree | hthree
  · obtain ⟨b₀, h₀⟩ := exists_byte (n := n / 4096 + 0xE0) (by omega)
    obtain ⟨b₁, h₁⟩ := exists_byte (n := n / 64 % 64 + 0x80) (by omega)
    have hsecond : isSecond b₀ b₁ := (isSecond_iff b₀ b₁).mpr (by omega)
    exact ⟨b₀, [b₁, last], .three (by omega) (by omega) hsecond hclast (by omega)⟩
  · obtain ⟨b₀, h₀⟩ := exists_byte (n := n / 262144 + 0xF0) (by omega)
    obtain ⟨b₁, h₁⟩ := exists_byte (n := n / 4096 % 64 + 0x80) (by omega)
    obtain ⟨b₂, h₂⟩ := exists_byte (n := n / 64 % 64 + 0x80) (by omega)
    have hsecond : isSecond b₀ b₁ := (isSecond_iff b₀ b₁).mpr (by omega)
    have hcontinuation : isContinuation b₂ := (isContinuation_iff b₂).mpr (by omega)
    exact ⟨b₀, [b₁, b₂, last], .four (by omega) (by omega) hsecond hcontinuation hclast (by omega)⟩

/-- The UTF-8 form of a character is the well-formed sequence with its code. -/
theorem exists_sequence_encode (c : Char) :
    ∃ b continuation, String.utf8EncodeChar c = b :: continuation ∧ Sequence b continuation c.toNat := by
  obtain ⟨b, continuation, hsequence⟩ := exists_sequence c
  have hencode := hsequence.encode
  rw [show Char.ofNat c.val.toNat = c from Char.ofNat_toNat c] at hencode
  exact ⟨b, continuation, hencode, hsequence⟩

lemma between_iff (low high b : UInt8) :
    (decide (low ≤ b) && decide (b ≤ high)) = true ↔ low.toNat ≤ b.toNat ∧ b.toNat ≤ high.toNat := by
  rw [Bool.and_eq_true, decide_eq_true_eq, decide_eq_true_eq, UInt8.le_iff_toNat_le, UInt8.le_iff_toNat_le]

theorem firstLossy_of_sequence {b : UInt8} {continuation : Bytes} {n : ℕ} (h : Sequence b continuation n)
    (rest : Bytes) : firstLossy b (continuation ++ rest) = (Char.ofNat n, continuation.length) := by
  have hlt : b < 0x80 ↔ b.toNat < 128 := UInt8.lt_iff_toNat_lt
  have htwo : (decide (0xC2 ≤ b) && decide (b ≤ 0xDF)) = true ↔ 194 ≤ b.toNat ∧ b.toNat ≤ 223 := between_iff ..
  have hthree : (decide (0xE0 ≤ b) && decide (b ≤ 0xEF)) = true ↔ 224 ≤ b.toNat ∧ b.toNat ≤ 239 := between_iff ..
  have hfour : (decide (0xF0 ≤ b) && decide (b ≤ 0xF4)) = true ↔ 240 ≤ b.toNat ∧ b.toNat ≤ 244 := between_iff ..
  unfold firstLossy
  cases h with
  | one hb hn =>
    rw [if_pos (hlt.mpr hb), hn]
    rfl
  | two hlow hhigh hb₁ hn =>
    rw [if_neg (mt hlt.mp (by omega)), if_pos (htwo.mpr ⟨hlow, hhigh⟩)]
    simp only [List.cons_append, hb₁, if_true, hn]
    rfl
  | three hlow hhigh hb₁ hb₂ hn =>
    rw [if_neg (mt hlt.mp (by omega)), if_neg (mt htwo.mp (by omega)), if_pos (hthree.mpr ⟨hlow, hhigh⟩)]
    simp only [List.cons_append, hb₁, hb₂, Bool.not_true, Bool.false_eq_true, if_false, hn]
    rfl
  | four hlow hhigh hb₁ hb₂ hb₃ hn =>
    rw [if_neg (mt hlt.mp (by omega)), if_neg (mt htwo.mp (by omega)), if_neg (mt hthree.mp (by omega)),
      if_pos (hfour.mpr ⟨hlow, hhigh⟩)]
    simp only [List.cons_append, hb₁, hb₂, hb₃, Bool.not_true, Bool.false_eq_true, if_false, hn]
    rfl

/-- Whatever is not well formed gives U+FFFD. -/
theorem firstLossy_cases (b : UInt8) (bytes : Bytes) :
    (∃ n, firstLossy b bytes = ('\uFFFD', n)) ∨ ∃ continuation rest n, bytes = continuation ++ rest ∧
      Sequence b continuation n ∧ firstLossy b bytes = (Char.ofNat n, continuation.length) := by
  unfold firstLossy
  by_cases hone : b < 0x80
  · rw [if_pos hone]
    exact .inr ⟨[], bytes, _, rfl, .one (UInt8.lt_iff_toNat_lt.mp hone) rfl, rfl⟩
  rw [if_neg hone]
  by_cases htwo : (decide (0xC2 ≤ b) && decide (b ≤ 0xDF)) = true
  · have hrange := (between_iff _ _ _).mp htwo
    rw [if_pos htwo]
    match bytes with
    | [] => exact .inl ⟨0, rfl⟩
    | b₁ :: rest =>
      dsimp only
      cases hb₁ : isContinuation b₁ with
      | true => exact .inr ⟨[b₁], rest, _, rfl, .two hrange.1 hrange.2 hb₁ rfl, rfl⟩
      | false => exact .inl ⟨0, rfl⟩
  rw [if_neg htwo]
  by_cases hthree : (decide (0xE0 ≤ b) && decide (b ≤ 0xEF)) = true
  · have hrange := (between_iff _ _ _).mp hthree
    rw [if_pos hthree]
    match bytes with
    | [] => exact .inl ⟨0, rfl⟩
    | [b₁] => exact .inl ⟨_, rfl⟩
    | b₁ :: b₂ :: rest =>
      dsimp only
      cases hb₁ : isSecond b b₁ with
      | false => exact .inl ⟨0, rfl⟩
      | true =>
        cases hb₂ : isContinuation b₂ with
        | false => exact .inl ⟨1, rfl⟩
        | true => exact .inr ⟨[b₁, b₂], rest, _, rfl, .three hrange.1 hrange.2 hb₁ hb₂ rfl, rfl⟩
  rw [if_neg hthree]
  by_cases hfour : (decide (0xF0 ≤ b) && decide (b ≤ 0xF4)) = true
  · have hrange := (between_iff _ _ _).mp hfour
    rw [if_pos hfour]
    match bytes with
    | [] => exact .inl ⟨0, rfl⟩
    | [b₁] => exact .inl ⟨_, rfl⟩
    | [b₁, b₂] => exact .inl ⟨_, rfl⟩
    | b₁ :: b₂ :: b₃ :: rest =>
      dsimp only
      cases hb₁ : isSecond b b₁ with
      | false => exact .inl ⟨0, rfl⟩
      | true =>
        cases hb₂ : isContinuation b₂ with
        | false => exact .inl ⟨1, rfl⟩
        | true =>
          cases hb₃ : isContinuation b₃ with
          | false => exact .inl ⟨2, rfl⟩
          | true => exact .inr ⟨[b₁, b₂, b₃], rest, _, rfl, .four hrange.1 hrange.2 hb₁ hb₂ hb₃ rfl, rfl⟩
  · rw [if_neg hfour]
    exact .inl ⟨0, rfl⟩

lemma lossyAfter_drop (skip : ℕ) (bytes : Bytes) :
    fromUtf8LossyAfter skip bytes = fromUtf8LossyAfter 0 (bytes.drop skip) := by
  induction bytes generalizing skip with
  | nil => rw [List.drop_nil]; cases skip <;> rfl
  | cons b bytes ih =>
    cases skip with
    | zero => rfl
    | succ skip => exact ih skip

lemma lossy_cons (b : UInt8) (bytes : Bytes) : fromUtf8LossyAfter 0 (b :: bytes) =
    (firstLossy b bytes).1 :: fromUtf8LossyAfter 0 (bytes.drop (firstLossy b bytes).2) := by
  rw [fromUtf8LossyAfter, lossyAfter_drop]

lemma lossy_encode_append (c : Char) (rest : Bytes) :
    fromUtf8LossyAfter 0 (String.utf8EncodeChar c ++ rest) = c :: fromUtf8LossyAfter 0 rest := by
  obtain ⟨b, continuation, hencode, hsequence⟩ := exists_sequence_encode c
  rw [hencode, List.cons_append, lossy_cons, firstLossy_of_sequence hsequence, Char.ofNat_toNat, List.drop_left]

/-- A byte that no sequence holds. -/
lemma lossy_ff (rest : Bytes) : fromUtf8LossyAfter 0 (0xFF :: rest) = '\uFFFD' :: fromUtf8LossyAfter 0 rest := rfl

theorem lossy_utf8Bytes (cs : List Char) : fromUtf8LossyAfter 0 (utf8Bytes cs) = cs := by
  induction cs with
  | nil => rfl
  | cons c cs ih =>
    have hcons : utf8Bytes (c :: cs) = String.utf8EncodeChar c ++ utf8Bytes cs := List.flatMap_cons
    rw [hcons, lossy_encode_append, ih]

/-- What a byte string that decodes to a nonempty text starts with. -/
lemma lossy_eq_cons {bytes : Bytes} {c : Char} {cs : List Char} (h : fromUtf8LossyAfter 0 bytes = c :: cs) :
    ∃ taken rest, bytes = taken ++ rest ∧ fromUtf8LossyAfter 0 rest = cs ∧
      (taken = String.utf8EncodeChar c ∨ c = '\uFFFD' ∧ taken ≠ []) := by
  match bytes with
  | [] => cases h
  | b :: bytes =>
    rw [lossy_cons] at h
    rcases firstLossy_cases b bytes with ⟨n, hfirst⟩ | ⟨continuation, rest, n, rfl, hsequence, hfirst⟩
    · rw [hfirst] at h
      obtain ⟨hc, hcs⟩ := List.cons.inj h
      refine ⟨b :: bytes.take n, bytes.drop n, ?_, hcs, Or.inr ⟨hc.symm, List.cons_ne_nil _ _⟩⟩
      rw [List.cons_append, List.take_append_drop]
    · rw [hfirst, List.drop_left] at h
      obtain ⟨hc, hcs⟩ := List.cons.inj h
      refine ⟨b :: continuation, rest, (List.cons_append ..).symm, hcs, Or.inl ?_⟩
      rw [← hc, hsequence.encode]

lemma lossy_eq_nil {bytes : Bytes} (h : fromUtf8LossyAfter 0 bytes = []) : bytes = [] := by
  match bytes with
  | [] => rfl
  | b :: bytes => cases h

/-- A text without U+FFFD comes from its UTF-8 form only. -/
theorem eq_utf8Bytes_of_lossy {bytes : Bytes} {cs : List Char} (h : fromUtf8LossyAfter 0 bytes = cs)
    (hcs : '\uFFFD' ∉ cs) : bytes = utf8Bytes cs := by
  induction cs generalizing bytes with
  | nil => exact lossy_eq_nil h
  | cons c cs ih =>
    obtain ⟨hc, hcs⟩ := not_or.mp (mt List.mem_cons.mpr hcs)
    obtain ⟨taken, rest, rfl, hrest, htaken | ⟨hreplaced, -⟩⟩ := lossy_eq_cons h
    · rw [htaken, ih hrest hcs]
      exact List.flatMap_cons.symm
    · exact absurd hreplaced.symm hc

/-- How short a byte string can be that decodes to a text. -/
theorem utf8Len_le_of_lossy {bytes : Bytes} {cs : List Char} (h : fromUtf8LossyAfter 0 bytes = cs) :
    utf8Len cs ≤ bytes.length + 2 * cs.count '\uFFFD' := by
  induction cs generalizing bytes with
  | nil => exact Nat.zero_le _
  | cons c cs ih =>
    obtain ⟨taken, rest, rfl, hrest, htaken⟩ := lossy_eq_cons h
    have htail := ih hrest
    rw [utf8Len, List.length_append, List.count_cons]
    rcases htaken with rfl | ⟨rfl, hne⟩
    · rw [String.length_utf8EncodeChar]
      omega
    · have hpos := List.length_pos_iff.mpr hne
      have hsize : Char.utf8Size '\uFFFD' = 3 := by decide
      rw [hsize, if_pos (beq_self_eq_true _)]
      omega

/-- The shortest byte string that decodes to a text: each U+FFFD from one stray byte. -/
def strayBytes (cs : List Char) : Bytes :=
  cs.flatMap (fun c => if c = '\uFFFD' then [0xFF] else String.utf8EncodeChar c)

theorem lossy_strayBytes (cs : List Char) : fromUtf8LossyAfter 0 (strayBytes cs) = cs := by
  induction cs with
  | nil => rfl
  | cons c cs ih =>
    rw [strayBytes, List.flatMap_cons, ← strayBytes]
    split
    · rename_i hc
      rw [List.singleton_append, lossy_ff, ih, hc]
    · rw [lossy_encode_append, ih]

theorem length_strayBytes (cs : List Char) : (strayBytes cs).length + 2 * cs.count '\uFFFD' = utf8Len cs := by
  induction cs with
  | nil => rfl
  | cons c cs ih =>
    rw [strayBytes, List.flatMap_cons, ← strayBytes, List.length_append, List.count_cons, utf8Len]
    split
    · rename_i hc
      have hsize : c.utf8Size = 3 := by rw [hc]; decide
      rw [hsize, if_pos (by simp [hc]), List.length_singleton]
      omega
    · rename_i hc
      rw [String.length_utf8EncodeChar, if_neg (by simp [hc])]
      omega

end MicewriterEngine.Proofs
