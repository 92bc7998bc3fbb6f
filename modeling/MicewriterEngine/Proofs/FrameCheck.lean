import MicewriterEngine.Proofs.LossyDecoding

/-!
# The frame check of ingestion

A frame is the length of the table name, the name and a record. The check compares names
after lossy decoding, so a name that holds U+FFFD stands for several byte strings.
-/

namespace MicewriterEngine.Proofs
open Lib

/-- The payload is the 2-byte length of the UTF-8 form of the name, that form and the suffix. -/
def IsFrame (table : String) (payload suffix : Bytes) : Prop :=
  ∃ header : Bytes, header.length = 2 ∧ ofBeBytes header = (utf8Bytes table.toList).length ∧
    payload = header ++ utf8Bytes table.toList ++ suffix

/-- The frames of the table pass the check, with their suffix, and nothing else does. -/
structure FrameCheckExact (table : String) : Prop where
  inBounds : ∀ payload, checkFrameIndexed table payload = some (checkFrame table payload)
  accepts : ∀ payload suffix, checkFrame table payload = .ok suffix ↔ IsFrame table payload suffix
  appended : ∀ payload suffix, IsFrame table payload suffix → ∀ (s : RocksStore) (writeOk : Bool),
    (ingestMessage s table payload writeOk).2.2 = (s.appendBatch [suffix] writeOk).2
  refused : ∀ payload, (∀ suffix, ¬IsFrame table payload suffix) → ∀ (s : RocksStore) (writeOk : Bool),
    (ingestMessage s table payload writeOk).1.ok = false ∧ (ingestMessage s table payload writeOk).2 = (false, s)

lemma byteRange_eq {bytes : Bytes} {start stop : ℕ} (hstart : start ≤ stop) (hstop : stop ≤ bytes.length) :
    byteRange bytes start stop = some ((bytes.drop start).take (stop - start)) :=
  if_pos ⟨hstart, hstop⟩

/-- No index and no slice of the check is out of bounds. -/
theorem checkFrameIndexed_eq (table : String) (payload : Bytes) :
    checkFrameIndexed table payload = some (checkFrame table payload) := by
  match payload with
  | [] | [b₀] => rfl
  | b₀ :: b₁ :: rest =>
    unfold checkFrameIndexed checkFrame
    have htwo : ¬(b₀ :: b₁ :: rest).length < 2 := by simp
    have htake : (b₀ :: b₁ :: rest).take 2 = [b₀, b₁] := rfl
    rw [if_neg htwo, if_neg htwo, htake]
    simp only [List.getElem?_cons_zero, List.getElem?_cons_succ, Option.bind_eq_bind, Option.bind_some]
    generalize ofBeBytes [b₀, b₁] = n
    by_cases hlen : (b₀ :: b₁ :: rest).length < 2 + n
    · rw [if_pos hlen, if_pos hlen]
      rfl
    · rw [if_neg hlen, if_neg hlen, byteRange_eq (Nat.le_add_right 2 n) (not_lt.mp hlen),
        byteRange_eq (not_lt.mp hlen) le_rfl, Nat.add_sub_cancel_left]
      simp only [Option.bind_some]
      rw [List.take_of_length_le (List.length_drop ..).le]
      split <;> rfl

theorem checkFrame_ok_iff (table : String) (payload suffix : Bytes) :
    checkFrame table payload = .ok suffix ↔ ∃ header name : Bytes, header.length = 2 ∧
      ofBeBytes header = name.length ∧ payload = header ++ name ++ suffix ∧ fromUtf8Lossy name = table := by
  constructor
  · intro h
    unfold checkFrame at h
    dsimp only at h
    split_ifs at h with hshort hend hname
    cases h
    have hname := not_not.mp hname
    refine ⟨payload.take 2, (payload.drop 2).take (ofBeBytes (payload.take 2)), ?_, ?_, ?_, hname⟩
    · rw [List.length_take]
      omega
    · rw [List.length_take, List.length_drop]
      omega
    · rw [List.append_assoc, ← List.drop_drop, List.take_append_drop, List.take_append_drop]
  · rintro ⟨header, name, hheader, hlength, rfl, hname⟩
    have htake : (header ++ name ++ suffix).take 2 = header := by
      rw [List.append_assoc, ← hheader, List.take_left]
    have hdrop : (header ++ name ++ suffix).drop 2 = name ++ suffix := by
      rw [List.append_assoc, ← hheader, List.drop_left]
    unfold checkFrame
    dsimp only
    rw [htake, hlength, ← List.drop_drop, hdrop, List.take_left, List.drop_left]
    have hlen : (header ++ name ++ suffix).length = 2 + name.length + suffix.length := by
      rw [List.length_append, List.length_append, hheader]
    rw [if_neg (by omega), if_neg (by omega), if_neg (not_not.mpr hname)]

lemma checkFrame_of_isFrame {table : String} {payload suffix : Bytes} (h : IsFrame table payload suffix) :
    checkFrame table payload = .ok suffix := by
  obtain ⟨header, hheader, hlength, hpayload⟩ := h
  refine (checkFrame_ok_iff table payload suffix).mpr ⟨header, _, hheader, hlength, hpayload, ?_⟩
  rw [fromUtf8Lossy, lossy_utf8Bytes, String.ofList_toList]

/-- What passes is a frame as soon as only the UTF-8 form of the name decodes to the name, among the
byte strings whose length two bytes can hold. -/
lemma isFrame_of_checkFrame {table : String} (hunique : ∀ name : Bytes, name.length < 2 ^ 16 →
    fromUtf8LossyAfter 0 name = table.toList → name = utf8Bytes table.toList) {payload suffix : Bytes}
    (h : checkFrame table payload = .ok suffix) : IsFrame table payload suffix := by
  obtain ⟨header, name, hheader, hlength, hpayload, hname⟩ := (checkFrame_ok_iff table payload suffix).mp h
  have hshort : name.length < 2 ^ 16 := by
    have hlt := ofBeBytes_lt header
    rw [hheader] at hlt
    omega
  have hlossy : fromUtf8LossyAfter 0 name = table.toList := by
    rw [← hname, fromUtf8Lossy, String.toList_ofList]
  rw [hunique name hshort hlossy] at hlength hpayload
  exact ⟨header, hheader, hlength, hpayload⟩

theorem frameCheckExact_of_accepts {table : String}
    (haccepts : ∀ payload suffix, checkFrame table payload = .ok suffix → IsFrame table payload suffix) :
    FrameCheckExact table where
  inBounds := checkFrameIndexed_eq table
  accepts payload suffix := ⟨haccepts payload suffix, checkFrame_of_isFrame⟩
  appended _ _ hframe := ingestMessage_of_ok (checkFrame_of_isFrame hframe)
  refused payload hnone s writeOk := by
    cases hcheck : checkFrame table payload with
    | ok suffix => exact absurd (haccepts payload suffix hcheck) (hnone suffix)
    | error message =>
      rw [ingestMessage_of_error hcheck]
      exact ⟨rfl, rfl⟩

/-- The check is exact when no byte string stands for a U+FFFD of the name, or when even the
shortest byte string that decodes to the name is too long for a payload. -/
theorem frame_check_exact_iff (table : String) : FrameCheckExact table ↔
    '\uFFFD' ∉ table.toList ∨ 2 ^ 16 + 2 * table.toList.count '\uFFFD' ≤ table.utf8ByteSize := by
  have hshortest := length_strayBytes table.toList
  rw [← utf8Len_toList]
  constructor
  · intro h
    by_contra hcon
    obtain ⟨hmem, hlt⟩ := not_or.mp hcon
    have hmem := not_not.mp hmem
    have hcount := List.count_pos_iff.mpr hmem
    have hheader : ofBeBytes (beBytes 2 (strayBytes table.toList).length) = (strayBytes table.toList).length := by
      rw [ofBeBytes_beBytes, Nat.mod_eq_of_lt (by omega)]
    have hpass : checkFrame table (beBytes 2 (strayBytes table.toList).length ++ strayBytes table.toList ++ []) =
        .ok [] := by
      refine (checkFrame_ok_iff ..).mpr ⟨_, _, length_beBytes 2 _, hheader, rfl, ?_⟩
      rw [fromUtf8Lossy, lossy_strayBytes, String.ofList_toList]
    obtain ⟨header, hlen, hvalue, hpayload⟩ := (h.accepts _ _).mp hpass
    have htotal := congrArg List.length hpayload
    simp only [List.length_append, length_beBytes, hlen, length_utf8Bytes] at htotal
    omega
  · intro h
    refine frameCheckExact_of_accepts (fun payload suffix => isFrame_of_checkFrame ?_)
    intro name hname hlossy
    rcases h with hfree | hlong
    · exact eq_utf8Bytes_of_lossy hlossy hfree
    · have hbound := utf8Len_le_of_lossy hlossy
      omega

/-- For the table whose name is U+FFFD, a payload passes that names it with one stray byte. -/
theorem stray_byte_passes : ¬∀ table : String, FrameCheckExact table := by
  intro h
  have hpass : checkFrame "\uFFFD" [0, 1, 0xFF] = .ok [] :=
    (checkFrame_ok_iff ..).mpr ⟨[0, 1], [0xFF], rfl, rfl, rfl, rfl⟩
  obtain ⟨header, hlen, -, hpayload⟩ := ((h "\uFFFD").accepts _ _).mp hpass
  have htotal := congrArg List.length hpayload
  have hname : (utf8Bytes "\uFFFD".toList).length = 3 := by decide
  rw [List.length_append, List.length_append, hlen, hname] at htotal
  have hthree : ([0, 1, 0xFF] : Bytes).length = 3 := rfl
  omega

end MicewriterEngine.Proofs
