import Mathlib.Data.Nat.Notation

/-!
# Strings by bytes

Strings are indexed by the bytes of their UTF-8 form. A slice is taken between two offsets
that are boundaries of characters, and does not exist elsewhere.
-/

namespace MicewriterEngine.Lib

def utf8Len : List Char → ℕ
  | [] => 0
  | c :: cs => c.utf8Size + utf8Len cs

lemma utf8Len_append (as bs : List Char) : utf8Len (as ++ bs) = utf8Len as + utf8Len bs := by
  induction as with
  | nil => exact (Nat.zero_add _).symm
  | cons a as ih => rw [List.cons_append, utf8Len, utf8Len, ih, Nat.add_assoc]

lemma utf8ByteSize_ofList (cs : List Char) : (String.ofList cs).utf8ByteSize = utf8Len cs := by
  induction cs with
  | nil => rfl
  | cons c cs ih =>
    have hcons : String.ofList (c :: cs) = String.singleton c ++ String.ofList cs := by
      rw [String.singleton_eq_ofList, ← String.ofList_append, List.singleton_append]
    rw [hcons, String.utf8ByteSize_append, String.utf8ByteSize_singleton, ih, utf8Len]

lemma utf8Len_toList (s : String) : utf8Len s.toList = s.utf8ByteSize := by
  rw [← utf8ByteSize_ofList, String.ofList_toList]

/-- The UTF-8 form. -/
def utf8Bytes (cs : List Char) : List UInt8 := cs.flatMap String.utf8EncodeChar

lemma length_utf8Bytes (cs : List Char) : (utf8Bytes cs).length = utf8Len cs := by
  induction cs with
  | nil => rfl
  | cons c cs ih =>
    have hcons : utf8Bytes (c :: cs) = String.utf8EncodeChar c ++ utf8Bytes cs := List.flatMap_cons
    rw [hcons, List.length_append, String.length_utf8EncodeChar, ih, utf8Len]

/-- The characters before and after a byte offset, when it is a boundary. -/
def splitAtByte : ℕ → List Char → Option (List Char × List Char)
  | 0, cs => some ([], cs)
  | _ + 1, [] => none
  | n + 1, c :: cs =>
    if c.utf8Size ≤ n + 1 then
      (splitAtByte (n + 1 - c.utf8Size) cs).map (fun (front, back) => (c :: front, back))
    else none

lemma splitAtByte_append (front back : List Char) :
    splitAtByte (utf8Len front) (front ++ back) = some (front, back) := by
  induction front with
  | nil => cases back <;> rfl
  | cons c front ih =>
    obtain ⟨n, hn⟩ : ∃ n, utf8Len (c :: front) = n + 1 :=
      Nat.exists_eq_succ_of_ne_zero (by have := c.utf8Size_pos; rw [utf8Len]; omega)
    have hrest : n + 1 - c.utf8Size = utf8Len front := by rw [← hn, utf8Len]; omega
    have hle : c.utf8Size ≤ n + 1 := by rw [← hn, utf8Len]; omega
    rw [hn, List.cons_append, splitAtByte, if_pos hle, hrest, ih, Option.map_some]

/-- The slice between two byte offsets, none where taking it would panic. -/
def sliceBytes (start stop : ℕ) (s : String) : Option String := do
  let (front, _) ← splitAtByte stop s.toList
  let (_, middle) ← splitAtByte start front
  return String.ofList middle

theorem sliceBytes_append (front middle back : String) :
    sliceBytes front.utf8ByteSize (front.utf8ByteSize + middle.utf8ByteSize) (front ++ middle ++ back) =
      some middle := by
  have hstop : front.utf8ByteSize + middle.utf8ByteSize = utf8Len (front.toList ++ middle.toList) := by
    rw [utf8Len_append, utf8Len_toList, utf8Len_toList]
  rw [sliceBytes, hstop, String.toList_append, String.toList_append, splitAtByte_append, ← utf8Len_toList front]
  simp only [Option.bind_eq_bind, Option.bind_some, splitAtByte_append, String.ofList_toList]
  rfl

end MicewriterEngine.Lib
