/-
# The order of bytes

Texts are compared character by character. Comparing the bytes of their encodings
comes to the same: of two characters the smaller one has the smaller encoding, and the
difference shows before either of them ends.
-/

import Mathlib.Data.String.Basic

namespace AgentKit.Text

/-- The bytes of the encoding of a text. -/
def bytesOf (text : String) : List UInt8 :=
  text.toUTF8.data.toList

theorem bytesOf_eq_flatMap (text : String) :
    bytesOf text = text.toList.flatMap String.utf8EncodeChar := by
  rw [bytesOf, String.toUTF8_eq_toByteArray]
  conv_lhs => rw [← String.ofList_toList (s := text)]
  rw [String.toByteArray_ofList, List.utf8Encode, List.data_toByteArray]

section Comparison

variable {first second : Nat} {firsts seconds : List UInt8}

theorem bytes_lt_of_lt (less : first < second) (byte : second < 256) :
    UInt8.ofNat first :: firsts < UInt8.ofNat second :: seconds := by
  refine List.cons_lt_cons_iff.mpr (.inl ?_)
  rw [UInt8.lt_iff_toNat_lt, UInt8.toNat_ofNat_of_lt' (less.trans byte),
    UInt8.toNat_ofNat_of_lt' byte]
  exact less

/-- The bytes after the first one decide where the first ones are the same. -/
theorem bytes_lt_of_le (le : first ≤ second) (byte : second < 256)
    (rest : first = second → firsts < seconds) :
    UInt8.ofNat first :: firsts < UInt8.ofNat second :: seconds := by
  rcases Nat.lt_or_eq_of_le le with less | same
  · exact bytes_lt_of_lt less byte
  · rw [same]
    exact List.cons_lt_cons_iff.mpr (.inr ⟨rfl, rest same⟩)

end Comparison

/-- The encodings of two characters differ before either of them ends, and the smaller
character has the smaller byte there. -/
theorem utf8EncodeChar_lt {first second : Char} (less : first < second) (after after' : List UInt8) :
    String.utf8EncodeChar first ++ after < String.utf8EncodeChar second ++ after' := by
  have values : first.val.toNat < second.val.toNat := less
  have bound : second.val.toNat < 0x110000 := by
    have := second.valid
    rcases this with small | ⟨_, large⟩
    · exact Nat.lt_trans small (by decide)
    · exact large
  unfold String.utf8EncodeChar
  generalize first.val.toNat = a at values ⊢
  generalize second.val.toNat = b at values bound ⊢
  simp only
  split
  · -- One byte stands before every other number of bytes.
    split
    · exact bytes_lt_of_lt values (by omega)
    · split
      · exact bytes_lt_of_lt (by omega) (by omega)
      · split <;> exact bytes_lt_of_lt (by omega) (by omega)
  · split
    · rw [if_neg (by omega)]
      split
      · exact bytes_lt_of_le (by omega) (by omega) fun _ => bytes_lt_of_lt (by omega) (by omega)
      · split <;> exact bytes_lt_of_lt (by omega) (by omega)
    · split
      · rw [if_neg (by omega), if_neg (by omega)]
        split
        · exact bytes_lt_of_le (by omega) (by omega) fun _ =>
            bytes_lt_of_le (by omega) (by omega) fun _ => bytes_lt_of_lt (by omega) (by omega)
        · exact bytes_lt_of_lt (by omega) (by omega)
      · rw [if_neg (by omega), if_neg (by omega), if_neg (by omega)]
        exact bytes_lt_of_le (by omega) (by omega) fun _ =>
          bytes_lt_of_le (by omega) (by omega) fun _ =>
            bytes_lt_of_le (by omega) (by omega) fun _ => bytes_lt_of_lt (by omega) (by omega)

theorem flatMap_utf8EncodeChar_lt {first second : List Char} (less : first < second) :
    first.flatMap String.utf8EncodeChar < second.flatMap String.utf8EncodeChar := by
  induction first generalizing second with
  | nil =>
      cases second with
      | nil => exact absurd less (List.not_lt_nil _)
      | cons d second =>
          obtain ⟨byte, others, encoded⟩ :=
            List.exists_cons_of_ne_nil (@String.utf8EncodeChar_ne_nil d)
          rw [List.flatMap_nil, List.flatMap_cons, encoded, List.cons_append]
          exact List.nil_lt_cons _ _
  | cons c first ih =>
      cases second with
      | nil => exact absurd less (List.not_lt_nil _)
      | cons d second =>
          rw [List.flatMap_cons, List.flatMap_cons]
          rcases List.cons_lt_cons_iff.mp less with smaller | ⟨rfl, rest⟩
          · exact utf8EncodeChar_lt smaller _ _
          · exact List.append_left_lt (ih rest)

/-- Texts are ordered as the bytes of their encodings are. -/
theorem bytesOf_lt_iff {first second : String} : bytesOf first < bytesOf second ↔ first < second := by
  have forward {first second : String} (less : first < second) :
      bytesOf first < bytesOf second := by
    rw [bytesOf_eq_flatMap, bytesOf_eq_flatMap]
    exact flatMap_utf8EncodeChar_lt less
  refine ⟨fun less => ?_, forward⟩
  rcases lt_trichotomy first second with smaller | same | larger
  · exact smaller
  · rw [same] at less
    exact absurd less (List.lt_irrefl _)
  · exact absurd (List.lt_trans less (forward larger)) (List.lt_irrefl _)

end AgentKit.Text
