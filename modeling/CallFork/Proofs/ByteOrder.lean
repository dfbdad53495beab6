import Mathlib.Data.String.Basic
import Mathlib.Tactic.SplitIfs

/-! # Texts in byte order

Texts are compared character by character, and readers of a dump compare them byte by byte. The two
orders agree: UTF-8 encodes characters in ascending order by bytes in ascending order, so a text
that comes first among texts comes first among their bytes.
-/

namespace CallFork

/-- The bytes of a text. -/
def utf8 (text : String) : List UInt8 := text.toUTF8.data.toList

theorem utf8_eq (text : String) : utf8 text = text.toList.flatMap String.utf8EncodeChar := by
  unfold utf8 String.toUTF8
  rw [← String.utf8Encode_toList, List.utf8Encode, List.data_toByteArray]

/-- Numbers in ascending order have their digits in base 64 in ascending order. -/
theorem digits_lt {low high : Nat} (less : low < high) :
    low / 262144 < high / 262144 ∨ low / 262144 = high / 262144 ∧
      (low / 4096 % 64 < high / 4096 % 64 ∨ low / 4096 % 64 = high / 4096 % 64 ∧
        (low / 64 % 64 < high / 64 % 64 ∨ low / 64 % 64 = high / 64 % 64 ∧
          low % 64 < high % 64)) := by
  by_cases first : low / 262144 = high / 262144
  · by_cases second : low / 4096 = high / 4096
    · by_cases third : low / 64 = high / 64
      · omega
      · omega
    · omega
  · left
    omega

/-- The bytes of two characters tell which one comes first, whatever follows them. -/
theorem utf8EncodeChar_lt {first second : Char} (less : first < second) (xs ys : List UInt8) :
    String.utf8EncodeChar first ++ xs < String.utf8EncodeChar second ++ ys := by
  have ordered : first.val.toNat < second.val.toNat := less
  have small : second.val.toNat < 1114112 := by
    rcases second.valid with below | ⟨_, above⟩
    · exact Nat.lt_trans below (by decide)
    · exact above
  unfold String.utf8EncodeChar
  generalize first.val.toNat = low at ordered
  generalize second.val.toNat = high at ordered small
  have digits := digits_lt ordered
  have byte : ∀ digit, (digit % 64 + 128) % 2 ^ 8 = digit % 64 + 128 := by omega
  have lead : ∀ number, number < 1114112 →
      (number / 262144 % 8 + 240) % 2 ^ 8 = number / 262144 + 240 := by omega
  dsimp only
  -- a shorter encoding begins with a lower byte, and in encodings of one length the digits decide
  split_ifs <;>
    simp only [List.cons_append, List.nil_append, List.cons_lt_cons_iff, UInt8.lt_iff_toNat_lt,
      ← UInt8.toNat_inj, UInt8.toNat_ofNat', byte, lead low (ordered.trans small),
      lead high small] <;>
    omega

theorem flatMap_utf8EncodeChar_lt : ∀ {first second : List Char}, first < second →
    first.flatMap String.utf8EncodeChar < second.flatMap String.utf8EncodeChar
  | [], [], less => absurd less (List.lt_irrefl [])
  | [], c :: rest, _ => by
    obtain ⟨byte, bytes, encoded⟩ :=
      List.exists_cons_of_ne_nil (String.utf8EncodeChar_ne_nil : String.utf8EncodeChar c ≠ [])
    rw [List.flatMap_nil, List.flatMap_cons, encoded]
    exact List.nil_lt_cons _ _
  | _ :: _, [], less => by cases less
  | _ :: _, _ :: _, less => by
    rw [List.flatMap_cons, List.flatMap_cons]
    rcases List.cons_lt_cons_iff.1 less with first | ⟨rfl, later⟩
    · exact utf8EncodeChar_lt first _ _
    · exact List.append_left_lt (flatMap_utf8EncodeChar_lt later)

/-- Texts in ascending order are in ascending order byte by byte. -/
theorem utf8_lt {first second : String} (less : first < second) : utf8 first < utf8 second := by
  rw [utf8_eq, utf8_eq]
  exact flatMap_utf8EncodeChar_lt (String.lt_iff_toList_lt.1 less)

end CallFork
