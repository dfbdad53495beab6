import CallFork.Proofs.Cutting
import Mathlib.Data.String.Basic

/-! # Escapes are undone

A component that was written with escapes is found again in front of any character that it cannot
hold (`spanEscaped_encode`), and is decoded to what was written (`decode_encode`). Both hold for any
set of plain characters without `%` that the reader knows (`Plain`); reading goes byte by byte, as
writing does.
-/

namespace CallFork.Percent

open Numeral (hexDigit? isHexDigit)

variable {plain allowed : Char → Bool} {text : String} {rest component : List Char}

/-! ## Single bytes -/

theorem hexDigit?_upperHexDigit {n : Nat} (small : n < 16) :
    hexDigit? (upperHexDigit n) = some n := by
  have digits : ∀ digit : Fin 16, hexDigit? (upperHexDigit digit) = some digit.val := by decide
  exact digits ⟨n, small⟩

/-- A byte is written as the plain character that it encodes, or as its two hexadecimal digits. -/
theorem encodeByte_cases (plain : Char → Bool) (byte : UInt8) :
    (∃ c, encodeByte plain byte = [c] ∧ plain c = true ∧ String.utf8EncodeChar c = [byte]) ∨
      ∃ high low, high < 16 ∧ low < 16 ∧ UInt8.ofNat (16 * high + low) = byte ∧
        encodeByte plain byte = ['%', upperHexDigit high, upperHexDigit low] := by
  unfold encodeByte
  have bounded : byte.toNat < 256 := byte.toNat_lt
  by_cases kept : byte.toNat < 128 ∧ plain (Char.ofNat byte.toNat) = true
  · left
    refine ⟨Char.ofNat byte.toNat, by simp [kept], kept.2, ?_⟩
    have ascii : ∀ number : Fin 128, String.utf8EncodeChar (Char.ofNat number)
        = [UInt8.ofNat number] := by decide
    rw [ascii ⟨byte.toNat, kept.1⟩, UInt8.ofNat_toNat]
  · right
    refine ⟨byte.toNat / 16, byte.toNat % 16, by omega, by omega, ?_, by simpa using kept⟩
    rw [Nat.div_add_mod, UInt8.ofNat_toNat]

theorem decodeBytes_escape {high low : Nat} (highSmall : high < 16) (lowSmall : low < 16)
    (rest : List Char) :
    decodeBytes ('%' :: upperHexDigit high :: upperHexDigit low :: rest)
      = (decodeBytes rest).map (UInt8.ofNat (16 * high + low) :: ·) := by
  rw [decodeBytes, hexDigit?_upperHexDigit highSmall, hexDigit?_upperHexDigit lowSmall]
  cases decodeBytes rest <;> rfl

theorem decodeBytes_cons {c : Char} (unmarked : c ≠ '%') (rest : List Char) :
    decodeBytes (c :: rest) = (decodeBytes rest).map (String.utf8EncodeChar c ++ ·) := by
  rw [decodeBytes, if_neg unmarked]
  intro _ _ _ same
  exact absurd same unmarked

theorem spanEscaped_escape {high low : Nat} (highSmall : high < 16) (lowSmall : low < 16)
    (rest : List Char) :
    spanEscaped allowed ('%' :: upperHexDigit high :: upperHexDigit low :: rest)
      = ('%' :: upperHexDigit high :: upperHexDigit low :: (spanEscaped allowed rest).1,
          (spanEscaped allowed rest).2) := by
  rw [spanEscaped, hexDigit?_upperHexDigit highSmall, hexDigit?_upperHexDigit lowSmall]
  rfl

theorem spanEscaped_cons {c : Char} (unmarked : c ≠ '%') (rest : List Char) :
    spanEscaped allowed (c :: rest)
      = if allowed c then (c :: (spanEscaped allowed rest).1, (spanEscaped allowed rest).2)
        else ([], c :: rest) := by
  rw [spanEscaped]
  · simp [unmarked]
  · intro _ _ _ same
    exact absurd same unmarked

theorem spanEscaped_mark {text : List Char}
    (broken : ∀ high low after, text = high :: low :: after →
      isHexDigit high = false ∨ isHexDigit low = false) :
    spanEscaped allowed ('%' :: text) = ([], '%' :: text) := by
  match text with
  | [] => simp [spanEscaped]
  | [_] => simp [spanEscaped]
  | high :: low :: after =>
    have noEscape : ((hexDigit? high).isSome && (hexDigit? low).isSome) = false :=
      Bool.and_eq_false_iff.2 (broken high low after rfl)
    rw [spanEscaped, noEscape]
    rfl

/-! ## Components -/

/-- No component goes on in this text, nor an escape. -/
structure Ends (allowed : Char → Bool) (rest : List Char) : Prop where
  refused : Stops allowed rest
  unmarked : Stops (· == '%') rest
  noDigit : Stops isHexDigit rest

theorem spanEscaped_of_ends (ends : Ends allowed rest) : spanEscaped allowed rest = ([], rest) := by
  cases rest with
  | nil => rfl
  | cons c rest =>
    have unmarked : c ≠ '%' := by simpa using ends.unmarked c rfl
    simp [spanEscaped_cons unmarked, ends.refused c rfl]

/-- A component ends where it would have ended if what follows does not go on with it. -/
theorem spanEscaped_append (ends : Ends allowed rest) : ∀ text : List Char,
    spanEscaped allowed (text ++ rest)
      = ((spanEscaped allowed text).1, (spanEscaped allowed text).2 ++ rest)
  | [] => spanEscaped_of_ends ends
  | c :: text => by
    by_cases mark : c = '%'
    · subst mark
      by_cases escape : ∃ high low after, text = high :: low :: after ∧
          isHexDigit high = true ∧ isHexDigit low = true
      · obtain ⟨high, low, after, rfl, highDigit, lowDigit⟩ := escape
        have digits : ((hexDigit? high).isSome && (hexDigit? low).isSome) = true :=
          Bool.and_eq_true_iff.2 ⟨highDigit, lowDigit⟩
        simp only [List.cons_append, spanEscaped, digits, if_true, spanEscaped_append ends after]
      · -- the mark begins no escape, and no digit of one can come from `rest`
        have broken : ∀ high low after, text ++ rest = high :: low :: after →
            isHexDigit high = false ∨ isHexDigit low = false := by
          intro high low after whole
          match text with
          | [] =>
            have begins : rest = high :: low :: after := whole
            exact .inl (ends.noDigit high (by rw [begins]; rfl))
          | [_] =>
            obtain ⟨_, begins⟩ := List.cons.inj whole
            have begins : rest = low :: after := begins
            exact .inr (ends.noDigit low (by rw [begins]; rfl))
          | first :: second :: after' =>
            obtain ⟨rfl, more⟩ := List.cons.inj whole
            obtain ⟨rfl, _⟩ := List.cons.inj more
            by_contra both
            simp only [not_or, Bool.not_eq_false] at both
            exact escape ⟨_, _, after', rfl, both⟩
        have alone : ∀ high low after, text = high :: low :: after →
            isHexDigit high = false ∨ isHexDigit low = false := by
          rintro high low after rfl
          exact broken high low (after ++ rest) rfl
        rw [List.cons_append, spanEscaped_mark broken, spanEscaped_mark alone]
        rfl
    · rw [List.cons_append, spanEscaped_cons mark, spanEscaped_cons mark,
        spanEscaped_append ends text]
      split <;> rfl
termination_by text => text.length

/-- Characters that are written without an escape can be read without one. -/
structure Plain (plain allowed : Char → Bool) : Prop where
  allowed : ∀ c, plain c = true → allowed c = true
  unmarked : plain '%' = false

theorem Plain.ne_mark (kept : Plain plain allowed) {c : Char} (isPlain : plain c = true) :
    c ≠ '%' := by
  rintro rfl
  rw [kept.unmarked] at isPlain
  cases isPlain

theorem Plain.trans {more : Char → Bool} (kept : Plain plain allowed)
    (weaker : ∀ c, allowed c = true → more c = true) : Plain plain more :=
  ⟨fun c isPlain => weaker c (kept.allowed c isPlain), kept.unmarked⟩

theorem decodeBytes_encodeByte (kept : Plain plain allowed) (byte : UInt8) (rest : List Char) :
    decodeBytes (encodeByte plain byte ++ rest) = (decodeBytes rest).map (byte :: ·) := by
  rcases encodeByte_cases plain byte with
    ⟨c, written, isPlain, encoded⟩ | ⟨high, low, highSmall, lowSmall, whole, written⟩
  · simp only [written, List.singleton_append, decodeBytes_cons (kept.ne_mark isPlain), encoded]
  · simp only [written, List.cons_append, List.nil_append, decodeBytes_escape highSmall lowSmall,
      whole]

theorem spanEscaped_encodeByte (kept : Plain plain allowed) (byte : UInt8) (rest : List Char) :
    spanEscaped allowed (encodeByte plain byte ++ rest)
      = (encodeByte plain byte ++ (spanEscaped allowed rest).1, (spanEscaped allowed rest).2) := by
  rcases encodeByte_cases plain byte with
    ⟨c, written, isPlain, _⟩ | ⟨high, low, highSmall, lowSmall, _, written⟩
  · simp only [written, List.singleton_append, spanEscaped_cons (kept.ne_mark isPlain),
      kept.allowed c isPlain, if_true]
  · simp only [written, List.cons_append, List.nil_append, spanEscaped_escape highSmall lowSmall]

theorem decodeBytes_encodeBytes (kept : Plain plain allowed) (bytes : List UInt8) :
    decodeBytes (bytes.flatMap (encodeByte plain)) = some bytes := by
  induction bytes with
  | nil => rfl
  | cons byte bytes inductionHypothesis =>
    rw [List.flatMap_cons, decodeBytes_encodeByte kept, inductionHypothesis]
    rfl

theorem fromUTF8?_toByteArray (text : String) : String.fromUTF8? text.toByteArray = some text := by
  rw [String.fromUTF8?, dif_pos text.isValidUTF8]
  rfl

theorem decodeBytes_of_unmarked {characters : List Char} (unmarked : '%' ∉ characters) :
    decodeBytes characters = some (characters.flatMap String.utf8EncodeChar) := by
  induction characters with
  | nil => rfl
  | cons c characters inductionHypothesis =>
    rw [List.mem_cons, not_or] at unmarked
    rw [decodeBytes_cons (Ne.symm unmarked.1), inductionHypothesis unmarked.2]
    rfl

/-- A text without escapes stands for itself. -/
theorem decode_of_unmarked (unmarked : '%' ∉ text.toList) : decode text.toList = some text := by
  have bytes : (⟨(text.toList.flatMap String.utf8EncodeChar).toArray⟩ : ByteArray)
      = text.toByteArray := by
    rw [← String.utf8Encode_toList, List.utf8Encode]
    apply ByteArray.ext
    simp [List.data_toByteArray]
  rw [decode, decodeBytes_of_unmarked unmarked]
  change String.fromUTF8? ⟨(text.toList.flatMap String.utf8EncodeChar).toArray⟩ = some text
  rw [bytes, fromUTF8?_toByteArray]

/-- What was written with escapes is decoded to what was written. -/
theorem decode_encode (kept : Plain plain allowed) (text : String) :
    decode (encode plain text) = some text := by
  unfold decode encode
  rw [decodeBytes_encodeBytes kept]
  exact fromUTF8?_toByteArray text

theorem decodeBytes_ne_nil {bytes : List UInt8} (decoded : decodeBytes component = some bytes)
    (filled : component ≠ []) : bytes ≠ [] := by
  unfold decodeBytes at decoded
  split at decoded
  · exact absurd rfl filled
  · simp only [Option.bind_eq_bind, Option.bind_eq_some_iff] at decoded
    obtain ⟨_, _, _, _, _, _, same⟩ := decoded
    cases same
    exact List.cons_ne_nil _ _
  · split at decoded
    · cases decoded
    · obtain ⟨more, _, rfl⟩ := Option.map_eq_some_iff.1 decoded
      exact List.append_ne_nil_of_left_ne_nil String.utf8EncodeChar_ne_nil more

/-- Nothing but an empty text stands for an empty component. -/
theorem decode_ne_empty (decoded : decode component = some text) (filled : component ≠ []) :
    text ≠ "" := by
  obtain ⟨bytes, read, made⟩ := Option.bind_eq_some_iff.1 decoded
  unfold String.fromUTF8? at made
  split at made
  · cases made
    intro nothing
    have same : (⟨bytes.toArray⟩ : ByteArray) = "".toByteArray :=
      congrArg String.toByteArray nothing
    have sameBytes := congrArg (fun array : ByteArray => array.data.toList) same
    exact decodeBytes_ne_nil read filled (by simpa using sameBytes)
  · cases made

theorem spanEscaped_of_plain {characters : List Char} (unmarked : '%' ∉ characters)
    (plain : ∀ c ∈ characters, allowed c = true) :
    spanEscaped allowed characters = (characters, []) := by
  induction characters with
  | nil => rfl
  | cons c characters inductionHypothesis =>
    rw [List.mem_cons, not_or] at unmarked
    rw [List.forall_mem_cons] at plain
    rw [spanEscaped_cons (Ne.symm unmarked.1), plain.1, inductionHypothesis unmarked.2 plain.2]
    rfl

/-- What was written with escapes is taken whole, and nothing behind it. -/
theorem spanEscaped_encode (kept : Plain plain allowed) (ends : Ends allowed rest) :
    spanEscaped allowed (encode plain text ++ rest) = (encode plain text, rest) := by
  unfold encode
  induction text.toByteArray.data.toList with
  | nil => exact spanEscaped_of_ends ends
  | cons byte bytes inductionHypothesis =>
    rw [List.flatMap_cons, List.append_assoc, spanEscaped_encodeByte kept, inductionHypothesis]

theorem encode_eq_nil_iff : encode plain text = [] ↔ text = "" := by
  constructor
  · intro nothing
    have bytes : text.toByteArray.data.toList = [] := by
      by_contra some
      obtain ⟨byte, bytes, listed⟩ := List.exists_cons_of_ne_nil some
      rw [encode, listed, List.flatMap_cons, List.append_eq_nil_iff] at nothing
      rcases encodeByte_cases plain byte with ⟨c, written, _⟩ | ⟨_, _, _, _, _, written⟩ <;>
        simp [written] at nothing
    rw [← String.toByteArray_inj]
    exact ByteArray.ext (Array.toList_inj.1 bytes)
  · rintro rfl
    rfl

/-- No character is written but the plain ones, the mark and the digits of escapes. -/
theorem mem_encode {c : Char} (member : c ∈ encode plain text) :
    plain c = true ∨ c = '%' ∨ isHexDigit c = true := by
  obtain ⟨byte, _, member⟩ := List.mem_flatMap.1 member
  rcases encodeByte_cases plain byte with
    ⟨d, written, isPlain, _⟩ | ⟨high, low, highSmall, lowSmall, _, written⟩
  · rw [written, List.mem_singleton] at member
    exact .inl (member ▸ isPlain)
  · simp only [written, List.mem_cons, List.not_mem_nil, or_false] at member
    rcases member with rfl | rfl | rfl
    · exact .inr (.inl rfl)
    · exact .inr (.inr (by simp [isHexDigit, hexDigit?_upperHexDigit highSmall]))
    · exact .inr (.inr (by simp [isHexDigit, hexDigit?_upperHexDigit lowSmall]))

end CallFork.Percent
