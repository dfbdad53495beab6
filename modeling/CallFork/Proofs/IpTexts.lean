import CallFork.Sip.IpAddress
import Mathlib.Algebra.Group.Nat.Defs
import Mathlib.Data.List.Basic
import Mathlib.Data.List.TakeWhile

/-! # Numbers and IP addresses are read back

A number is read back from its shortest digits, in base 10 and in base 16, and an IP address from
its canonical text (`IpAddress.read_text`). For IPv6 this rests on two facts: the run that is left
out at `::` is a run of zeros (`longestZeroRun_spec`), and the `::` that is read is the one that was
written, because groups are not empty (`cutAtGap_intercalate`).
-/

namespace CallFork

/-! ## Numerals -/

namespace Numeral

theorem isDigit_of_mem_decimal {n : Nat} {c : Char} (member : c ∈ decimal n) : c.isDigit = true :=
  Nat.isDigit_of_mem_toDigits (by decide) (by decide) member

theorem decimal_ne_nil (n : Nat) : decimal n ≠ [] :=
  Nat.toDigits_ne_nil

@[simp] theorem decimal?_decimal (n : Nat) : decimal? (decimal n) = some n := by
  have digits : (decimal n).all Char.isDigit = true :=
    List.all_eq_true.2 fun _ member => isDigit_of_mem_decimal member
  have some : (decimal n).isEmpty = false := by simpa using decimal_ne_nil n
  rw [decimal?, digits, some, decimal, Nat.ofDigitChars_ten_toDigits]
  rfl

theorem isDigit_of_decimal? {text : List Char} {n : Nat} (read : decimal? text = some n) :
    ∀ c ∈ text, c.isDigit = true := by
  unfold decimal? at read
  split at read
  · rename_i digits
    simpa using (Bool.and_eq_true_iff.1 digits).2
  · cases read

theorem decimal_length_le {n k : Nat} (positive : 0 < k) (small : n < 10 ^ k) :
    (decimal n).length ≤ k :=
  (Nat.length_toDigits_le_iff (by decide) positive).2 small

theorem hexDigit?_digitChar {n : Nat} (small : n < 16) : hexDigit? (Nat.digitChar n) = some n := by
  have digits : ∀ digit : Fin 16, hexDigit? (Nat.digitChar digit) = some digit.val := by decide
  exact digits ⟨n, small⟩

theorem hexFrom_append (high : Nat) (text rest : List Char) :
    hexFrom high (text ++ rest) = (hexFrom high text).bind (hexFrom · rest) := by
  induction text generalizing high with
  | nil => rfl
  | cons c text inductionHypothesis =>
    simp only [List.cons_append, hexFrom, inductionHypothesis, Option.bind_assoc]

theorem hexFrom_hex (n : Nat) : hexFrom 0 (hex n) = some n := by
  induction n using Nat.strongRecOn with
  | ind n inductionHypothesis =>
    unfold hex at inductionHypothesis ⊢
    rw [Nat.toDigits_eq_if (by decide)]
    split
    · rename_i small
      simp [hexFrom, hexDigit?_digitChar small]
    · rename_i large
      rw [hexFrom_append, inductionHypothesis (n / 16) (by omega), Option.bind_some]
      simp only [hexFrom, hexDigit?_digitChar (Nat.mod_lt n (by decide)), Option.bind_some]
      rw [Nat.div_add_mod]

theorem hex_ne_nil (n : Nat) : hex n ≠ [] :=
  Nat.toDigits_ne_nil

@[simp] theorem hex?_hex (n : Nat) : hex? (hex n) = some n := by
  simp [hex?, hex_ne_nil, hexFrom_hex]

theorem isHexDigit_of_hexFrom {text : List Char} {high n : Nat}
    (read : hexFrom high text = some n) :
    ∀ c ∈ text, isHexDigit c = true := by
  induction text generalizing high with
  | nil => simp
  | cons c text inductionHypothesis =>
    obtain ⟨value, digit, read⟩ := Option.bind_eq_some_iff.1 read
    exact List.forall_mem_cons.2 ⟨by simp [isHexDigit, digit], inductionHypothesis read⟩

theorem isHexDigit_of_mem_hex {n : Nat} {c : Char} (member : c ∈ hex n) : isHexDigit c = true :=
  isHexDigit_of_hexFrom (hexFrom_hex n) c member

theorem not_mem_hex {n : Nat} {c : Char} (other : isHexDigit c = false) : c ∉ hex n := by
  intro member
  rw [isHexDigit_of_mem_hex member] at other
  cases other

theorem not_mem_decimal {n : Nat} {c : Char} (other : c.isDigit = false) : c ∉ decimal n := by
  intro member
  rw [isDigit_of_mem_decimal member] at other
  cases other

end Numeral

namespace IpAddress

open Numeral

/-! ## Dotted quads -/

theorem octet?_decimal (octet : UInt8) : octet? (decimal octet.toNat) = some octet := by
  have bounded : octet.toNat ≤ 255 := Nat.le_of_lt_succ octet.toNat_lt
  simp [octet?, bounded]

theorem isDigit_of_octet? {text : List Char} {octet : UInt8} (read : octet? text = some octet) :
    ∀ c ∈ text, c.isDigit = true := by
  unfold octet? at read
  split at read
  · rename_i n digits
    exact isDigit_of_decimal? digits
  · cases read

theorem splitOn_quad (a b c d : UInt8) :
    (quad a b c d).splitOn '.' = [a, b, c, d].map fun octet => decimal octet.toNat := by
  refine List.splitOn_intercalate '.' ?_ (by simp)
  simpa using ⟨not_mem_decimal rfl, not_mem_decimal rfl, not_mem_decimal rfl, not_mem_decimal rfl⟩

theorem quad?_quad (a b c d : UInt8) : quad? (quad a b c d) = some (a, b, c, d) := by
  simp [quad?, splitOn_quad, octet?_decimal]

/-- A dotted quad has digits and dots only. -/
theorem isDigit_of_quad? {text : List Char} {octets : UInt8 × UInt8 × UInt8 × UInt8}
    (read : quad? text = some octets) : ∀ c ∈ text, c.isDigit = true ∨ c = '.' := by
  unfold quad? at read
  split at read
  · rename_i a b c d split
    simp only [Option.bind_eq_bind, Option.bind_eq_some_iff] at read
    obtain ⟨_, first, _, second, _, third, _, fourth, _⟩ := read
    have whole : List.intercalate ['.'] (text.splitOn '.') = text := List.intercalate_splitOn '.'
    rw [← whole, split]
    intro character member
    simp only [List.intercalate, List.intersperse, List.flatten_cons, List.flatten_nil,
      List.mem_append, List.mem_singleton, List.append_nil] at member
    rcases member with member | rfl | member | rfl | member | rfl | member
    · exact .inl (isDigit_of_octet? first _ member)
    · exact .inr rfl
    · exact .inl (isDigit_of_octet? second _ member)
    · exact .inr rfl
    · exact .inl (isDigit_of_octet? third _ member)
    · exact .inr rfl
    · exact .inl (isDigit_of_octet? fourth _ member)
  · cases read

theorem mem_quad {a b c d : UInt8} {character : Char} (member : character ∈ quad a b c d) :
    character.isDigit = true ∨ character = '.' :=
  isDigit_of_quad? (quad?_quad a b c d) character member

theorem quad?_of_mem {text : List Char} {character : Char} (member : character ∈ text)
    (noDigit : character.isDigit = false) (noDot : character ≠ '.') : quad? text = none := by
  cases read : quad? text with
  | none => rfl
  | some octets =>
    rcases isDigit_of_quad? read character member with digit | dot
    · rw [noDigit] at digit
      cases digit
    · exact absurd dot noDot

theorem quad?_of_no_dot {text : List Char} (absent : '.' ∉ text) : quad? text = none := by
  unfold quad?
  rw [List.splitOn_eq_singleton absent]

/-! ## Groups -/

theorem group?_hex (group : UInt16) : group? (hex group.toNat) = some group := by
  have short : (hex group.toNat).length ≤ 4 :=
    (Nat.length_toDigits_le_iff (by decide) (by decide)).2 group.toNat_lt
  simp [group?, short]

theorem mapM_group?_hex (groups : List UInt16) :
    (groups.map fun group => hex group.toNat).mapM group? = some groups := by
  induction groups with
  | nil => rfl
  | cons group groups inductionHypothesis =>
    simp [List.mapM_cons, group?_hex, inductionHypothesis]

theorem groups?_hex (groups : List UInt16) :
    groups? (groups.map fun group => hex group.toNat) = some groups := by
  induction groups with
  | nil => rfl
  | cons group groups inductionHypothesis =>
    cases groups with
    | nil =>
      have noQuad : quad? (hex group.toNat) = none := quad?_of_no_dot (not_mem_hex rfl)
      simp [groups?, noQuad, group?_hex]
    | cons next groups =>
      simp only [List.map_cons] at inductionHypothesis ⊢
      simp [groups?, group?_hex, inductionHypothesis]

/-- Pieces are found again if no piece is empty or has a colon. -/
theorem pieces_intercalate {words : List (List Char)} (filled : ∀ word ∈ words, word ≠ [])
    (plain : ∀ word ∈ words, ':' ∉ word) : pieces (List.intercalate [':'] words) = words := by
  cases words with
  | nil => rfl
  | cons word words =>
    have some : List.intercalate [':'] (word :: words) ≠ [] := by
      obtain ⟨c, letters, rfl⟩ := List.exists_cons_of_ne_nil (filled word List.mem_cons_self)
      cases words <;> simp
    rw [pieces, if_neg (by simpa using some), List.splitOn_intercalate ':' plain (by simp)]

theorem pieces_colons (groups : List UInt16) :
    pieces (colons groups) = groups.map fun group => hex group.toNat := by
  refine pieces_intercalate ?_ ?_
  · simpa using fun group _ => hex_ne_nil _
  · simpa using fun group _ => not_mem_hex rfl

/-! ## The gap -/

theorem cutAtGap_cons {c : Char} (plain : c ≠ ':') (rest : List Char) :
    cutAtGap (c :: rest) = (cutAtGap rest).map fun (before, after) => (c :: before, after) := by
  rw [cutAtGap]
  intro _ same
  exact absurd same plain

theorem cutAtGap_append {word : List Char} (plain : ':' ∉ word) (rest : List Char) :
    cutAtGap (word ++ rest)
      = (cutAtGap rest).map fun (before, after) => (word ++ before, after) := by
  induction word with
  | nil => simp
  | cons c word inductionHypothesis =>
    rw [List.mem_cons, not_or] at plain
    rw [List.cons_append, cutAtGap_cons (Ne.symm plain.1), inductionHypothesis plain.2,
      Option.map_map]
    rfl

theorem cutAtGap_colon {c : Char} (plain : c ≠ ':') (rest : List Char) :
    cutAtGap (':' :: c :: rest)
      = (cutAtGap (c :: rest)).map fun (before, after) => (':' :: before, after) := by
  rw [cutAtGap]
  intro _ _ same
  exact absurd (List.cons.inj same).1 plain

/-- There is no gap between words with single colons between them. -/
theorem cutAtGap_intercalate {words : List (List Char)} (filled : ∀ word ∈ words, word ≠ [])
    (plain : ∀ word ∈ words, ':' ∉ word) (rest : List Char) :
    cutAtGap (List.intercalate [':'] words ++ rest)
      = (cutAtGap rest).map fun (before, after) =>
          (List.intercalate [':'] words ++ before, after) := by
  induction words with
  | nil => simp [List.intercalate]
  | cons word words inductionHypothesis =>
    rw [List.forall_mem_cons] at filled plain
    cases words with
    | nil => simpa [List.intercalate] using cutAtGap_append plain.1 rest
    | cons next words =>
      obtain ⟨c, letters, rfl⟩ := List.exists_cons_of_ne_nil (filled.2 next List.mem_cons_self)
      have noColon : c ≠ ':' := by
        rintro rfl
        exact plain.2 _ List.mem_cons_self List.mem_cons_self
      obtain ⟨tail, begins⟩ : ∃ tail,
          List.intercalate [':'] ((c :: letters) :: words) = c :: tail := by
        cases words <;> simp
      have later := inductionHypothesis filled.2 plain.2
      rw [begins, List.cons_append] at later
      rw [List.intercalate_cons_cons, begins, List.append_assoc, List.append_assoc,
        List.singleton_append, List.cons_append, cutAtGap_append plain.1, cutAtGap_colon noColon,
        later, Option.map_map, Option.map_map]
      congr 1
      funext found
      simp

theorem cutAtGap_colons (groups : List UInt16) (rest : List Char) :
    cutAtGap (colons groups ++ rest)
      = (cutAtGap rest).map fun (before, after) => (colons groups ++ before, after) := by
  refine cutAtGap_intercalate ?_ ?_ rest
  · simpa using fun group _ => hex_ne_nil _
  · simpa using fun group _ => not_mem_hex rfl

/-- The longest run of zeros is a run of zeros. -/
theorem longestZeroRun_spec (groups : List UInt16) : ∃ before after,
    groups = before ++ List.replicate (longestZeroRun groups).2 0 ++ after ∧
      before.length = (longestZeroRun groups).1 := by
  induction groups with
  | nil => exact ⟨[], [], rfl, rfl⟩
  | cons group rest inductionHypothesis =>
    obtain ⟨before, after, whole, start⟩ := inductionHypothesis
    unfold longestZeroRun
    generalize longestZeroRun rest = run at whole start
    obtain ⟨_, length⟩ := run
    dsimp only at whole start ⊢
    split
    · refine ⟨[], (group :: rest).dropWhile (· == 0), ?_, rfl⟩
      have zeros : (group :: rest).takeWhile (· == 0)
          = List.replicate ((group :: rest).takeWhile (· == 0)).length 0 := by
        refine List.eq_replicate_of_mem fun other member => ?_
        simpa using List.mem_takeWhile_imp member
      rw [List.nil_append, ← zeros, List.takeWhile_append_dropWhile]
    · exact ⟨group :: before, after, by simp [whole], by simp [start]⟩

/-! ## Whole addresses -/

theorem v6?_toList (groups : Vector UInt16 8) : v6? groups.toList = some (.v6 groups) := by
  simp [v6?, Vector.toArray_toList]

theorem readV6_compressed (groups : Vector UInt16 8) :
    readV6 (compressed groups.toList) = some (.v6 groups) := by
  obtain ⟨before, after, whole, start⟩ := longestZeroRun_spec groups.toList
  unfold compressed
  generalize longestZeroRun groups.toList = run at whole start
  obtain ⟨_, length⟩ := run
  dsimp only at whole start ⊢
  subst start
  split
  · have noGap := cutAtGap_colons groups.toList []
    rw [List.append_nil] at noGap
    rw [readV6, noGap]
    simp only [cutAtGap, Option.map_none, pieces_colons, groups?_hex, Option.bind_some, v6?_toList]
  · rename_i long
    have taken : groups.toList.take before.length = before := by simp [whole]
    have dropped : groups.toList.drop (before.length + length) = after := by
      rw [whole, List.drop_append_of_le_length (by simp), List.drop_of_length_le (by simp),
        List.nil_append]
    have counted : before.length + length + after.length = 8 := by
      simpa [Nat.add_assoc] using (congrArg List.length whole).symm
    have gap : cutAtGap (colons before ++ "::".toList ++ colons after)
        = some (colons before, colons after) := by
      rw [List.append_assoc, cutAtGap_colons]
      simp [cutAtGap]
    have missing : 8 - before.length - after.length = length := by omega
    rw [taken, dropped, readV6, gap]
    simp only [pieces_colons, mapM_group?_hex, groups?_hex, Option.bind_eq_bind, Option.bind_some,
      missing]
    rw [if_pos (by omega), ← whole, v6?_toList]

theorem pair_octets (group : UInt16) : pair (group >>> 8).toUInt8 group.toUInt8 = group := by
  apply UInt16.toNat_inj.1
  have bounded : group.toNat < 65536 := group.toNat_lt
  simp [pair, Nat.shiftRight_eq_div_pow]
  omega

/-- The quad stands for the last two of the groups behind the `::`. -/
theorem groups?_quad (a b c d : UInt8) : groups? (pieces ("ffff:".toList ++ quad a b c d))
    = some [0xFFFF, pair a b, pair c d] := by
  have filled : quad a b c d ≠ [] := by
    intro nothing
    have read := quad?_quad a b c d
    rw [nothing] at read
    cases read
  have noColon : ':' ∉ quad a b c d := fun member => by
    rcases mem_quad member with digit | dot
    · cases digit
    · cases dot
  have joined : "ffff:".toList ++ quad a b c d
      = List.intercalate [':'] ["ffff".toList, quad a b c d] := by
    rw [List.intercalate_cons_cons, List.intercalate_singleton]
    rfl
  rw [joined, pieces_intercalate (by simp [filled]) (by simp [noColon])]
  simp only [groups?, quad?_quad]
  rfl

theorem readV6_mapped {groups : Vector UInt16 8} {a b c d : UInt8}
    (found : mapped? groups.toList = some (a, b, c, d)) :
    readV6 ("::ffff:".toList ++ quad a b c d) = some (.v6 groups) := by
  have gap : cutAtGap ("::ffff:".toList ++ quad a b c d)
      = some ([], "ffff:".toList ++ quad a b c d) := rfl
  rw [readV6, gap]
  simp only [groups?_quad]
  unfold mapped? at found
  split at found
  · rename_i high low listed
    cases found
    rw [pair_octets, pair_octets]
    exact (congrArg v6? listed).symm.trans (v6?_toList groups)
  · cases found

theorem readV4_quad (a b c d : UInt8) : readV4 (quad a b c d) = some (.v4 a b c d) := by
  simp [readV4, quad?_quad]

theorem readV4_of_colon {text : List Char} (member : ':' ∈ text) : readV4 text = none := by
  rw [readV4, quad?_of_mem member rfl (by decide)]
  rfl

theorem mem_colons {groups : List UInt16} {c : Char} (member : c ∈ colons groups) :
    isHexDigit c = true ∨ c = ':' := by
  unfold colons at member
  induction groups with
  | nil => simp at member
  | cons group groups inductionHypothesis =>
    cases groups with
    | nil =>
      rw [List.map_singleton, List.intercalate_singleton] at member
      exact .inl (isHexDigit_of_mem_hex member)
    | cons next groups =>
      simp only [List.map_cons, List.intercalate_cons_cons, List.mem_append, List.mem_singleton]
        at member inductionHypothesis
      rcases member with (member | colon) | member
      · exact .inl (isHexDigit_of_mem_hex member)
      · exact .inr colon
      · exact inductionHypothesis member

theorem colon_mem_compressed (groups : Vector UInt16 8) : ':' ∈ compressed groups.toList := by
  unfold compressed
  split
  split
  · match groups.toList, groups.length_toList with
    | first :: second :: rest, _ => simp [colons]
  · simp

theorem isHexDigit_of_isDigit {c : Char} (digit : c.isDigit = true) : isHexDigit c = true := by
  simp [isHexDigit, hexDigit?, digit]

theorem text_v6_cases (groups : Vector UInt16 8) :
    (∃ a b c d, mapped? groups.toList = some (a, b, c, d) ∧
        (v6 groups).text = "::ffff:".toList ++ quad a b c d) ∨
      (v6 groups).text = compressed groups.toList := by
  cases mapped : mapped? groups.toList with
  | none => exact .inr (by simp only [text, mapped])
  | some octets => exact .inl ⟨_, _, _, _, rfl, by simp only [text, mapped]⟩

/-- The text of an IPv6 address has colons. -/
theorem colon_mem_text (groups : Vector UInt16 8) : ':' ∈ (v6 groups).text := by
  rcases text_v6_cases groups with ⟨a, b, c, d, _, written⟩ | written
  · simp [written]
  · rw [written]
    exact colon_mem_compressed groups

/-- The text of an address has hexadecimal digits, colons and dots only. -/
theorem mem_text {ip : IpAddress} {c : Char} (member : c ∈ ip.text) :
    isHexDigit c = true ∨ c = ':' ∨ c = '.' := by
  have ofQuad : ∀ a b c d, ∀ character ∈ quad a b c d,
      isHexDigit character = true ∨ character = ':' ∨ character = '.' := by
    intro _ _ _ _ character member
    exact (mem_quad member).imp isHexDigit_of_isDigit .inr
  have ofColons : ∀ groups, ∀ character ∈ colons groups,
      isHexDigit character = true ∨ character = ':' ∨ character = '.' := by
    intro _ character member
    exact (mem_colons member).imp_right .inl
  cases ip with
  | v4 a b c d => exact ofQuad a b c d _ member
  | v6 groups =>
    rcases text_v6_cases groups with ⟨a, b, c, d, _, written⟩ | written
    · rw [written, List.mem_append] at member
      rcases member with member | member
      · have lead : "::ffff:".toList.all (fun character => isHexDigit character || character == ':')
            = true := by decide
        have kept := List.all_eq_true.1 lead _ member
        rw [Bool.or_eq_true, beq_iff_eq] at kept
        exact kept.imp_right .inl
      · exact ofQuad _ _ _ _ _ member
    · rw [written] at member
      unfold compressed at member
      split at member
      split at member
      · exact ofColons _ _ member
      · simp only [List.mem_append] at member
        rcases member with (member | member) | member
        · exact ofColons _ _ member
        · have gap : "::".toList.all (· == ':') = true := by decide
          exact .inr (.inl (beq_iff_eq.1 (List.all_eq_true.1 gap _ member)))
        · exact ofColons _ _ member

/-- An address is read back from its canonical text. -/
theorem read_text (ip : IpAddress) : read ip.text = some ip := by
  cases ip with
  | v4 a b c d => simp [read, text, readV4_quad]
  | v6 groups =>
    rw [read, readV4_of_colon (colon_mem_text groups)]
    rcases text_v6_cases groups with ⟨a, b, c, d, mapped, written⟩ | written
    · rw [written]
      exact readV6_mapped mapped
    · rw [written]
      exact readV6_compressed groups

end IpAddress
end CallFork
