import Evm.Fixture.Reader
import Evm.Proofs.Bytes
import Mathlib.Data.List.Forall2
import Mathlib.Data.Nat.Digits.Lemmas

/-! # What is read as a number

    The readers of words and counts work on the bytes of a text. A digit is a
    character of one byte, and every other character starts with a byte that
    is no digit, so that reading the bytes is reading the characters
    (`mapM_digit?_eq_some_iff`).

    The marker is dropped by every layer on its own: by the field of a
    fixture, by the reader of words, and by the reader of numerals below it.
    A layer that drops one adds one to the markers that may stand in front
    (`behind_dropMarker_iff`). So a word may have two of them, a word in a
    fixture three. A count has at most one, and may have a sign behind it.
-/

namespace Evm

namespace Text.Hex

/-! ## Digits -/

/-- The character is the digit with this value, in either case. -/
def IsDigit (c : Char) (d : Nat) : Prop := d < 16 ∧ c.toLower = Nat.digitChar d

/-- The characters are the digits of the number, most significant first. -/
def Denotes (text : List Char) (n : Nat) : Prop :=
  ∃ digits, List.Forall₂ IsDigit text digits ∧ Nat.ofDigits 16 digits.reverse = n

theorem digit?_lt {x : UInt8} {d : Nat} (h : digit? x = some d) : x.toNat < 128 ∧ d < 16 := by
  unfold digit? at h
  grind

theorem IsDigit.ascii {c : Char} {d : Nat} (h : IsDigit c d) : c.toNat < 128 := by
  have hlower : ∀ e < 16, (Nat.digitChar e).toNat < 128 := by decide
  have hsmall := hlower d h.1
  rw [← h.2] at hsmall
  unfold Char.toLower at hsmall
  split at hsmall
  · next hupper =>
    have hlast : c.toNat ≤ 90 := hupper.2
    omega
  · exact hsmall

/-- The reader knows the digits among the characters of one byte. -/
theorem digit?_eq_some_iff {c : Char} (hc : c.toNat < 128) (d : Nat) :
    digit? (UInt8.ofNat c.toNat) = some d ↔ IsDigit c d := by
  have hall : ∀ n < 128, ∀ d < 16,
      digit? (UInt8.ofNat n) = some d ↔ (Char.ofNat n).toLower = Nat.digitChar d := by
    decide +kernel
  have hread := hall c.toNat hc d
  rw [Char.ofNat_toNat] at hread
  constructor
  · intro h
    have hd := (digit?_lt h).2
    exact ⟨hd, (hread hd).mp h⟩
  · rintro ⟨hd, h⟩
    exact (hread hd).mpr h

/-! ## Characters as bytes -/

theorem toList_toUTF8 (s : String) :
    Bytes.toList s.toUTF8 = s.toList.flatMap String.utf8EncodeChar := by
  rw [String.toUTF8_eq_toByteArray, ← String.utf8Encode_toList, List.utf8Encode, Bytes.toList,
    List.data_toByteArray]

theorem utf8EncodeChar_ascii {c : Char} (hc : c.toNat < 128) :
    String.utf8EncodeChar c = [UInt8.ofNat c.toNat] := by
  have hvalue : c.val.toNat = c.toNat := rfl
  rw [String.utf8EncodeChar.eq_def]
  simp only [hvalue]
  rw [if_pos (by omega)]

/-- A character of more bytes starts with a high one. -/
theorem utf8EncodeChar_of_not_ascii {c : Char} (hc : ¬c.toNat < 128) :
    ∃ x rest, String.utf8EncodeChar c = x :: rest ∧ 128 ≤ x.toNat := by
  have hvalue : c.val.toNat = c.toNat := rfl
  rw [String.utf8EncodeChar.eq_def]
  simp only [hvalue]
  split_ifs
  · omega
  -- two, three or four bytes
  all_goals
    refine ⟨_, _, rfl, ?_⟩
    rw [UInt8.toNat_ofNat']
    omega

/-- **Reading bytes is reading characters.** -/
theorem mapM_digit?_eq_some_iff (text : List Char) (digits : List Nat) :
    (text.flatMap String.utf8EncodeChar).mapM digit? = some digits ↔
      List.Forall₂ IsDigit text digits := by
  induction text generalizing digits with
  | nil => simp [eq_comm]
  | cons c text ih =>
    rw [List.flatMap_cons, List.forall₂_cons_left_iff]
    by_cases hc : c.toNat < 128
    · rw [utf8EncodeChar_ascii hc, List.singleton_append, List.mapM_cons]
      simp only [Option.bind_eq_bind, Option.bind_eq_some_iff, digit?_eq_some_iff hc, ih,
        Option.pure_def, Option.some.injEq]
      constructor
      · rintro ⟨d, hd, ds, hds, rfl⟩
        exact ⟨d, ds, hd, hds, rfl⟩
      · rintro ⟨d, ds, hd, hds, rfl⟩
        exact ⟨d, hd, ds, hds, rfl⟩
    · -- the first byte stops the reader, and the character is no digit either
      obtain ⟨x, rest, hbytes, hhigh⟩ := utf8EncodeChar_of_not_ascii hc
      have hx : digit? x = none := by
        rw [Option.eq_none_iff_forall_ne_some]
        intro d hd
        have := (digit?_lt hd).1
        omega
      rw [hbytes, List.cons_append, List.mapM_cons, hx]
      constructor
      · exact nofun
      · rintro ⟨d, _, hd, -⟩
        exact absurd hd.ascii hc

theorem foldl_eq_ofDigits (digits : List Nat) :
    digits.foldl (fun n d => 16 * n + d) 0 = Nat.ofDigits 16 digits.reverse := by
  have hstep : (fun n d : Nat => 16 * n + d) = fun n d => d + 16 * n := by
    funext n d
    omega
  rw [Nat.ofDigits_eq_foldr, List.foldr_reverse, hstep]
  rfl

/-- The digits that are read from the bytes of a text, put together. -/
theorem mapM_digit?_denotes (text : List Char) (n : Nat) :
    (∃ digits, (text.flatMap String.utf8EncodeChar).mapM digit? = some digits ∧
      digits.foldl (fun n d => 16 * n + d) 0 = n) ↔ Denotes text n := by
  simp only [mapM_digit?_eq_some_iff, foldl_eq_ofDigits]
  rfl

theorem length_mapM_digit? {bytes : List UInt8} {digits : List Nat}
    (h : bytes.mapM digit? = some digits) : digits.length = bytes.length := by
  induction bytes generalizing digits with
  | nil => simp_all
  | cons x bytes ih =>
    rw [List.mapM_cons] at h
    simp only [Option.bind_eq_bind, Option.bind_eq_some_iff, Option.pure_def,
      Option.some.injEq] at h
    obtain ⟨d, -, ds, hds, rfl⟩ := h
    rw [List.length_cons, List.length_cons, ih hds]

/-- There are as many bytes as digits. -/
theorem Denotes.length_utf8 {text : List Char} {n : Nat} (h : Denotes text n) :
    (text.flatMap String.utf8EncodeChar).length = text.length := by
  obtain ⟨digits, hdigits, -⟩ := h
  rw [hdigits.length_eq, length_mapM_digit? ((mapM_digit?_eq_some_iff text digits).mpr hdigits)]

theorem lt_of_isDigit {text : List Char} {digits : List Nat}
    (h : List.Forall₂ IsDigit text digits) : ∀ d ∈ digits, d < 16 := by
  induction h with
  | nil => simp
  | cons hd _ ih => simpa using ⟨hd.1, ih⟩

theorem Denotes.lt {text : List Char} {n : Nat} (h : Denotes text n) : n < 16 ^ text.length := by
  obtain ⟨digits, hdigits, rfl⟩ := h
  rw [hdigits.length_eq, ← List.length_reverse]
  apply Nat.ofDigits_lt_base_pow_length (by decide)
  intro d hd
  exact lt_of_isDigit hdigits d (List.mem_reverse.mp hd)

/-- The letter of the marker is no digit. -/
theorem not_denotes_marked (text : List Char) (n : Nat) : ¬Denotes ('0' :: 'x' :: text) n := by
  have hletter : ∀ d < 16, 'x'.toLower ≠ Nat.digitChar d := by decide
  rintro ⟨digits, hdigits, -⟩
  cases hdigits with
  | cons _ hrest =>
    cases hrest with
    | cons hx _ => exact hletter _ hx.1 hx.2

/-- The plus sign is no digit. -/
theorem not_denotes_plus (text : List Char) (n : Nat) : ¬Denotes ('+' :: text) n := by
  have hplus : ∀ d < 16, '+'.toLower ≠ Nat.digitChar d := by decide
  rintro ⟨digits, hdigits, -⟩
  cases hdigits with
  | cons hx _ => exact hplus _ hx.1 hx.2

/-! ## Markers -/

/-- A text with markers in front. -/
def marked : Nat → List Char → List Char
  | 0, text => text
  | k + 1, text => '0' :: 'x' :: marked k text

/-- The text is one of those described, behind at most `k` markers. -/
def Behind (k : Nat) (P : List Char → Prop) (text : List Char) : Prop :=
  ∃ j ≤ k, ∃ rest, text = marked j rest ∧ P rest

variable {P Q : List Char → Prop} {text : List Char}

/-- There is one way to take a text apart into markers and what is behind them,
    if nothing that is behind them starts like a marker. -/
theorem marked_inj (hP : ∀ rest, ¬P ('0' :: 'x' :: rest)) (hQ : ∀ rest, ¬Q ('0' :: 'x' :: rest))
    {i j : Nat} {a b : List Char} (h : marked i a = marked j b) (ha : P a) (hb : Q b) :
    i = j ∧ a = b := by
  -- by induction on the markers of one side: they go in pairs with those of the other
  induction i generalizing j with
  | zero =>
    cases j with
    | zero => exact ⟨rfl, h⟩
    | succ j =>
      rw [show a = marked (j + 1) b from h] at ha
      exact absurd ha (hP _)
  | succ i ih =>
    cases j with
    | zero =>
      rw [← show marked (i + 1) a = b from h] at hb
      exact absurd hb (hQ _)
    | succ j =>
      obtain ⟨hmarkers, hrest⟩ := ih (List.cons.inj (List.cons.inj h).2).2
      exact ⟨congrArg (· + 1) hmarkers, hrest⟩

theorem Behind.imp {k : Nat} (h : Behind k P text) (himp : ∀ rest, P rest → Q rest) :
    Behind k Q text := by
  obtain ⟨j, hj, rest, htext, hrest⟩ := h
  exact ⟨j, hj, rest, htext, himp rest hrest⟩

/-- One more marker is the only thing that one more marker allows. -/
theorem behind_succ_iff {k : Nat} :
    Behind (k + 1) P text ↔ Behind k P text ∨ ∃ rest, text = marked (k + 1) rest ∧ P rest := by
  constructor
  · rintro ⟨j, hj, rest, htext, hrest⟩
    rcases Nat.lt_or_eq_of_le hj with hless | rfl
    · exact .inl ⟨j, Nat.le_of_lt_succ hless, rest, htext, hrest⟩
    · exact .inr ⟨rest, htext, hrest⟩
  · rintro (⟨j, hj, rest, htext, hrest⟩ | ⟨rest, htext, hrest⟩)
    · exact ⟨j, Nat.le_succ_of_le hj, rest, htext, hrest⟩
    · exact ⟨k + 1, Nat.le_refl _, rest, htext, hrest⟩

/-- A text with more markers is not behind fewer of them. -/
theorem not_behind_of_marked (hP : ∀ rest, ¬P ('0' :: 'x' :: rest))
    (hQ : ∀ rest, ¬Q ('0' :: 'x' :: rest)) {i k : Nat} (hi : k < i) {rest : List Char}
    (htext : text = marked i rest) (hrest : P rest) : ¬Behind k Q text := by
  rintro ⟨j, hj, rest', htext', hrest'⟩
  obtain ⟨rfl, _⟩ := marked_inj hP hQ (htext.symm.trans htext') hrest hrest'
  omega

theorem behind_zero_iff : Behind 0 P text ↔ P text := by
  constructor
  · rintro ⟨j, hj, rest, rfl, hrest⟩
    obtain rfl : j = 0 := Nat.le_zero.mp hj
    exact hrest
  · intro h
    exact ⟨0, Nat.le_refl 0, text, rfl, h⟩

theorem toList_dropMarker (s : String) :
    (∃ rest, s.toList = '0' :: 'x' :: rest ∧ (dropMarker s).toList = rest) ∨
      (∀ rest, s.toList ≠ '0' :: 'x' :: rest) ∧ dropMarker s = s := by
  unfold dropMarker
  split
  · next rest hs => exact .inl ⟨rest, hs, String.toList_ofList⟩
  · next hs => exact .inr ⟨hs, rfl⟩

/-- **A layer that drops a marker takes one more**, as long as nothing that it
    takes starts like a marker. -/
theorem behind_dropMarker_iff (hP : ∀ rest, ¬P ('0' :: 'x' :: rest)) (k : Nat) (s : String) :
    Behind k P (dropMarker s).toList ↔ Behind (k + 1) P s.toList := by
  rcases toList_dropMarker s with ⟨rest, hs, hdrop⟩ | ⟨hs, hdrop⟩
  · rw [hs, hdrop]
    constructor
    · rintro ⟨j, hj, text, rfl, htext⟩
      exact ⟨j + 1, Nat.succ_le_succ hj, text, rfl, htext⟩
    · rintro ⟨j, hj, text, hmarked, htext⟩
      cases j with
      | zero =>
        rw [marked] at hmarked
        rw [← hmarked] at htext
        exact absurd htext (hP rest)
      | succ j =>
        simp only [marked, List.cons.injEq, true_and] at hmarked
        exact ⟨j, Nat.le_of_succ_le_succ hj, text, hmarked, htext⟩
  · rw [hdrop]
    constructor
    · rintro ⟨j, hj, text, hmarked, htext⟩
      exact ⟨j, Nat.le_succ_of_le hj, text, hmarked, htext⟩
    · rintro ⟨j, hj, text, hmarked, htext⟩
      cases j with
      | zero => exact ⟨0, Nat.zero_le k, text, hmarked, htext⟩
      | succ j => exact absurd hmarked (hs _)

end Text.Hex

/-! ## Words -/

namespace Word

open Text.Hex

/-- The numerals of a word: at most 64 digits. -/
def Numeral (w : Word) (text : List Char) : Prop := text.length ≤ 64 ∧ Denotes text w.toNat

theorem not_numeral_marked (w : Word) (rest : List Char) : ¬w.Numeral ('0' :: 'x' :: rest) :=
  fun h => not_denotes_marked _ _ h.2

theorem readDigits_eq_ok_iff (bytes : List UInt8) (index acc n : Nat) :
    readDigits bytes index acc = .ok n ↔
      ∃ digits, bytes.mapM digit? = some digits ∧
        digits.foldl (fun n d => 16 * n + d) acc = n := by
  induction bytes generalizing index acc with
  | nil => simp [readDigits]
  | cons x bytes ih =>
    rw [readDigits, List.mapM_cons]
    cases digit? x with
    | none => simp
    | some d =>
      simp only [ih, Option.bind_eq_bind, Option.bind_some, Option.bind_eq_some_iff,
        Option.pure_def, Option.some.injEq]
      constructor
      · rintro ⟨ds, hds, hvalue⟩
        exact ⟨d :: ds, ⟨ds, hds, rfl⟩, hvalue⟩
      · rintro ⟨_, ⟨ds, hds, rfl⟩, hvalue⟩
        exact ⟨ds, hds, hvalue⟩

theorem ofNumeral_eq_ok_iff (s : String) (w : Word) :
    ofNumeral s = .ok w ↔ Behind 1 w.Numeral s.toList := by
  rw [← behind_dropMarker_iff w.not_numeral_marked, behind_zero_iff, ofNumeral, toList_toUTF8]
  generalize (dropMarker s).toList = text
  constructor
  · intro h
    split at h
    · cases h
    · next hlength =>
      cases hread : readDigits (text.flatMap String.utf8EncodeChar)
          ((text.flatMap String.utf8EncodeChar).length % 2) 0 with
      | error e =>
        rw [hread] at h
        cases h
      | ok n =>
        rw [hread] at h
        obtain rfl : ofNat n = w := Except.ok.inj h
        have hdenotes := (mapM_digit?_denotes text n).mp ((readDigits_eq_ok_iff _ _ _ _).mp hread)
        have hshort : text.length ≤ 64 := by
          rw [hdenotes.length_utf8] at hlength
          omega
        -- 64 digits never wrap around
        have hfits : n < 2 ^ 256 := by
          have hmost : (16 : Nat) ^ text.length ≤ 16 ^ 64 :=
            Nat.pow_le_pow_right (by decide) hshort
          exact hdenotes.lt.trans_le hmost
        have hvalue : (ofNat n).toNat = n := Nat.mod_eq_of_lt hfits
        exact ⟨hshort, by rwa [hvalue]⟩
  · rintro ⟨hlength, hdenotes⟩
    have hread := (readDigits_eq_ok_iff _ ((text.flatMap String.utf8EncodeChar).length % 2) 0 _).mpr
      ((mapM_digit?_denotes text _).mpr hdenotes)
    rw [if_neg (by rw [hdenotes.length_utf8]; omega), hread]
    exact congrArg Except.ok (BitVec.eq_of_toNat_eq (Nat.mod_eq_of_lt w.isLt))

/-- No digit at all denotes zero anyway, so that asking for the empty text first
    makes no difference. -/
theorem ofHex_eq_ofNumeral (s : String) : ofHex s = ofNumeral (dropMarker s) := by
  unfold ofHex
  simp only
  split
  · next hempty =>
    rw [String.isEmpty_iff.mp hempty]
    rfl
  · rfl

theorem ofHex_eq_ok_iff (s : String) (w : Word) :
    ofHex s = .ok w ↔ Behind 2 w.Numeral s.toList := by
  rw [ofHex_eq_ofNumeral, ofNumeral_eq_ok_iff, behind_dropMarker_iff w.not_numeral_marked]

/-- **Only a second marker is too much.** What is read is behind at most one
    marker, unless it is a numeral behind two of them. -/
theorem ofHex_behind_one_iff (s : String) :
    (∀ w, ofHex s = .ok w ↔ Behind 1 w.Numeral s.toList) ↔
      ∀ (w : Word) (rest : List Char), s.toList = marked 2 rest → ¬w.Numeral rest := by
  constructor
  · intro hone w rest htext hrest
    have hread : ofHex s = .ok w :=
      (ofHex_eq_ok_iff s w).mpr (behind_succ_iff.mpr (.inr ⟨rest, htext, hrest⟩))
    exact not_behind_of_marked w.not_numeral_marked w.not_numeral_marked Nat.one_lt_two htext hrest
      ((hone w).mp hread)
  · intro hnone w
    rw [ofHex_eq_ok_iff, behind_succ_iff]
    apply or_iff_left
    rintro ⟨rest, htext, hrest⟩
    exact hnone w rest htext hrest

end Word

/-! ## Fields of a fixture -/

namespace Fixture

open Text.Hex

theorem word?_eq_some_iff (s : String) (w : Word) :
    word? (.string s) = some w ↔ Behind 3 w.Numeral s.toList := by
  rw [← behind_dropMarker_iff w.not_numeral_marked, ← Word.ofHex_eq_ok_iff]
  show (Word.ofHex (dropMarker s)).toOption = some w ↔ _
  cases Word.ofHex (dropMarker s) <;> simp [Except.toOption]

/-- A plus sign and at least one digit. -/
def Signed (n : Nat) (text : List Char) : Prop :=
  ∃ digits, text = '+' :: digits ∧ digits ≠ [] ∧ Denotes digits n

/-- The numerals of a count: any number of digits, or digits with a sign. -/
def CountNumeral (n : Nat) (text : List Char) : Prop :=
  n < 2 ^ 64 ∧ (Denotes text n ∨ Signed n text)

theorem not_countNumeral_marked (n : Nat) (rest : List Char) :
    ¬CountNumeral n ('0' :: 'x' :: rest) := by
  rintro ⟨-, h | ⟨digits, htext, -⟩⟩
  · exact not_denotes_marked _ _ h
  · cases htext

theorem number?_eq_some_iff (text : List Char) (n : Nat) :
    number? (text.flatMap String.utf8EncodeChar) = some n ↔ text ≠ [] ∧ Denotes text n := by
  unfold number?
  cases text with
  | nil => simp
  | cons c text =>
    have hsome : ((c :: text).flatMap String.utf8EncodeChar).isEmpty = false := by
      simp [String.utf8EncodeChar_ne_nil]
    rw [hsome, if_neg Bool.false_ne_true, Option.map_eq_some_iff, mapM_digit?_denotes]
    simp

/-- The byte of a plus sign starts no other character. -/
theorem eq_plus_of_utf8 {c : Char} {text : List Char} {rest : List UInt8}
    (h : (c :: text).flatMap String.utf8EncodeChar = 43 :: rest) : c = '+' := by
  rw [List.flatMap_cons] at h
  by_cases hc : c.toNat < 128
  · rw [utf8EncodeChar_ascii hc, List.singleton_append] at h
    have hcode := congrArg UInt8.toNat (List.cons.inj h).1
    rw [UInt8.toNat_ofNat', Nat.mod_eq_of_lt (by omega)] at hcode
    rw [← Char.ofNat_toNat c, hcode]
    rfl
  · obtain ⟨x, tail, hbytes, hhigh⟩ := utf8EncodeChar_of_not_ascii hc
    rw [hbytes, List.cons_append] at h
    have hcode := congrArg UInt8.toNat (List.cons.inj h).1
    have hplus : (43 : UInt8).toNat = 43 := rfl
    omega

theorem count?_eq_some_iff (text : List Char) (n : Nat) :
    count? (text.flatMap String.utf8EncodeChar) = some n ↔
      (text ≠ [] ∧ Denotes text n) ∨ Signed n text := by
  by_cases hsign : ∃ rest, text = '+' :: rest
  · obtain ⟨rest, rfl⟩ := hsign
    have hread : count? (('+' :: rest).flatMap String.utf8EncodeChar) =
        number? (rest.flatMap String.utf8EncodeChar) := rfl
    rw [hread, number?_eq_some_iff]
    simp [Signed, not_denotes_plus]
  · have hread : count? (text.flatMap String.utf8EncodeChar) =
        number? (text.flatMap String.utf8EncodeChar) := by
      unfold count?
      split
      · next rest hbytes =>
        cases text with
        | nil => cases hbytes
        | cons c text => exact absurd ⟨text, by rw [eq_plus_of_utf8 hbytes]⟩ hsign
      · rfl
    rw [hread, number?_eq_some_iff]
    constructor
    · exact Or.inl
    · rintro (h | ⟨digits, htext, -⟩)
      · exact h
      · exact absurd ⟨digits, htext⟩ hsign

theorem uint64?_eq_some_iff (s : String) (n : Nat) :
    uint64? (.string s) = some n ↔ Behind 1 (CountNumeral n) s.toList := by
  rw [← behind_dropMarker_iff (not_countNumeral_marked n), behind_zero_iff]
  have hread : uint64? (.string s) =
      if (dropMarker s).isEmpty then some 0
      else (count? (Bytes.toList (dropMarker s).toUTF8)).bind fun n =>
        if n ≤ 0xffffffffffffffff then some n else none := rfl
  rw [hread, toList_toUTF8]
  generalize dropMarker s = text
  by_cases hempty : text = ""
  · subst hempty
    have hzero : Denotes [] n ↔ 0 = n := by simp [Denotes]
    simp [CountNumeral, Signed, hzero]
    omega
  · have hsome : text.toList ≠ [] := fun h => hempty (String.toList_eq_nil_iff.mp h)
    rw [if_neg (by simpa using hempty)]
    simp only [Option.bind_eq_some_iff, count?_eq_some_iff, CountNumeral, ne_eq, hsome,
      not_false_eq_true, true_and]
    constructor
    · rintro ⟨m, hm, hfits⟩
      split at hfits
      · obtain rfl := Option.some.inj hfits
        exact ⟨by omega, hm⟩
      · cases hfits
    · rintro ⟨hfits, h⟩
      exact ⟨n, h, if_pos (by omega)⟩

/-- **Only a sign is too much.** What is read is digits behind at most one
    marker, unless it is a number with a sign. -/
theorem uint64?_denotes_iff (s : String) :
    (∀ n, uint64? (.string s) = some n ↔ n < 2 ^ 64 ∧ Behind 1 (Denotes · n) s.toList) ↔
      ∀ n < 2 ^ 64, ¬Behind 1 (Signed n) s.toList := by
  constructor
  · intro hplain n hn hsigned
    have hread : uint64? (.string s) = some n :=
      (uint64?_eq_some_iff s n).mpr (hsigned.imp fun _ h => ⟨hn, .inr h⟩)
    obtain ⟨i, _, rest, htext, digits, rfl, _⟩ := hsigned
    obtain ⟨_, j, _, rest', htext', hdenotes⟩ := (hplain n).mp hread
    -- the same text behind its markers starts with a sign and is digits
    obtain ⟨_, rfl⟩ := marked_inj (P := fun text => text = '+' :: digits)
      (Q := (Denotes · n)) (fun _ h => nomatch h) (fun _ => not_denotes_marked _ _)
      (htext.symm.trans htext') rfl hdenotes
    exact not_denotes_plus digits n hdenotes
  · intro hnone n
    rw [uint64?_eq_some_iff]
    constructor
    · rintro ⟨j, hj, rest, htext, hn, hdenotes | hsigned⟩
      · exact ⟨hn, j, hj, rest, htext, hdenotes⟩
      · exact absurd ⟨j, hj, rest, htext, hsigned⟩ (hnone n hn)
    · rintro ⟨hn, hdenotes⟩
      exact hdenotes.imp fun _ h => ⟨hn, .inl h⟩

/-- **What is read as a number, and nothing else is.** A word is at most two
    markers and at most 64 digits of either case, none of them standing for
    zero, and a word in a fixture may have a third marker. A count is at most
    one marker and the digits of a number below `2 ^ 64`, and if there is a
    digit it may have a plus sign in front of the first one. What is read is the
    number that the digits denote. So a text is read as digits behind at most
    one marker exactly if no second marker and no sign makes a number of it. -/
theorem numerals_read (s : String) :
    (∀ w, Word.ofHex s = .ok w ↔ Behind 2 w.Numeral s.toList) ∧
    (∀ w, word? (.string s) = some w ↔ Behind 3 w.Numeral s.toList) ∧
    (∀ n, uint64? (.string s) = some n ↔ Behind 1 (CountNumeral n) s.toList) ∧
    ((∀ w, Word.ofHex s = .ok w ↔ Behind 1 w.Numeral s.toList) ↔
      ∀ (w : Word) (rest : List Char), s.toList = marked 2 rest → ¬w.Numeral rest) ∧
    ((∀ n, uint64? (.string s) = some n ↔ n < 2 ^ 64 ∧ Behind 1 (Denotes · n) s.toList) ↔
      ∀ n < 2 ^ 64, ¬Behind 1 (Signed n) s.toList) := by
  refine ⟨?_, ?_, ?_, ?_, ?_⟩
  · exact Word.ofHex_eq_ok_iff s
  · exact word?_eq_some_iff s
  · exact uint64?_eq_some_iff s
  · exact Word.ofHex_behind_one_iff s
  · exact uint64?_denotes_iff s

/-- Digits behind one marker are not all that is read: a word is read behind a
    second marker, and a count behind a plus sign. -/
theorem second_marker_and_sign_read :
    (Word.ofHex "0x0x1" = .ok 1 ∧ ¬Behind 1 (Word.Numeral 1) "0x0x1".toList) ∧
    (uint64? (.string "0x+1") = some 1 ∧ ¬Behind 1 (Denotes · 1) "0x+1".toList) := by
  have hone : Denotes ['1'] 1 := ⟨[1], .cons (by unfold IsDigit; decide) .nil, rfl⟩
  have hnumeral : Word.Numeral 1 ['1'] := ⟨by decide, hone⟩
  refine ⟨⟨?_, ?_⟩, ?_, ?_⟩
  · rw [Word.ofHex_eq_ok_iff]
    exact ⟨2, Nat.le_refl 2, ['1'], rfl, hnumeral⟩
  · have hmarkers : "0x0x1".toList = marked 2 ['1'] := rfl
    exact not_behind_of_marked (Word.not_numeral_marked 1) (Word.not_numeral_marked 1)
      Nat.one_lt_two hmarkers hnumeral
  · rw [uint64?_eq_some_iff]
    exact ⟨1, Nat.le_refl 1, ['+', '1'], rfl, by decide, .inr ⟨['1'], rfl, by decide, hone⟩⟩
  · -- what stands behind the marker is no digits because of its sign
    rintro ⟨j, hj, rest, htext, hrest⟩
    obtain ⟨_, rfl⟩ := marked_inj (P := fun text => text = ['+', '1']) (Q := (Denotes · 1))
      (i := 1) (fun _ h => nomatch h) (fun _ => not_denotes_marked _ _) htext rfl hrest
    exact not_denotes_plus _ _ hrest

end Fixture

end Evm
