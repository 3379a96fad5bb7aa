import Evm.Proofs.Bytes
import Evm.RevertReason

/-! # What a revert payload says

    The payload of a revert comes from the contract that failed, so nothing
    about it can be taken for granted: the head word may point anywhere, and
    the length found there may be anything.

    `CarriesText` says which payloads hold a text and which text it is. They
    are read as that text and no others are: a payload that holds neither a
    text nor a panic is shown in hexadecimal, with all its bytes. The
    canonical encoding of a text is one of the payloads that hold it.
-/

namespace Evm.RevertReason

/-! ## Sizes -/

/-- A whole word of the bytes starts at the offset, and it spells a number
    that 32 bits hold. -/
def IsSizeAt (b : Bytes) (offset n : Nat) : Prop :=
  offset + 32 ≤ b.size ∧ Bytes.number b offset 32 = n ∧ n < 2 ^ 32

theorem sizeAt?_eq_some_iff {b : Bytes} {offset n : Nat} :
    sizeAt? b offset = some n ↔ IsSizeAt b offset n := by
  have hword : (Word.ofBytesAt (b.extract offset (offset + 32)) 0).toNat =
      Bytes.number b offset 32 := by
    rw [Word.toNat_ofBytesAt, Bytes.number_extract b (by omega), Nat.add_zero]
  unfold sizeAt? IsSizeAt
  by_cases hinside : offset + 32 ≤ b.size
  · have hslice : Bytes.slice? b offset (offset + 32) = some (b.extract offset (offset + 32)) :=
      Bytes.slice?_eq_some_iff.mpr ⟨Nat.le_add_right _ _, hinside, rfl⟩
    rw [hslice, Option.bind_eq_bind, Option.bind_some, Word.toIndex?, hword]
    by_cases hsmall : Bytes.number b offset 32 ≤ 0xffffffff
    · rw [if_pos hsmall, Option.some.injEq]
      exact ⟨fun h => ⟨hinside, h, by omega⟩, fun h => h.2.1⟩
    · rw [if_neg hsmall]
      exact ⟨nofun, fun h => by omega⟩
  · have hslice : Bytes.slice? b offset (offset + 32) = none := if_neg fun h => hinside h.2
    rw [hslice]
    exact ⟨nofun, fun h => absurd h.1 hinside⟩

/-- Behind the selector everything stands four bytes further on. -/
theorem isSizeAt_body {output : Bytes} {offset n : Nat} :
    IsSizeAt (output.extract 4 output.size) offset n ↔ IsSizeAt output (4 + offset) n := by
  have hsize : (output.extract 4 output.size).size = output.size - 4 := by
    rw [ByteArray.size_extract, Nat.min_self]
  unfold IsSizeAt
  rw [hsize]
  constructor
  · rintro ⟨hinside, hn, hlt⟩
    rw [Bytes.number_extract output (by omega)] at hn
    exact ⟨by omega, hn, hlt⟩
  · rintro ⟨hinside, hn, hlt⟩
    rw [Bytes.number_extract output (by omega)]
    exact ⟨by omega, hn, hlt⟩

/-! ## Texts -/

theorem fromUTF8?_eq_some_iff {b : Bytes} {text : String} :
    String.fromUTF8? b = some text ↔ text.toUTF8 = b := by
  constructor
  · intro h
    unfold String.fromUTF8? at h
    split at h
    · cases h
      rfl
    · cases h
  · rintro rfl
    unfold String.fromUTF8?
    rw [String.toUTF8_eq_toByteArray, dif_pos text.isValidUTF8]
    rfl

theorem decodeText?_eq_some_iff {body : Bytes} {text : String} :
    decodeText? body = some text ↔
      ∃ offset length, IsSizeAt body 0 offset ∧ IsSizeAt body offset length ∧
        offset + 32 + length ≤ body.size ∧
        text.toUTF8 = body.extract (offset + 32) (offset + 32 + length) := by
  simp only [decodeText?, Option.bind_eq_bind, Option.bind_eq_some_iff, sizeAt?_eq_some_iff,
    Bytes.slice?_eq_some_iff, fromUTF8?_eq_some_iff]
  constructor
  · rintro ⟨offset, ho, length, hl, bytes, ⟨-, hinside, rfl⟩, htext⟩
    exact ⟨offset, length, ho, hl, hinside, htext⟩
  · rintro ⟨offset, length, ho, hl, hinside, htext⟩
    exact ⟨offset, ho, length, hl, _, ⟨Nat.le_add_right _ _, hinside, rfl⟩, htext⟩

/-! ## Payloads -/

/-- The first four bytes are there and spell the selector. -/
def StartsWith (selector : Nat) (output : Bytes) : Prop :=
  4 ≤ output.size ∧ Bytes.number output 0 4 = selector

/-- **The payload holds a text**: behind the selector of errors, the head word
    is a size and says where the length is, the length is a size, and the
    bytes after it, as many as it says, are all there and are the text in
    UTF-8. -/
def CarriesText (output : Bytes) (text : String) : Prop :=
  StartsWith errorSelector output ∧
    ∃ offset length, IsSizeAt output 4 offset ∧ IsSizeAt output (4 + offset) length ∧
      4 + offset + 32 + length ≤ output.size ∧
      text.toUTF8 = output.extract (4 + offset + 32) (4 + offset + 32 + length)

/-- The payload holds a panic: a whole word behind the selector of panics. -/
def CarriesPanic (output : Bytes) : Prop :=
  StartsWith panicSelector output ∧ 36 ≤ output.size

/-- The canonical encoding of a text: the selector, a head word that points
    behind itself, the length and the bytes, and any padding. -/
def encodeText (text : String) (padding : Bytes) : Bytes :=
  Bytes.ofNumber 0x08c379a0 4 ++ Bytes.ofNumber 32 32 ++ Bytes.ofNumber text.toUTF8.size 32 ++
    text.toUTF8 ++ padding

/-- The two lower-case digits of a byte. -/
def digitPair (x : UInt8) : List Char :=
  [Nat.digitChar (x.toNat / 16), Nat.digitChar (x.toNat % 16)]

/-- `0x` and the lower-case digits of all bytes. -/
def hexText (b : Bytes) : String :=
  String.ofList ('0' :: 'x' :: b.toList.flatMap digitPair)

theorem decodeText?_body_iff {output : Bytes} {text : String}
    (hstart : StartsWith errorSelector output) :
    decodeText? (output.extract 4 output.size) = some text ↔ CarriesText output text := by
  have hsize : (output.extract 4 output.size).size = output.size - 4 := by
    rw [ByteArray.size_extract, Nat.min_self]
  have hshift : ∀ offset length, 4 + offset + 32 + length ≤ output.size →
      (output.extract 4 output.size).extract (offset + 32) (offset + 32 + length) =
        output.extract (4 + offset + 32) (4 + offset + 32 + length) := by
    intro offset length hinside
    have hend : min (4 + (offset + 32 + length)) output.size = 4 + offset + 32 + length := by omega
    rw [ByteArray.extract_extract, hend, Nat.add_assoc 4 offset 32]
  have hfour : 4 ≤ output.size := hstart.1
  simp only [decodeText?_eq_some_iff, isSizeAt_body, hsize, Nat.add_zero]
  constructor
  · rintro ⟨offset, length, ho, hl, hinside, htext⟩
    rw [hshift offset length (by omega)] at htext
    exact ⟨hstart, offset, length, ho, hl, by omega, htext⟩
  · rintro ⟨-, offset, length, ho, hl, hinside, htext⟩
    rw [← hshift offset length hinside] at htext
    exact ⟨offset, length, ho, hl, by omega, htext⟩

/-- The canonical encoding holds its text. -/
theorem carriesText_encodeText {text : String} (padding : Bytes)
    (hsize : text.toUTF8.size < 2 ^ 32) : CarriesText (encodeText text padding) text := by
  have htotal : (encodeText text padding).size = 4 + 32 + 32 + text.toUTF8.size + padding.size := by
    simp only [encodeText, ByteArray.size_append, Bytes.size_ofNumber]
  -- the same bytes, split at the selector, at the head word and at the length
  have hselector : encodeText text padding =
      ByteArray.empty ++ Bytes.ofNumber 0x08c379a0 4 ++
        (Bytes.ofNumber 32 32 ++ Bytes.ofNumber text.toUTF8.size 32 ++ text.toUTF8 ++ padding) := by
    simp only [encodeText, ByteArray.empty_append, ByteArray.append_assoc]
  have hhead : encodeText text padding =
      Bytes.ofNumber 0x08c379a0 4 ++ Bytes.ofNumber 32 32 ++
        (Bytes.ofNumber text.toUTF8.size 32 ++ text.toUTF8 ++ padding) := by
    simp only [encodeText, ByteArray.append_assoc]
  have hlength : encodeText text padding =
      (Bytes.ofNumber 0x08c379a0 4 ++ Bytes.ofNumber 32 32) ++
        Bytes.ofNumber text.toUTF8.size 32 ++ (text.toUTF8 ++ padding) := by
    simp only [encodeText, ByteArray.append_assoc]
  have hfront : (Bytes.ofNumber 0x08c379a0 4 ++ Bytes.ofNumber 32 32).size = 36 := by
    simp only [ByteArray.size_append, Bytes.size_ofNumber]
  refine ⟨⟨by omega, ?_⟩, 32, text.toUTF8.size, ⟨by omega, ?_, by omega⟩, ⟨by omega, ?_, hsize⟩,
    by omega, ?_⟩
  · rw [hselector]
    exact Bytes.number_ofNumber_middle _ _ rfl (by decide)
  · rw [hhead]
    exact Bytes.number_ofNumber_middle _ _ (Bytes.size_ofNumber _ _) (by omega)
  · rw [hlength]
    exact Bytes.number_ofNumber_middle _ _ hfront (by omega)
  · have hmiddle := Bytes.extract_middle text.toUTF8 padding
      (Bytes.ofNumber 0x08c379a0 4 ++ Bytes.ofNumber 32 32 ++ Bytes.ofNumber text.toUTF8.size 32)
    rw [ByteArray.size_append, hfront, Bytes.size_ofNumber] at hmiddle
    exact hmiddle.symm

/-! ## Hexadecimal digits -/

theorem digit_eq_digitChar : ∀ n < 16, Text.Hex.digit n = Nat.digitChar n := by decide

theorem toList_foldl_pushByte (l : List UInt8) (s : String) :
    (l.foldl Text.Hex.pushByte s).toList = s.toList ++ l.flatMap digitPair := by
  induction l generalizing s with
  | nil => simp
  | cons x l ih =>
    have hx : x.toNat < 256 := x.toNat_lt
    rw [List.foldl_cons, ih, Text.Hex.pushByte, String.toList_push, String.toList_push,
      digit_eq_digitChar _ (by omega), digit_eq_digitChar _ (by omega), List.flatMap_cons]
    simp [digitPair]

theorem encodeMarked_eq_hexText (b : Bytes) : Text.Hex.encodeMarked b = hexText b := by
  apply String.toList_inj.mp
  rw [Text.Hex.encodeMarked, hexText, String.toList_append, Text.Hex.encode,
    toList_foldl_pushByte]
  simp

/-! ## Decoding -/

theorem decode_eq_none_iff (output : Bytes) : decode output = none ↔ output.size = 0 := by
  unfold decode Bytes.isEmpty
  by_cases hempty : output.size = 0
  · simp [hempty]
  · simp only [beq_iff_eq, hempty, if_false, iff_false]
    split
    · simp
    · split
      · simp
      · split <;> simp

theorem decode_of_startsWith_error {output : Bytes} (hstart : StartsWith errorSelector output) :
    decode output =
      some ((decodeText? (output.extract 4 output.size)).getD (hexText output)) := by
  have hempty : ¬output.isEmpty = true := by
    simp only [Bytes.isEmpty, beq_iff_eq]
    exact fun h => absurd hstart.1 (by omega)
  rw [decode, if_neg hempty, encodeMarked_eq_hexText]
  simp only [if_neg (Nat.not_lt.mpr hstart.1), if_pos hstart.2]

theorem decode_of_carriesText {output : Bytes} {text : String} (h : CarriesText output text) :
    decode output = some text := by
  rw [decode_of_startsWith_error h.1, (decodeText?_body_iff h.1).mpr h, Option.getD_some]

theorem decode_eq_hexText {output : Bytes} (hsome : 0 < output.size)
    (htext : ∀ text, ¬CarriesText output text) (hpanic : ¬CarriesPanic output) :
    decode output = some (hexText output) := by
  by_cases herror : StartsWith errorSelector output
  · -- the selector of errors, and no text behind it
    have hnone : decodeText? (output.extract 4 output.size) = none :=
      Option.eq_none_iff_forall_ne_some.mpr fun text h =>
        htext text ((decodeText?_body_iff herror).mp h)
    rw [decode_of_startsWith_error herror, hnone, Option.getD_none]
  · have hempty : ¬output.isEmpty = true := by
      simp only [Bytes.isEmpty, beq_iff_eq]
      omega
    rw [decode, if_neg hempty, encodeMarked_eq_hexText]
    -- neither of the selectors, or not all of a panic
    by_cases hshort : output.size < 4
    · simp only [if_pos hshort]
    · have hselector : ¬Bytes.number output 0 4 = errorSelector := fun h =>
        herror ⟨Nat.le_of_not_lt hshort, h⟩
      have hword : ¬(Bytes.number output 0 4 = panicSelector ∧
          32 ≤ (output.extract 4 output.size).size) := by
        rintro ⟨h, hbody⟩
        rw [ByteArray.size_extract, Nat.min_self] at hbody
        exact hpanic ⟨⟨by omega, h⟩, by omega⟩
      simp only [if_neg hshort, if_neg hselector, if_neg hword]

/-- **Texts and nothing else are read as texts.** The encoding of a text, with
    any padding, is decoded to the text. A payload that holds a text is
    decoded to it, and a payload that holds neither a text nor a panic is shown
    with the digits of all its bytes. Only the empty payload has no reason. -/
theorem decode_reads_texts_alone :
    (∀ (text : String) (padding : Bytes), text.toUTF8.size ≤ 2 ^ 32 - 1 →
      decode (encodeText text padding) = some text) ∧
    (∀ (output : Bytes) (text : String), CarriesText output text → decode output = some text) ∧
    (∀ output : Bytes, 0 < output.size → (∀ text, ¬CarriesText output text) →
      ¬CarriesPanic output → decode output = some (hexText output)) ∧
    (∀ output : Bytes, decode output = none ↔ output.size = 0) := by
  refine ⟨?_, ?_, ?_, decode_eq_none_iff⟩
  · intro text padding hsize
    exact decode_of_carriesText (carriesText_encodeText padding (by omega))
  · intro output text h
    exact decode_of_carriesText h
  · intro output hsome htext hpanic
    exact decode_eq_hexText hsome htext hpanic

/-- A text with padding, a payload whose head word points at itself, and a
    payload that stops inside its head word. -/
theorem decode_reads_texts_alone_samples :
    decode (encodeText "low balance" (Bytes.zeros 21)) = some "low balance" ∧
    decode (Bytes.ofNumber 0x08c379a0 4 ++ Bytes.zeros 32) = some "" ∧
    decode (Bytes.ofList [0x08, 0xc3, 0x79, 0xa0, 0x00]) = some "0x08c379a000" := by
  obtain ⟨hencoded, hcarried, hshown, -⟩ := decode_reads_texts_alone
  refine ⟨hencoded _ _ (by decide), hcarried _ _ ?_, hshown _ (by decide) ?_ ?_⟩
  · exact ⟨⟨by decide, by decide⟩, 0, 0, ⟨by decide, by decide, by decide⟩,
      ⟨by decide, by decide, by decide⟩, by decide, by decide⟩
  · rintro text ⟨-, offset, length, ⟨hinside, -⟩, -⟩
    exact absurd hinside (by decide)
  · rintro ⟨-, hlong⟩
    exact absurd hlong (by decide)

end Evm.RevertReason
