import Mathlib.Data.List.Basic
import LuaSyntax.Text.Basic
import LuaSyntax.Text.Utf8

/-!
# Bytes that are UTF-8

Each character is encoded by one to four bytes, and a row of bytes decodes to a text just when it is that text's
encoding. What a row of bytes is shown as is its decoding or, where there is none, the row of the characters that
have its bytes for numbers. The first tells different rows apart and so does the second, but one row may be shown in
the first way as another is in the second.
-/

namespace LuaSyntax.Utf8

variable {bytes bytes' : List UInt8} {text : Text}

/-! ## Numbers of characters and of bytes -/

/-- Every character is below the end of the code points. -/
theorem toNat_lt (c : Char) : c.toNat < 0x110000 := by
  rcases c.valid with h | h
  · exact Nat.lt_trans h (by decide)
  · exact h.2

/-- A number below 256 is kept by its byte. -/
theorem toNat_ofNat {value : Nat} (h : value < 256) : (UInt8.ofNat value).toNat = value :=
  UInt8.toNat_ofNat_of_lt' h

/-- The byte of a byte's number is that byte. -/
theorem ofNat_eq {value : Nat} {byte : UInt8} (h : value = byte.toNat) : UInt8.ofNat value = byte := by
  rw [h, UInt8.ofNat_toNat]

/-- The tails are the bytes from 128 to 191. -/
theorem isTail_iff {byte : UInt8} : isTail byte = true ↔ 0x80 ≤ byte.toNat ∧ byte.toNat < 0xC0 := by
  simp [isTail, UInt8.le_iff_toNat_le, UInt8.lt_iff_toNat_lt]

/-! ## Characters of one to four bytes

What the bytes of a character are told by is their own number of them, so there is one pair of statements for each:
what such bytes decode to, and that they are what encodes it. -/

section
variable {a b c d : UInt8} {rest : List UInt8}

/-- One byte below 128 decodes to its character. -/
theorem decode?_one (ha : a.toNat < 0x80) :
    decode? (a :: rest) = (decode? rest).map (Char.ofNat a.toNat :: ·) := by
  rw [decode?.eq_def]
  exact if_pos ha

/-- Two bytes decode to the character of their bits. -/
theorem decode?_two (ha : 0xC2 ≤ a.toNat) (ha' : a.toNat < 0xE0) (hb : isTail b = true) :
    decode? (a :: b :: rest) =
      (decode? rest).map (Char.ofNat ((a.toNat - 0xC0) * 0x40 + tailBits b) :: ·) := by
  rw [decode?.eq_def]
  simp only [UInt8.lt_iff_toNat_lt, UInt8.reduceToNat, hb, Bool.not_true, Bool.false_or, decide_eq_true_eq]
  rw [if_neg (by omega), if_neg (by omega), if_pos ha']

/-- Three bytes decode to the character of their bits, if it needs three and is no surrogate. -/
theorem decode?_three (ha : 0xE0 ≤ a.toNat) (ha' : a.toNat < 0xF0) (hb : isTail b = true) (hc : isTail c = true)
    {code : Nat} (hcode : ((a.toNat - 0xE0) * 0x40 + tailBits b) * 0x40 + tailBits c = code)
    (hlong : 0x800 ≤ code) (hhalf : code < 0xD800 ∨ 0xE000 ≤ code) :
    decode? (a :: b :: c :: rest) = (decode? rest).map (Char.ofNat code :: ·) := by
  rw [decode?.eq_def]
  simp only [UInt8.lt_iff_toNat_lt, UInt8.reduceToNat, hb, hc, hcode, Bool.not_true, Bool.false_or,
    Bool.false_eq_true, if_false, decide_eq_true_eq, Bool.or_eq_true, Bool.and_eq_true]
  rw [if_neg (by omega), if_neg (by omega), if_neg (by omega), if_pos ha', if_neg (by omega)]

/-- Four bytes decode to the character of their bits, if it needs four and there is one. -/
theorem decode?_four (ha : 0xF0 ≤ a.toNat) (ha' : a.toNat < 0xF5) (hb : isTail b = true) (hc : isTail c = true)
    (hd : isTail d = true) {code : Nat}
    (hcode : (((a.toNat - 0xF0) * 0x40 + tailBits b) * 0x40 + tailBits c) * 0x40 + tailBits d = code)
    (hlong : 0x10000 ≤ code) (hlast : code < 0x110000) :
    decode? (a :: b :: c :: d :: rest) = (decode? rest).map (Char.ofNat code :: ·) := by
  rw [decode?.eq_def]
  simp only [UInt8.lt_iff_toNat_lt, UInt8.le_iff_toNat_le, UInt8.reduceToNat, hb, hc, hd, hcode, Bool.not_true,
    Bool.false_or, Bool.false_eq_true, if_false, decide_eq_true_eq, Bool.or_eq_true]
  rw [if_neg (by omega), if_neg (by omega), if_neg (by omega), if_neg (by omega), if_neg (by omega),
    if_neg (by omega)]

/-- The code of two bytes encodes to them. -/
theorem encode_two (ha : 0xC2 ≤ a.toNat) (ha' : a.toNat < 0xE0) (hb : isTail b = true) :
    encode ((a.toNat - 0xC0) * 0x40 + tailBits b) = [a, b] := by
  have hb' := isTail_iff.mp hb
  rw [tailBits, encode, if_neg (by omega), if_pos (by omega)]
  simp only [List.cons.injEq, and_true]
  exact ⟨ofNat_eq (by omega), ofNat_eq (by omega)⟩

/-- The code of three bytes encodes to them, if it needs three. -/
theorem encode_three (ha : 0xE0 ≤ a.toNat) (ha' : a.toNat < 0xF0) (hb : isTail b = true) (hc : isTail c = true)
    {code : Nat} (hcode : ((a.toNat - 0xE0) * 0x40 + tailBits b) * 0x40 + tailBits c = code)
    (hlong : 0x800 ≤ code) : encode code = [a, b, c] := by
  have hb' := isTail_iff.mp hb
  have hc' := isTail_iff.mp hc
  rw [tailBits, tailBits] at hcode
  rw [encode, if_neg (by omega), if_neg (by omega), if_pos (by omega)]
  simp only [List.cons.injEq, and_true]
  exact ⟨ofNat_eq (by omega), ofNat_eq (by omega), ofNat_eq (by omega)⟩

/-- The code of four bytes encodes to them, if it needs four. -/
theorem encode_four (ha : 0xF0 ≤ a.toNat) (hb : isTail b = true) (hc : isTail c = true)
    (hd : isTail d = true) {code : Nat}
    (hcode : (((a.toNat - 0xF0) * 0x40 + tailBits b) * 0x40 + tailBits c) * 0x40 + tailBits d = code)
    (hlong : 0x10000 ≤ code) : encode code = [a, b, c, d] := by
  have hb' := isTail_iff.mp hb
  have hc' := isTail_iff.mp hc
  have hd' := isTail_iff.mp hd
  rw [tailBits, tailBits, tailBits] at hcode
  rw [encode, if_neg (by omega), if_neg (by omega), if_neg (by omega)]
  simp only [List.cons.injEq, and_true]
  exact ⟨ofNat_eq (by omega), ofNat_eq (by omega), ofNat_eq (by omega), ofNat_eq (by omega)⟩

end

/-! ## Texts -/

/-- Characters are encoded as everywhere else; only the code points that are no characters are extra. -/
theorem encode_toNat (c : Char) : encode c.toNat = String.utf8EncodeChar c := by
  have hlt := toNat_lt c
  simp only [encode, String.utf8EncodeChar]
  rw [show c.val.toNat = c.toNat from rfl]
  generalize c.toNat = code at hlt ⊢
  by_cases h1 : code < 0x80
  · rw [if_pos h1, if_pos (show code ≤ 127 by omega)]
  rw [if_neg h1, if_neg (show ¬ code ≤ 127 by omega)]
  by_cases h2 : code < 0x800
  · rw [if_pos h2, if_pos (show code ≤ 2047 by omega)]
    simp only [List.cons.injEq, and_true]
    exact ⟨congrArg _ (by omega), congrArg _ (by omega)⟩
  rw [if_neg h2, if_neg (show ¬ code ≤ 2047 by omega)]
  by_cases h3 : code < 0x10000
  · rw [if_pos h3, if_pos (show code ≤ 65535 by omega)]
    simp only [List.cons.injEq, and_true]
    exact ⟨congrArg _ (by omega), congrArg _ (by omega), congrArg _ (by omega)⟩
  · rw [if_neg h3, if_neg (show ¬ code ≤ 65535 by omega)]
    simp only [List.cons.injEq, and_true]
    exact ⟨congrArg _ (by omega), congrArg _ (by omega), congrArg _ (by omega), congrArg _ (by omega)⟩

/-- The bytes of a character decode to it, whatever follows them. -/
theorem decode?_encode_append (c : Char) (rest : List UInt8) :
    decode? (encode c.toNat ++ rest) = (decode? rest).map (c :: ·) := by
  have hlt := toNat_lt c
  have hvalid : c.toNat < 0xD800 ∨ 0xDFFF < c.toNat ∧ c.toNat < 0x110000 := c.valid
  have hc := Char.ofNat_toNat c
  generalize c.toNat = code at hlt hc hvalid ⊢
  subst hc
  rw [encode]
  have htail (value : Nat) : (UInt8.ofNat (0x80 + value % 0x40)).toNat = 0x80 + value % 0x40 :=
    toNat_ofNat (by omega)
  split
  · have ha := toNat_ofNat (show code < 256 by omega)
    refine (decode?_one (by omega)).trans ?_
    rw [ha]
    rfl
  split
  · have ha := toNat_ofNat (show 0xC0 + code / 0x40 < 256 by omega)
    have hb := htail code
    refine (decode?_two (by omega) (by omega) (isTail_iff.mpr (by omega))).trans ?_
    rw [ha, tailBits, hb, show (0xC0 + code / 0x40 - 0xC0) * 0x40 + (0x80 + code % 0x40) % 0x40 = code by omega]
    rfl
  split
  · have ha := toNat_ofNat (show 0xE0 + code / 0x1000 < 256 by omega)
    have hb := htail (code / 0x40)
    have hc := htail code
    refine decode?_three (by omega) (by omega) (isTail_iff.mpr (by omega)) (isTail_iff.mpr (by omega)) ?_
      (by omega) (by omega)
    rw [ha, tailBits, tailBits, hb, hc]
    omega
  · have ha := toNat_ofNat (show 0xF0 + code / 0x40000 < 256 by omega)
    have hb := htail (code / 0x1000)
    have hc := htail (code / 0x40)
    have hd := htail code
    refine decode?_four (by omega) (by omega) (isTail_iff.mpr (by omega)) (isTail_iff.mpr (by omega))
      (isTail_iff.mpr (by omega)) ?_ (by omega) (by omega)
    rw [ha, tailBits, tailBits, tailBits, hb, hc, hd]
    omega

/-- The encoding of a text decodes to it. -/
theorem decode?_flatMap (text : Text) : decode? (text.flatMap String.utf8EncodeChar) = some text := by
  induction text with
  | nil => rfl
  | cons c text ih => rw [List.flatMap_cons, ← encode_toNat, decode?_encode_append, ih, Option.map_some]

/-- A character keeps its code. -/
theorem toNat_charOfNat {code : Nat} (h : code.isValidChar) : (Char.ofNat code).toNat = code := by
  rw [Char.ofNat, dif_pos h]
  rfl

/-- A text whose first character is given by its bytes. -/
theorem flatMap_of_first {rest : List UInt8} {code : Nat} (hvalid : code.isValidChar)
    (h : (decode? rest).map (Char.ofNat code :: ·) = some text)
    (ih : ∀ {text : Text}, decode? rest = some text → text.flatMap String.utf8EncodeChar = rest) :
    text.flatMap String.utf8EncodeChar = encode code ++ rest := by
  obtain ⟨others, hothers, rfl⟩ := Option.map_eq_some_iff.mp h
  rw [List.flatMap_cons, ih hothers, ← encode_toNat, toNat_charOfNat hvalid]

/-- Bytes that decode to a text are its encoding. -/
theorem flatMap_of_decode? (h : decode? bytes = some text) : text.flatMap String.utf8EncodeChar = bytes := by
  fun_induction decode? bytes generalizing text with
  | case1 =>
    cases h
    rfl
  | case2 a rest ha ih =>
    have ha' : a.toNat < 0x80 := ha
    rw [flatMap_of_first (.inl (by omega)) h ih, encode, if_pos ha', UInt8.ofNat_toNat]
    rfl
  | case5 a ha b rest hb ha' ih =>
    simp only [Bool.or_eq_true, Bool.not_eq_true', Bool.not_eq_false, decide_eq_true_eq, not_or,
      UInt8.lt_iff_toNat_lt, UInt8.reduceToNat] at hb ha ha'
    have hb' := isTail_iff.mp hb.1
    rw [flatMap_of_first (.inl (by rw [tailBits]; omega)) h ih, encode_two (by omega) (by omega) hb.1]
    rfl
  | case9 a ha b hb ha' c rest hc ha'' code hcode =>
    rename_i ih
    simp only [Bool.or_eq_true, Bool.and_eq_true, Bool.not_eq_true', Bool.not_eq_false, decide_eq_true_eq, not_or,
      UInt8.lt_iff_toNat_lt, UInt8.reduceToNat] at hb ha ha' hc ha'' hcode
    have hlt : code < 0x10000 := by
      simp only [code, tailBits]
      omega
    rw [flatMap_of_first (show code.isValidChar by simp only [Nat.isValidChar]; omega) h ih,
      encode_three (by omega) (by omega) hb.1 hc rfl (by omega)]
    rfl
  | case13 a ha b hb ha' c hc ha'' d rest hd code hcode =>
    rename_i ih
    simp only [Bool.or_eq_true, Bool.not_eq_true', Bool.not_eq_false, decide_eq_true_eq, not_or,
      UInt8.lt_iff_toNat_lt, UInt8.reduceToNat] at hb ha ha' hc ha'' hd hcode
    rw [flatMap_of_first (.inr (by omega)) h ih, encode_four (by omega) hb.1 hc hd.1 rfl (by omega)]
    rfl
  | _ => cases h

/-- A row of bytes decodes to a text just when it is the encoding of that text. -/
theorem decode?_eq_some_iff : decode? bytes = some text ↔ bytes = text.flatMap String.utf8EncodeChar := by
  constructor
  · intro h
    exact (flatMap_of_decode? h).symm
  · rintro rfl
    exact decode?_flatMap text

/-! ## What bytes are shown as -/

/-- The characters that have some bytes for numbers. -/
def bytewise (bytes : List UInt8) : Text := bytes.map fun byte => Char.ofNat byte.toNat

/-- Bytes taken one by one make different texts. -/
theorem bytewise_injective : Function.Injective bytewise := by
  refine List.map_injective_iff.mpr fun byte byte' h => ?_
  have hvalid (byte : UInt8) : byte.toNat.isValidChar := .inl (Nat.lt_trans byte.toNat_lt (by decide))
  have hnumber := congrArg Char.toNat h
  rw [toNat_charOfNat (hvalid byte), toNat_charOfNat (hvalid byte')] at hnumber
  exact UInt8.toNat_inj.mp hnumber

/-- Bytes that decode are readable as their text. -/
theorem readable_of_decode? (h : decode? bytes = some text) : readable bytes = text := by
  rw [readable, h, Option.getD_some]

/-- Bytes that do not decode are readable one by one. -/
theorem readable_of_none (h : decode? bytes = none) : readable bytes = bytewise bytes := by
  rw [readable, h, Option.getD_none, bytewise]

/-- Whether one row of bytes encodes the text as which another, that encodes none, is shown. -/
def Mistaken (bytes bytes' : List UInt8) : Prop :=
  decode? bytes = none ∧ bytes' = (bytewise bytes).flatMap String.utf8EncodeChar

/-- Bytes that are mistaken for others are readable as the same text. -/
theorem Mistaken.readable_eq (h : Mistaken bytes bytes') : readable bytes = readable bytes' := by
  rw [readable_of_none h.1, readable_of_decode? (decode?_eq_some_iff.mpr h.2)]

/-- Two rows of bytes are shown alike just when they are the same or one can be mistaken for the other. -/
theorem readable_eq_iff :
    readable bytes = readable bytes' ↔ bytes = bytes' ∨ Mistaken bytes bytes' ∨ Mistaken bytes' bytes := by
  constructor
  · intro h
    cases hd : decode? bytes with
    | some text =>
      have hbytes := decode?_eq_some_iff.mp hd
      rw [readable_of_decode? hd] at h
      cases hd' : decode? bytes' with
      | some text' =>
        rw [readable_of_decode? hd'] at h
        exact .inl (by rw [hbytes, h, ← decode?_eq_some_iff.mp hd'])
      | none =>
        rw [readable_of_none hd'] at h
        exact .inr (.inr ⟨hd', h ▸ hbytes⟩)
    | none =>
      rw [readable_of_none hd] at h
      cases hd' : decode? bytes' with
      | some text' =>
        rw [readable_of_decode? hd'] at h
        exact .inr (.inl ⟨hd, h ▸ decode?_eq_some_iff.mp hd'⟩)
      | none =>
        rw [readable_of_none hd'] at h
        exact .inl (bytewise_injective h)
  · rintro (rfl | h | h)
    · rfl
    · exact h.readable_eq
    · exact h.readable_eq.symm

end LuaSyntax.Utf8
