import Mathlib.Algebra.GroupWithZero.Nat
import LuaSyntax.Proofs.Text.Scan
import LuaSyntax.Proofs.Text.Utf8
import LuaSyntax.Text.Digit
import LuaSyntax.Text.NameCharacter

/-!
# The bytes of a text

A text occupies bytes, and a reader of bytes sees one byte at a time where a reader of characters sees a character.
For the characters that mean something to the language there is no difference: they are ASCII, so each is one byte
and no other byte has its number. Every byte of another character is beyond ASCII.

A byte is looked at as the character that has its number, so that readers of bytes can tell what they see in the
words of readers of characters. `Text.latin` is a text seen in that way.

## Main statements

- `Text.Uniform.any_front`: a test for ASCII cannot tell the first byte of a text from its first character.
- `Text.takeWhile_latin`: neither can a run that stops only at ASCII, or only beyond it.
- `Text.cuts_iff`: the offsets of bytes that go on with no character are those between two characters.
- `Text.slice?_of_parts`, `Text.snippet?_of_parts`: what is cut out of a text between two such offsets.
-/

namespace LuaSyntax

namespace Utf8

/-- A character begins with a byte that goes on with none, and all its other bytes go on with it. -/
theorem encode_parts (c : Char) : ∃ lead tails, String.utf8EncodeChar c = lead :: tails ∧ isTail lead = false ∧
    (∀ byte ∈ tails, isTail byte = true) ∧
    (c.toNat < 0x80 ∧ lead.toNat = c.toNat ∧ tails = [] ∨ 0x80 ≤ c.toNat ∧ 0xC0 ≤ lead.toNat) := by
  have hlt := toNat_lt c
  rw [← encode_toNat]
  generalize c.toNat = code at hlt ⊢
  have htail (value : Nat) : isTail (UInt8.ofNat (0x80 + value % 0x40)) = true := by
    rw [isTail_iff, toNat_ofNat (by omega)]
    omega
  have hlead {value : Nat} (h : 0xC0 ≤ value) (h' : value < 256) :
      isTail (UInt8.ofNat value) = false ∧ 0xC0 ≤ (UInt8.ofNat value).toNat := by
    rw [← Bool.not_eq_true, isTail_iff, toNat_ofNat h']
    omega
  rw [encode]
  split
  · next h =>
    have hcode : (UInt8.ofNat code).toNat = code := toNat_ofNat (by omega)
    refine ⟨_, _, rfl, ?_, List.forall_mem_nil _, .inl ⟨h, hcode, rfl⟩⟩
    rw [← Bool.not_eq_true, isTail_iff, hcode]
    omega
  split
  · next h _ =>
    obtain ⟨hfirst, hbeyond⟩ := hlead (show 0xC0 ≤ 0xC0 + code / 0x40 by omega) (by omega)
    exact ⟨_, _, rfl, hfirst, List.forall_mem_singleton.mpr (htail _), .inr ⟨by omega, hbeyond⟩⟩
  split
  · obtain ⟨hfirst, hbeyond⟩ := hlead (show 0xC0 ≤ 0xE0 + code / 0x1000 by omega) (by omega)
    exact ⟨_, _, rfl, hfirst, List.forall_mem_cons.mpr ⟨htail _, List.forall_mem_singleton.mpr (htail _)⟩,
      .inr ⟨by omega, hbeyond⟩⟩
  · obtain ⟨hfirst, hbeyond⟩ := hlead (show 0xC0 ≤ 0xF0 + code / 0x40000 by omega) (by omega)
    refine ⟨_, _, rfl, hfirst, List.forall_mem_cons.mpr ⟨htail _, List.forall_mem_cons.mpr ⟨htail _, ?_⟩⟩,
      .inr ⟨by omega, hbeyond⟩⟩
    exact List.forall_mem_singleton.mpr (htail _)

end Utf8

namespace Text

/-! ## Bytes as characters -/

/-- The bytes that a text occupies. -/
def bytes (text : Text) : List UInt8 := text.flatMap String.utf8EncodeChar

/-- The bytes of a text, each as the character that has its number. -/
def latin (text : Text) : Text := Utf8.bytewise text.bytes

/-- The first byte of a character, as the character that has its number. -/
def front (c : Char) : Char := (latin [c]).headD c

/-- Whether a test holds of no character beyond ASCII. -/
def Ascii (p : Char → Bool) : Prop := ∀ c, 0x80 ≤ c.toNat → p c = false

/-- Whether something does not tell apart the characters beyond ASCII. -/
def Uniform {β : Type} (f : Char → β) : Prop := ∀ c d, 0x80 ≤ c.toNat → 0x80 ≤ d.toNat → f c = f d

/-- An ASCII kind does not tell apart the characters beyond it. -/
theorem Ascii.uniform {p : Char → Bool} (h : Ascii p) : Uniform p := fun c d hc hd => (h c hc).trans (h d hd).symm

/-- What is not of an ASCII kind does not tell apart the characters beyond it. -/
theorem Ascii.uniform_not {p : Char → Bool} (h : Ascii p) : Uniform fun c => !p c :=
  fun c d hc hd => congrArg _ (h.uniform c d hc hd)

/-- A character of an ASCII kind is below 128. -/
theorem Ascii.lt {p : Char → Bool} (h : Ascii p) {c : Char} (hc : p c = true) : c.toNat < 0x80 := by
  by_contra hge
  rw [h c (by omega)] at hc
  cases hc

variable {text before behind rest : Text} {c d : Char} {p : Char → Bool} {count : Nat}

/-- The bytes of two texts are those of both together. -/
theorem bytes_append (a b : Text) : bytes (a ++ b) = bytes a ++ bytes b := List.flatMap_append

/-- A text has as many bytes as its size says. -/
@[simp] theorem length_bytes (text : Text) : text.bytes.length = text.size := by
  induction text with
  | nil => rfl
  | cons c text ih =>
    rw [bytes, List.flatMap_cons, List.length_append, String.length_utf8EncodeChar, size_cons, ← ih, bytes]

/-- The bytes of two texts read as characters are those of both together. -/
theorem latin_append (a b : Text) : latin (a ++ b) = latin a ++ latin b := by
  rw [latin, bytes_append, Utf8.bytewise, List.map_append]
  rfl

/-- The bytes of a text read as characters begin with those of its first character. -/
theorem latin_cons (c : Char) (text : Text) : latin (c :: text) = latin [c] ++ latin text := latin_append [c] text

/-- A text has as many bytes read as characters as its size says. -/
@[simp] theorem length_latin (text : Text) : text.latin.length = text.size := by
  rw [latin, Utf8.bytewise, List.length_map, length_bytes]

/-- A byte read as a character keeps its number. -/
theorem toNat_charOfNat (byte : UInt8) : (Char.ofNat byte.toNat).toNat = byte.toNat :=
  Utf8.toNat_charOfNat (.inl (Nat.lt_trans byte.toNat_lt (by decide)))

/-- A character of ASCII is its own byte. -/
theorem latin_of_lt (h : c.toNat < 0x80) : latin [c] = [c] := by
  obtain ⟨lead, tails, heq, -, -, ⟨-, hlead, rfl⟩ | ⟨hge, -⟩⟩ := Utf8.encode_parts c
  · rw [latin, bytes, List.flatMap_singleton, heq]
    simp [Utf8.bytewise, hlead]
  · omega

/-- All bytes of a character beyond ASCII are beyond ASCII. -/
theorem ge_of_mem_latin (h : 0x80 ≤ c.toNat) (hmem : d ∈ latin [c]) : 0x80 ≤ d.toNat := by
  obtain ⟨lead, tails, heq, -, htails, ⟨hlt, -⟩ | ⟨-, hlead⟩⟩ := Utf8.encode_parts c
  · omega
  · rw [latin, bytes, List.flatMap_singleton, heq, Utf8.bytewise, List.mem_map] at hmem
    obtain ⟨byte, hbyte, rfl⟩ := hmem
    rw [toNat_charOfNat]
    rcases List.mem_cons.mp hbyte with rfl | hbyte
    · omega
    · exact (Utf8.isTail_iff.mp (htails byte hbyte)).1

/-- A character below 128 is one byte. -/
theorem utf8Size_of_lt (h : c.toNat < 0x80) : c.utf8Size = 1 := by
  have hlength := length_latin [c]
  rwa [latin_of_lt h, List.length_singleton, size_cons, size_nil, Nat.add_zero, eq_comm] at hlength

/-- A text of ASCII is its own bytes. -/
theorem latin_of_forall_lt (h : ∀ c ∈ text, c.toNat < 0x80) : text.latin = text := by
  induction text with
  | nil => rfl
  | cons c rest ih =>
    obtain ⟨hc, hrest⟩ := List.forall_mem_cons.mp h
    rw [latin_cons, latin_of_lt hc, ih hrest, List.singleton_append]

/-- A text of ASCII has a byte for each character. -/
theorem size_of_forall_lt (h : ∀ c ∈ text, c.toNat < 0x80) : text.size = text.length := by
  rw [← length_latin, latin_of_forall_lt h]

/-- Every character has a byte. -/
theorem latin_ne_nil (c : Char) : latin [c] ≠ [] := by
  intro heq
  have hlength := length_latin [c]
  have hpos := c.utf8Size_pos
  rw [heq, size_cons, List.length_nil] at hlength
  omega

/-- The bytes of a character begin with its front. -/
theorem latin_eq_front (c : Char) : ∃ tails, latin [c] = front c :: tails := by
  rw [front]
  cases h : latin [c] with
  | nil => exact absurd h (latin_ne_nil c)
  | cons first tails => exact ⟨tails, rfl⟩

/-- The first byte of a text is the front of its first character. -/
theorem head?_latin (c : Char) (rest : Text) : (latin (c :: rest)).head? = some (front c) := by
  obtain ⟨tails, htails⟩ := latin_eq_front c
  rw [latin_cons, htails]
  rfl

/-- Behind a character of ASCII the second byte is the first of the next character. -/
theorem second_latin (h : c.toNat < 0x80) (rest : Text) : (latin (c :: rest))[1]? = rest.head?.map front := by
  rw [latin_cons, latin_of_lt h, List.singleton_append, List.getElem?_cons_succ, ← List.head?_eq_getElem?]
  cases rest with
  | nil => rfl
  | cons d rest => rw [head?_latin, List.head?_cons, Option.map_some]

/-- Behind two characters of ASCII the third byte is the first of the next character. -/
theorem third_latin (h : c.toNat < 0x80) (h' : d.toNat < 0x80) (rest : Text) :
    (latin (c :: d :: rest))[2]? = rest.head?.map front := by
  rw [latin_cons, latin_of_lt h, List.singleton_append, List.getElem?_cons_succ, second_latin h']

/-- A character below 128 is its own front. -/
theorem front_of_lt (h : c.toNat < 0x80) : front c = c := by rw [front, latin_of_lt h, List.headD_cons]

/-- The front of a character of several bytes is 128 or more. -/
theorem front_ge (h : 0x80 ≤ c.toNat) : 0x80 ≤ (front c).toNat := by
  obtain ⟨tails, htails⟩ := latin_eq_front c
  exact ge_of_mem_latin h (htails ▸ List.mem_cons_self)

/-- A test for ASCII does not tell the first byte of a character from the character. -/
theorem Uniform.front {β : Type} {f : Char → β} (h : Uniform f) (c : Char) : f (front c) = f c := by
  rcases Nat.lt_or_ge c.toNat 0x80 with hlt | hge
  · rw [front_of_lt hlt]
  · exact h _ _ (front_ge hge) hge

/-- To be one character below 128 is an ASCII kind. -/
theorem ascii_beq (h : d.toNat < 0x80) : Ascii (· == d) := by
  intro c hc
  rw [beq_eq_false_iff_ne]
  rintro rfl
  omega

/-- The first byte tells whether a character is one below 128. -/
theorem front_beq (h : d.toNat < 0x80) (c : Char) : (front c == d) = (c == d) := (ascii_beq h).uniform.front c

/-- A test for ASCII does not tell the first byte of a text from its first character. -/
theorem Uniform.any_front (h : Uniform p) (first : Option Char) : (first.map Text.front).any p = first.any p := by
  cases first with
  | none => rfl
  | some c => exact h.front c

/-- What the first byte tells is told of the next character, if there is one. -/
theorem Uniform.bind_front {β : Type} {f : Char → Option β} (h : Uniform f) (first : Option Char) :
    (first.map Text.front).bind f = first.bind f := by
  cases first with
  | none => rfl
  | some c => exact h.front c

/-- The first byte tells whether the next character is one below 128. -/
theorem map_front_beq (h : d.toNat < 0x80) (first : Option Char) :
    (first.map front == some d) = (first == some d) := by
  cases first with
  | none => rfl
  | some c => exact front_beq h c

/-- The first byte tells whether the next character is none below 128. -/
theorem map_front_bne (h : d.toNat < 0x80) (first : Option Char) :
    (first.map front != some d) = (first != some d) :=
  congrArg (!·) (map_front_beq h first)

/-- A run that stops only at ASCII, or only beyond it, takes the bytes of the characters that it takes. -/
theorem takeWhile_latin (h : Uniform p) (text : Text) : text.latin.takeWhile p = latin (text.takeWhile p) := by
  induction text with
  | nil => rfl
  | cons c rest ih =>
    rw [latin_cons]
    cases hc : p c with
    | true =>
      have hall : ∀ d ∈ latin [c], p d = true := by
        intro d hmem
        rcases Nat.lt_or_ge c.toNat 0x80 with hlt | hge
        · rw [latin_of_lt hlt] at hmem
          rwa [List.mem_singleton.mp hmem]
        · rwa [h d c (ge_of_mem_latin hge hmem) hge]
      rw [List.takeWhile_append_of_pos hall, ih, List.takeWhile_cons_of_pos hc]
      exact (latin_cons c _).symm
    | false =>
      obtain ⟨tails, htails⟩ := latin_eq_front c
      have hfront : ¬ p (front c) = true := by rw [h.front, hc]; exact Bool.false_ne_true
      rw [htails, List.cons_append, List.takeWhile_cons_of_neg hfront, List.takeWhile_cons_of_neg (by simp [hc])]
      rfl

/-! ## Classes of characters -/

/-- The ends of lines are an ASCII kind. -/
theorem ascii_isLineEnd : Ascii isLineEnd := by
  intro c hc
  have hbeq {d : Char} (h : d.toNat < 0x80) : (c == d) = false := ascii_beq h c hc
  rw [isLineEnd, hbeq (by decide), hbeq (by decide), Bool.or_false]

/-- Blanks are an ASCII kind. -/
theorem ascii_isBlank : Ascii isBlank := by
  intro c hc
  have hbeq {d : Char} (h : d.toNat < 0x80) : (c == d) = false := ascii_beq h c hc
  rw [isBlank, hbeq (by decide), hbeq (by decide), hbeq (by decide), hbeq (by decide)]
  rfl

/-- A character between two others has a number between theirs. -/
theorem toNat_of_le {low high : Char} (h : (decide (low ≤ c) && decide (c ≤ high)) = true) :
    low.toNat ≤ c.toNat ∧ c.toNat ≤ high.toNat := by
  rw [Bool.and_eq_true, decide_eq_true_eq, decide_eq_true_eq] at h
  exact ⟨UInt32.le_iff_toNat_le.mp h.1, UInt32.le_iff_toNat_le.mp h.2⟩

/-- The digits are the characters 48 to 57. -/
theorem toNat_of_isDigit (h : c.isDigit = true) : 48 ≤ c.toNat ∧ c.toNat ≤ 57 := by
  rw [Char.isDigit, Bool.and_eq_true, decide_eq_true_eq, decide_eq_true_eq] at h
  exact ⟨UInt32.le_iff_toNat_le.mp h.1, UInt32.le_iff_toNat_le.mp h.2⟩

/-- Digits are an ASCII kind. -/
theorem ascii_isDigit : Ascii Char.isDigit := by
  intro c hc
  by_contra h
  have hle := toNat_of_isDigit (Bool.not_eq_false _ ▸ h)
  omega

/-- Letters are an ASCII kind. -/
theorem ascii_isAlpha : Ascii Char.isAlpha := by
  intro c hc
  by_contra h
  have hcase : c.isUpper = true ∨ c.isLower = true := Bool.or_eq_true_iff.mp (Bool.not_eq_false _ ▸ h)
  have hle : c.toNat ≤ 122 := by
    rcases hcase with hupper | hlower
    · have hle : c.toNat ≤ 90 := UInt32.le_iff_toNat_le.mp (of_decide_eq_true hupper).2
      omega
    · exact UInt32.le_iff_toNat_le.mp (of_decide_eq_true (Bool.and_eq_true_iff.mp hlower).2)
  omega

/-- What begins a name without extended identifiers is an ASCII kind. -/
theorem ascii_isStart : Ascii (NameCharacter.isStart false) := by
  intro c hc
  have hline : (c == '_') = false := ascii_beq (by decide) c hc
  rw [NameCharacter.isStart, ascii_isAlpha c hc, hline]
  rfl

/-- What is part of a name without extended identifiers is an ASCII kind. -/
theorem ascii_isPart : Ascii (NameCharacter.isPart false) := by
  intro c hc
  rw [NameCharacter.isPart, ascii_isStart c hc, ascii_isDigit c hc]
  rfl

/-- The value of a digit is below 10. -/
theorem value_lt (h : c.isDigit = true) : Digit.value c < 10 := by
  have hle := toNat_of_isDigit h
  rw [Digit.value, show '0'.toNat = 48 from rfl]
  omega

/-- A hexadecimal digit is a character of ASCII and has a value below sixteen. -/
theorem lt_of_hex? {digit : Nat} (h : Digit.hex? c = some digit) : c.toNat < 0x80 ∧ digit < 16 := by
  rw [Digit.hex?] at h
  split at h
  · next hdigit =>
    cases h
    have hvalue := value_lt hdigit
    exact ⟨ascii_isDigit.lt hdigit, by omega⟩
  · split at h
    · next hlower =>
      obtain ⟨hle, hle'⟩ := toNat_of_le hlower
      rw [show 'a'.toNat = 97 from rfl] at hle h
      rw [show 'f'.toNat = 102 from rfl] at hle'
      cases h
      exact ⟨by omega, by omega⟩
    · split at h
      · next hupper =>
        obtain ⟨hle, hle'⟩ := toNat_of_le hupper
        rw [show 'A'.toNat = 65 from rfl] at hle h
        rw [show 'F'.toNat = 70 from rfl] at hle'
        cases h
        exact ⟨by omega, by omega⟩
      · cases h

/-- No character beyond ASCII differs from another in its value as a digit. -/
theorem uniform_hex? : Uniform Digit.hex? := by
  have hnone (c : Char) (hc : 0x80 ≤ c.toNat) : Digit.hex? c = none := by
    cases h : Digit.hex? c with
    | none => rfl
    | some digit =>
      have hlt := (lt_of_hex? h).1
      omega
  exact fun c d hc hd => (hnone c hc).trans (hnone d hd).symm

/-! ## Cuts -/

/-- Whether an offset is one between two characters: the end, or one of a byte that goes on with no character. -/
def cuts (source : Text) (offset : Nat) : Bool :=
  offset == source.bytes.length || source.bytes[offset]?.any fun byte => !(Utf8.isTail byte)

/-- Bytes behind a text are those of the text behind it. -/
theorem bytes_behind (before behind : Text) (count : Nat) :
    (before ++ behind).bytes[before.size + count]? = behind.bytes[count]? := by
  rw [bytes_append, List.getElem?_append_right (by simp), length_bytes, Nat.add_sub_cancel_left]

/-- Bytes read as characters behind a text are those of the text behind it. -/
theorem latin_behind (before behind : Text) (count : Nat) :
    (before ++ behind).latin[before.size + count]? = behind.latin[count]? := by
  rw [latin_append, List.getElem?_append_right (by simp), length_latin, Nat.add_sub_cancel_left]

/-- A text is cut behind another where it is cut by itself. -/
theorem cuts_behind (before behind : Text) (count : Nat) :
    (before ++ behind).cuts (before.size + count) = behind.cuts count := by
  rw [cuts, cuts, bytes_behind, bytes_append, List.length_append, length_bytes before]
  congr 1
  simp

/-- A text may be cut at its start. -/
@[simp] theorem cuts_zero (text : Text) : text.cuts 0 = true := by
  cases text with
  | nil => rfl
  | cons c rest =>
    obtain ⟨lead, tails, heq, hlead, -⟩ := Utf8.encode_parts c
    simp [cuts, bytes, heq, hlead]

/-- A character is not cut. -/
theorem cuts_inside (hpos : 0 < count) (hlt : count < c.utf8Size) : cuts (c :: rest) count = false := by
  obtain ⟨lead, tails, heq, -, htails, -⟩ := Utf8.encode_parts c
  have hlength := String.length_utf8EncodeChar c
  rw [heq, List.length_cons] at hlength
  obtain ⟨index, rfl⟩ : ∃ index, count = index + 1 := ⟨count - 1, by omega⟩
  have hindex : index < tails.length := by omega
  have hbyte : (bytes (c :: rest))[index + 1]? = some tails[index] := by
    rw [bytes, List.flatMap_cons, heq, List.cons_append, List.getElem?_cons_succ, List.getElem?_append_left hindex,
      List.getElem?_eq_getElem hindex]
  have hend : index + 1 ≠ (bytes (c :: rest)).length := by
    rw [length_bytes, size_cons]
    omega
  rw [cuts, hbyte, beq_eq_false_iff_ne.mpr hend, Option.any_some, htails _ (List.getElem_mem _)]
  rfl

/-- Behind its first character a text is cut where the rest is. -/
theorem cuts_cons (c : Char) (rest : Text) (count : Nat) :
    cuts (c :: rest) (c.utf8Size + count) = rest.cuts count := by
  have h := cuts_behind [c] rest count
  rwa [size_cons, size_nil, Nat.add_zero] at h

/-- The cuts are the offsets between two characters. -/
theorem cuts_iff {source : Text} {offset : Nat} : source.cuts offset = true ↔ source.IsBoundary offset := by
  constructor
  · intro h
    induction source generalizing offset with
    | nil =>
      obtain rfl : offset = 0 := by simpa [cuts, bytes] using h
      exact ⟨[], [], rfl, rfl⟩
    | cons c rest ih =>
      rcases Nat.lt_or_ge offset c.utf8Size with hlt | hge
      · rcases Nat.eq_zero_or_pos offset with rfl | hpos
        · exact ⟨[], c :: rest, rfl, rfl⟩
        · rw [cuts_inside hpos hlt] at h
          cases h
      · obtain ⟨count, rfl⟩ := Nat.exists_eq_add_of_le hge
        rw [cuts_cons] at h
        obtain ⟨before, behind, rfl, rfl⟩ := ih h
        exact ⟨c :: before, behind, rfl, rfl⟩
  · rintro ⟨before, behind, rfl, rfl⟩
    exact (cuts_behind before behind 0).trans (cuts_zero behind)

/-- The first cut that is not before an offset. -/
def ceil? (source : Text) (offset : Nat) : Option Nat :=
  (List.range' offset (source.bytes.length + 1 - offset)).find? source.cuts

/-- The last cut that is not behind an offset. -/
def floor? (source : Text) (offset : Nat) : Option Nat := (List.range (offset + 1)).reverse.find? source.cuts

/-- An offset where the text is cut is its own floor. -/
theorem floor?_of_cuts {source : Text} {offset : Nat} (h : source.cuts offset = true) :
    source.floor? offset = some offset := by
  rw [floor?, List.range_succ, List.reverse_append, List.reverse_singleton, List.singleton_append,
    List.find?_cons_of_pos h]

/-- No bytes cover no characters. -/
theorem covering_zero (text : Text) : covering 0 text = [] := by
  cases text with
  | nil => rfl
  | cons c rest => rw [covering, if_pos rfl]

/-- The characters that cover some bytes are the front of the text. -/
theorem covering_prefix (ahead : Nat) (text : Text) : covering ahead text <+: text := by
  induction text generalizing ahead with
  | nil => exact List.prefix_rfl
  | cons c rest ih =>
    rw [covering]
    split
    · exact List.nil_prefix
    · exact (List.prefix_cons_inj c).mpr (ih _)

/-- The characters that some bytes touch end at the first cut that is not before the last of these. -/
theorem covering_cuts (ahead : Nat) (text : Text) :
    min ahead text.size ≤ (covering ahead text).size ∧ (covering ahead text).size ≤ text.size ∧
      text.cuts (covering ahead text).size = true ∧
      ∀ count, min ahead text.size ≤ count → count < (covering ahead text).size → text.cuts count = false := by
  induction text generalizing ahead with
  | nil => simp [covering]
  | cons c rest ih =>
    rw [covering]
    split
    · next hzero => simp [hzero]
    · next hpos =>
      have hsize := c.utf8Size_pos
      obtain ⟨hle, hle', hcut, hno⟩ := ih (ahead - c.utf8Size)
      rw [size_cons, size_cons, cuts_cons]
      refine ⟨by omega, by omega, hcut, fun count hge hlt => ?_⟩
      rcases Nat.lt_or_ge count c.utf8Size with hinside | hbehind
      · exact cuts_inside (by omega) hinside
      · obtain ⟨others, rfl⟩ := Nat.exists_eq_add_of_le hbehind
        rw [cuts_cons]
        exact hno others (by omega) (by omega)

/-- Bytes ahead are rounded up to the characters that cover them. -/
theorem ceil?_of_parts (before behind : Text) (ahead : Nat) :
    (before ++ behind).ceil? (min (before.size + ahead) (before ++ behind).bytes.length) =
      some (before.size + (covering ahead behind).size) := by
  obtain ⟨hle, hle', hcut, hno⟩ := covering_cuts ahead behind
  rw [length_bytes, size_append, ceil?, length_bytes, size_append, List.find?_range'_eq_some, cuts_behind,
    List.mem_range'_1]
  refine ⟨hcut, by omega, fun offset hge hlt => ?_⟩
  obtain ⟨count, rfl⟩ := Nat.exists_eq_add_of_le (show before.size ≤ offset by omega)
  rw [cuts_behind, hno count (by omega) (by omega)]
  rfl

/-! ## Pieces -/

/-- The bytes between two offsets, if no character is cut there. An offset behind the end is no cut. -/
def piece? (source : Text) (start stop : Nat) : Option (List UInt8) :=
  if start ≤ stop && source.cuts start && source.cuts stop then
    some ((source.bytes.drop start).take (stop - start))
  else none

/-- The text between two offsets, if no character is cut there. -/
def slice? (source : Text) (start stop : Nat) : Option Text := (source.piece? start stop).bind Utf8.decode?

/-- The text between two offsets, if there is one, after they were moved to the end of the source if they are behind
it, and to cuts further apart if they are none. -/
def snippet? (source : Text) (start stop : Nat) : Option Text := do
  let stop ← source.ceil? (min stop source.bytes.length)
  let start ← source.floor? (min start stop)
  source.slice? start stop

/-- The column of an offset on the line that begins at another, if it can be counted. -/
def column? (source : Text) (lineStart offset : Nat) : Option Nat := do
  let stop ← source.floor? (min offset source.bytes.length)
  let line := (source.slice? (min lineStart stop) stop).getD []
  if line.length + 1 < 2 ^ 32 then some (line.length + 1) else none

/-- The bytes between two characters are those of the text between them. -/
theorem bytes_between (a b c : Text) :
    ((a ++ (b ++ c)).bytes.drop a.size).take (a.size + b.size - a.size) = b.bytes := by
  rw [Nat.add_sub_cancel_left, bytes_append, bytes_append, List.drop_left' (length_bytes a),
    List.take_left' (length_bytes b)]

/-- The piece between two characters is the bytes of the text between them. -/
theorem piece?_of_parts (a b c : Text) : (a ++ (b ++ c)).piece? a.size (a.size + b.size) = some b.bytes := by
  have hstart : (a ++ (b ++ c)).cuts a.size = true := (cuts_behind a (b ++ c) 0).trans (cuts_zero _)
  have hstop : (a ++ (b ++ c)).cuts (a.size + b.size) = true := by
    rw [cuts_behind]
    exact (cuts_behind b c 0).trans (cuts_zero c)
  rw [piece?, hstart, hstop, if_pos (by simp), bytes_between]

/-- The slice between two characters is the text between them. -/
theorem slice?_of_parts (a b c : Text) : (a ++ (b ++ c)).slice? a.size (a.size + b.size) = some b := by
  rw [slice?, piece?_of_parts, Option.bind_some]
  exact Utf8.decode?_flatMap b

/-- What is shown of a source from the beginning of a piece to some bytes behind it. -/
theorem snippet?_of_parts (a b c : Text) (ahead : Nat) :
    (a ++ (b ++ c)).snippet? a.size (a.size + b.size + ahead) = some (b ++ covering ahead c) := by
  have hceil := ceil?_of_parts (a ++ b) c ahead
  rw [size_append, List.append_assoc] at hceil
  have hcut : (a ++ (b ++ c)).cuts a.size = true := (cuts_behind a (b ++ c) 0).trans (cuts_zero _)
  obtain ⟨others, hothers⟩ := covering_prefix ahead c
  rw [snippet?, hceil, Option.bind_eq_bind, Option.bind_some, Nat.min_eq_left (by omega), floor?_of_cuts hcut,
    Option.bind_some]
  have hslice := slice?_of_parts a (b ++ covering ahead c) others
  rwa [size_append, List.append_assoc, hothers, ← Nat.add_assoc] at hslice

/-- A text has no more characters than bytes. -/
theorem length_le_size (text : Text) : text.length ≤ text.size := by
  induction text with
  | nil => exact Nat.le_refl _
  | cons c rest ih =>
    have hpos := c.utf8Size_pos
    rw [List.length_cons, size_cons]
    omega

/-- The column is counted as by a reader of characters. -/
theorem column?_of_parts {a b c : Text} (hsmall : b.size + 1 < 2 ^ 32) :
    (a ++ (b ++ c)).column? a.size (a.size + b.size) = some ((a ++ (b ++ c)).column a.size (a.size + b.size)) := by
  have hle : a.size + b.size ≤ (a ++ (b ++ c)).bytes.length := by
    rw [length_bytes, size_append, size_append]
    omega
  have hcut : (a ++ (b ++ c)).cuts (a.size + b.size) = true := by
    rw [cuts_behind]
    exact (cuts_behind b c 0).trans (cuts_zero c)
  have hlength := length_le_size b
  rw [column?, Nat.min_eq_left hle, floor?_of_cuts hcut, Option.bind_eq_bind, Option.bind_some,
    Nat.min_eq_left (Nat.le_add_right _ _), slice?_of_parts, Option.getD_some, if_pos (by omega), column,
    dropBytes_size, Nat.add_sub_cancel_left]
  simp only [within_append (Nat.le_refl _), within_size]

end Text

end LuaSyntax
