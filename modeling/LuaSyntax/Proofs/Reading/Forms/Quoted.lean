import LuaSyntax.Proofs.Reading.Apart.Strings
import LuaSyntax.Proofs.Reading.Forms.Escapes
import LuaSyntax.Proofs.Reading.Tokens

/-!
# What quoted strings denote

What stands between the quotes of a string is a row of characters and escapes, and denotes the bytes that these
denote, one after the other. `QuotedString.Content` is that grammar. A string is taken for a token exactly if its
content is such a row, and the value of the token is what the bytes are shown as. Since different bytes may be shown
alike, so may different strings.
-/

namespace LuaSyntax

variable {dialect : Dialect} {quote : Char} {text behind body : Text} {bytes : List UInt8}

/-- No escape is empty. -/
theorem Escape.Denotes.ne_nil (h : Escape.Denotes dialect text behind bytes) : text ≠ [] := by
  cases h with
  | lineBreak hmem => exact Text.ne_nil_of_mem_lineBreaks hmem
  | decimal hne => exact hne
  | _ => exact List.cons_ne_nil _ _

/-- No escape goes on with a quote, so the one behind the string does not matter. -/
theorem Escape.Denotes.behind_congr {behind' : Text} (h : Escape.Denotes dialect text behind bytes)
    (hhead : ∀ c ∈ behind'.head?, c ∈ behind.head? ∨ IsQuote c) : Escape.Denotes dialect text behind' bytes := by
  -- what is said of the first character behind the escape holds of a quote too
  have hnext {q : Char → Prop} (hquote : ∀ c, IsQuote c → q c) (hbehind : ∀ c ∈ behind.head?, q c) :
      ∀ c ∈ behind'.head?, q c := fun c hc => (hhead c hc).elim (hbehind c) (hquote c)
  cases h with
  | letter hmem => exact .letter hmem
  | lineBreak hmem hbehind =>
    refine .lineBreak hmem (hnext (fun c hc hlonger => ?_) hbehind)
    have hend := Text.isLineEnd_of_mem_lineBreaks hlonger c (List.mem_append_right _ List.mem_cons_self)
    rw [hc.not_isLineEnd] at hend
    cases hend
  | decimal hne hmost hdigits hbehind hsmall =>
    exact .decimal hne hmost hdigits (fun hless => hnext (fun c hc => hc.not_digit) (hbehind hless)) hsmall
  | skip hskip hspaces hbehind =>
    refine .skip hskip hspaces (hnext (fun c hc => ?_) hbehind)
    rcases hc with rfl | rfl <;> decide
  | hex hhex htwo hdigits => exact .hex hhex htwo hdigits
  | codePoint hcode hne hdigits hlast => exact .codePoint hcode hne hdigits hlast
  | other hlenient hbegins => exact .other hlenient hbegins

namespace QuotedString

/-- Which bytes a text denotes in a string, with another text behind it. -/
inductive Denotes (dialect : Dialect) (quote : Char) : Text → Text → List UInt8 → Prop
  | plain {c : Char} {behind : Text} : c ≠ quote → c ≠ '\\' → c ≠ '\n' → c ≠ '\r' →
      Denotes dialect quote [c] behind (String.utf8EncodeChar c)
  | escape {text behind : Text} {bytes : List UInt8} : Escape.Denotes dialect text behind bytes →
      Denotes dialect quote ('\\' :: text) behind bytes

/-- The texts that can stand between two quotes, and the bytes that they denote. -/
inductive Content (dialect : Dialect) (quote : Char) : Text → List UInt8 → Prop
  | nil : Content dialect quote [] []
  | cons {text rest : Text} {bytes others : List UInt8} : Denotes dialect quote text rest bytes →
      Content dialect quote rest others → Content dialect quote (text ++ rest) (bytes ++ others)

/-- No piece of a string is empty. -/
theorem Denotes.ne_nil (h : Denotes dialect quote text behind bytes) : text ≠ [] := by
  cases h <;> exact List.cons_ne_nil _ _

/-- What a piece denotes depends on the first character behind it only, and not on whether this is a quote. -/
theorem Denotes.behind_congr {behind' : Text} (h : Denotes dialect quote text behind bytes)
    (hhead : ∀ c ∈ behind'.head?, c ∈ behind.head? ∨ IsQuote c) : Denotes dialect quote text behind' bytes := by
  cases h with
  | plain hquote hslash hfeed hreturn => exact .plain hquote hslash hfeed hreturn
  | escape h => exact .escape (h.behind_congr hhead)

/-- What a piece of a string denotes is read there, and nothing else is. -/
theorem piece_iff (hquote : IsQuote quote) (hne : text ≠ []) :
    piece dialect quote (text ++ behind) = .item bytes text.length ↔ Denotes dialect quote text behind bytes := by
  obtain ⟨c, rest, rfl⟩ := List.exists_cons_of_ne_nil hne
  rw [List.cons_append, piece_eq_item_iff]
  constructor
  · intro h
    generalize hlength : (c :: rest).length = length at h
    cases h with
    | plain hquote hend hslash =>
      obtain rfl : rest = [] := List.eq_nil_of_length_eq_zero (Nat.succ.inj hlength)
      rw [Utf8.encode_toNat]
      rw [Text.isLineEnd, Bool.or_eq_false_iff, beq_eq_false_iff_ne, beq_eq_false_iff_ne] at hend
      exact .plain hquote hslash hend.1 hend.2
    | escape hc _ hmore hread =>
      subst hc hlength
      refine .escape (Escape.denotes_of_read ?_ hread)
      rintro rfl
      obtain ⟨d, more, rfl⟩ := List.exists_cons_of_ne_nil hmore
      exact absurd (Escape.two_le_of_read hread) (by simp)
  · intro h
    cases h with
    | plain hquote hslash hfeed hreturn =>
      rw [← Utf8.encode_toNat]
      exact .plain hquote (by simp [Text.isLineEnd, hfeed, hreturn]) hslash
    | escape h =>
      have hslash : '\\' ≠ quote := by
        rcases hquote with rfl | rfl <;> decide
      exact .escape rfl hslash (List.append_ne_nil_of_left_ne_nil h.ne_nil behind) h.read_eq

/-- The quote stops the pieces. -/
theorem piece_quote (rest : Text) : piece dialect quote (quote :: rest) = .stop :=
  piece_eq_stop_iff.mpr (.inl rfl)

/-- A piece of a string has at least one character. -/
theorem one_le_of_piece {length : Nat} (h : piece dialect quote text = .item bytes length) : 1 ≤ length := by
  cases text with
  | nil => cases h
  | cons c rest =>
    cases piece_eq_item_iff.mp h with
    | plain => exact Nat.le_refl 1
    | escape hc _ hmore hread =>
      subst hc
      obtain ⟨d, rest, rfl⟩ := List.exists_cons_of_ne_nil hmore
      exact Nat.le_of_succ_le (Escape.two_le_of_read hread)

/-! ## Rows of pieces -/

/-- A content is read up to the quote. -/
theorem Content.pieces_eq (h : Content dialect quote body bytes) (hquote : IsQuote quote) (behind : Text) :
    ∃ found, pieces (piece dialect quote) 0 (body ++ quote :: behind) = ⟨found, none⟩ ∧
      (found.map Prod.fst).flatten = body ∧ (found.map Prod.snd).flatten = bytes := by
  induction h with
  | nil =>
    refine ⟨[], ?_, rfl, rfl⟩
    rw [List.nil_append, pieces, piece_quote]
    rfl
  | @cons text rest bytes others hfirst _ ih =>
    obtain ⟨found, hfound, hcovered, hvalues⟩ := ih
    have hbehind : Denotes dialect quote text (rest ++ quote :: behind) bytes := by
      refine hfirst.behind_congr fun c hc => ?_
      cases rest with
      | nil => exact .inr (Option.mem_some_iff.mp hc ▸ hquote)
      | cons d rest => exact .inl hc
    refine ⟨(text, bytes) :: found, ?_, ?_, ?_⟩
    · rw [List.append_assoc, pieces_of_first hfirst.ne_nil ((piece_iff hquote hfirst.ne_nil).mpr hbehind), hfound]
      rfl
    · rw [List.map_cons, List.flatten_cons, hcovered]
    · rw [List.map_cons, List.flatten_cons, hvalues]

/-- A content denotes one row of bytes only. -/
theorem Content.unique {bytes' : List UInt8} (h : Content dialect quote body bytes)
    (h' : Content dialect quote body bytes') (hquote : IsQuote quote) : bytes = bytes' := by
  obtain ⟨found, hfound, -, rfl⟩ := h.pieces_eq hquote []
  obtain ⟨found', hfound', -, rfl⟩ := h'.pieces_eq hquote []
  rw [hfound] at hfound'
  cases hfound'
  rfl

/-- What is read up to a quote, and not over it, is a content. -/
theorem content_of_pieces (hquote : IsQuote quote)
    (hnone : (pieces (piece dialect quote) 0 (body ++ quote :: behind)).failure = none)
    (hcovered : (pieces (piece dialect quote) 0 (body ++ quote :: behind)).covered.length = body.length) :
    Content dialect quote body (pieces (piece dialect quote) 0 (body ++ quote :: behind)).values.flatten := by
  induction hlength : body.length using Nat.strong_induction_on generalizing body with
  | h size ih =>
  cases body with
  | nil =>
    rw [List.nil_append, pieces, piece_quote]
    exact .nil
  | cons c rest =>
    cases hpiece : piece dialect quote (c :: (rest ++ quote :: behind)) with
    | stop =>
      rw [List.cons_append, pieces, hpiece] at hcovered
      cases hcovered
    | fail fault =>
      rw [List.cons_append, pieces, hpiece] at hnone
      cases hnone
    | item bytes count =>
      have hpos := one_le_of_piece hpiece
      have hinside : count ≤ (c :: rest).length := by
        rw [List.cons_append, pieces, hpiece] at hcovered
        simp only [Pieces.covered_cons, List.length_append, List.length_cons, List.length_take] at hcovered ⊢
        omega
      obtain ⟨text, more, hbody, rfl⟩ : ∃ text more, c :: rest = text ++ more ∧ text.length = count :=
        ⟨_, _, (List.take_append_drop count _).symm, by rw [List.length_take, Nat.min_eq_left hinside]⟩
      have hne : text ≠ [] := List.ne_nil_of_length_pos hpos
      rw [← List.cons_append, hbody, List.append_assoc] at hpiece
      rw [hbody, List.append_assoc, pieces_of_first hne hpiece] at hnone hcovered ⊢
      rw [hbody, List.length_append] at hlength
      rw [Pieces.covered_cons, List.length_append, List.length_append, Nat.add_left_cancel_iff] at hcovered
      refine .cons (((piece_iff hquote hne).mp hpiece).behind_congr fun d hd => .inl ?_)
        (ih more.length (by omega) hnone hcovered rfl)
      rw [List.head?_append, Option.mem_def.mp hd]
      rfl

/-- A string is read up to its second quote exactly if a content stands before that. -/
theorem read_iff (hquote : IsQuote quote) {value : Text} :
    read dialect quote (quote :: (body ++ quote :: behind)) = .ok (value, body.length + 2) ↔
      ∃ bytes, Content dialect quote body bytes ∧ value = Utf8.readable bytes := by
  rw [read_eq_ok_iff, List.drop_succ_cons, List.drop_zero]
  constructor
  · rintro ⟨hfailure, -, hvalue, hlength⟩
    exact ⟨_, content_of_pieces hquote hfailure (Nat.add_right_cancel hlength), hvalue.symm⟩
  · rintro ⟨bytes, hcontent, rfl⟩
    obtain ⟨found, hfound, hcovered, hvalues⟩ := hcontent.pieces_eq hquote behind
    rw [hfound]
    refine ⟨rfl, ?_, congrArg Utf8.readable hvalues, congrArg (List.length · + 2) hcovered⟩
    show ((body ++ quote :: behind).drop (found.map Prod.fst).flatten.length).head? = some quote
    rw [hcovered, List.drop_left]
    rfl

end QuotedString

/-! ## Tokens -/

namespace Lexer

variable {lexer lexer' : Lexer} {gap gap' body' behind' : Text} {quote' : Char} {bytes' : List UInt8}
  {value value' : String}

/-- Between two quotes the reader of quoted strings decides. -/
theorem takes_iff_read (hquote : IsQuote quote) (hgap : Filled true gap)
    (hrest : lexer.rest = some (gap ++ (quote :: (body ++ quote :: behind)))) :
    lexer.Takes gap (quote :: (body ++ [quote])) (.string value) ↔
      ∃ text, QuotedString.read lexer.options.dialect quote (quote :: (body ++ quote :: behind)) =
        .ok (text, body.length + 2) ∧ value = String.ofList text := by
  have hstop : Trivium.piece (quote :: (body ++ quote :: behind)) = .stop := by
    rcases hquote with rfl | rfl <;> rfl
  have hraw : quote :: (body ++ [quote]) <+: quote :: (body ++ quote :: behind) := ⟨behind, by simp⟩
  have hlength : (quote :: (body ++ [quote])).length = body.length + 2 := by simp
  rw [takes_iff hrest hgap hstop, and_iff_right hraw, Lexeme.read_string hquote, hlength]
  cases QuotedString.read lexer.options.dialect quote (quote :: (body ++ quote :: behind)) with
  | error fault => simp [Except.map]
  | ok found => simp [Except.map, Prod.ext_iff, eq_comm, and_comm]

/-- A text between two quotes is taken for one string exactly if it is a content; the value of the string is what
the bytes that it denotes are shown as. -/
theorem takes_quoted_iff (hquote : IsQuote quote) (hgap : Filled true gap)
    (hrest : lexer.rest = some (gap ++ (quote :: (body ++ quote :: behind)))) :
    lexer.Takes gap (quote :: (body ++ [quote])) (.string value) ↔
      ∃ bytes, QuotedString.Content lexer.options.dialect quote body bytes ∧
        value = String.ofList (Utf8.readable bytes) := by
  rw [takes_iff_read hquote hgap hrest]
  constructor
  · rintro ⟨text, hread, rfl⟩
    obtain ⟨bytes, hcontent, rfl⟩ := (QuotedString.read_iff hquote).mp hread
    exact ⟨bytes, hcontent, rfl⟩
  · rintro ⟨bytes, hcontent, rfl⟩
    exact ⟨_, (QuotedString.read_iff hquote).mpr ⟨bytes, hcontent, rfl⟩, rfl⟩

/-- In Lua 5.3 a string with a plain character, a byte in decimal digits and skipped blanks. -/
theorem takes_quoted_blanks :
    (start { dialect := .lua53 } ['"', 'a', '\\', '6', '5', '\\', 'z', ' ', '\n', 'b', '"', ';']).Takes []
      ['"', 'a', '\\', '6', '5', '\\', 'z', ' ', '\n', 'b', '"'] (.string "aAb") := by
  have hlast : QuotedString.Content .lua53 '"' ['b'] [0x62] :=
    @QuotedString.Content.cons _ _ ['b'] [] [0x62] [] (.plain (by decide) (by decide) (by decide) (by decide)) .nil
  have hblanks : QuotedString.Content .lua53 '"' ['\\', 'z', ' ', '\n', 'b'] [0x62] :=
    @QuotedString.Content.cons _ _ ['\\', 'z', ' ', '\n'] _ [] _
      (.escape (.skip rfl (by simp [Text.spaces]) (by simp [Text.spaces]))) hlast
  have hdecimal : QuotedString.Content .lua53 '"' ['\\', '6', '5', '\\', 'z', ' ', '\n', 'b'] [0x41, 0x62] :=
    @QuotedString.Content.cons _ _ ['\\', '6', '5'] _ [0x41] _
      (.escape (.decimal (by simp) (by decide) (by simp) (by simp) (by decide))) hblanks
  have hcontent : QuotedString.Content .lua53 '"' ['a', '\\', '6', '5', '\\', 'z', ' ', '\n', 'b']
      [0x61, 0x41, 0x62] :=
    @QuotedString.Content.cons _ _ ['a'] _ [0x61] _ (.plain (by decide) (by decide) (by decide) (by decide)) hdecimal
  exact (@takes_quoted_iff '"' [';'] ['a', '\\', '6', '5', '\\', 'z', ' ', '\n', 'b'] _ [] _ (.inr rfl) .nil
    rfl).mpr ⟨_, hcontent, rfl⟩

/-! ## Strings that are shown alike -/

/-- A string that is taken has the value that its content is shown as. -/
theorem value_of_content (hquote : IsQuote quote) (hgap : Filled true gap)
    (htakes : lexer.Takes gap (quote :: (body ++ [quote])) (.string value))
    (hcontent : QuotedString.Content lexer.options.dialect quote body bytes) :
    value = String.ofList (Utf8.readable bytes) := by
  obtain ⟨behind, hrest⟩ := htakes.rest_eq
  have hsame : quote :: (body ++ [quote]) ++ behind = quote :: (body ++ quote :: behind) := by simp
  rw [hsame] at hrest
  obtain ⟨text, hread, rfl⟩ := (takes_iff_read hquote hgap hrest).mp htakes
  obtain ⟨bytes', hcontent', rfl⟩ := (QuotedString.read_iff hquote).mp hread
  rw [hcontent.unique hcontent' hquote]

/-- Two strings have the same value just when they denote the same bytes or the bytes of one are no UTF-8, and those
of the other are the UTF-8 of the characters that have these bytes for numbers. -/
theorem strings_alike_iff (hquote : IsQuote quote) (hgap : Filled true gap)
    (htakes : lexer.Takes gap (quote :: (body ++ [quote])) (.string value))
    (hcontent : QuotedString.Content lexer.options.dialect quote body bytes)
    (hquote' : IsQuote quote') (hgap' : Filled true gap')
    (htakes' : lexer'.Takes gap' (quote' :: (body' ++ [quote'])) (.string value'))
    (hcontent' : QuotedString.Content lexer'.options.dialect quote' body' bytes') :
    value = value' ↔ bytes = bytes' ∨ Utf8.Mistaken bytes bytes' ∨ Utf8.Mistaken bytes' bytes := by
  rw [value_of_content hquote hgap htakes hcontent, value_of_content hquote' hgap' htakes' hcontent',
    ← Utf8.readable_eq_iff]
  exact ⟨fun h => String.ofList_injective h, congrArg String.ofList⟩

/-- A source that is one string. -/
theorem takes_of_content {options : ParseOptions} (hquote : IsQuote quote)
    (hcontent : QuotedString.Content options.dialect quote body bytes) :
    (start options (quote :: (body ++ [quote]))).Takes [] (quote :: (body ++ [quote]))
      (.string (String.ofList (Utf8.readable bytes))) := by
  have hrest : (start options (quote :: (body ++ [quote]))).rest = some ([] ++ (quote :: (body ++ quote :: []))) := by
    rcases hquote with rfl | rfl <;> rfl
  refine (takes_iff_read hquote .nil hrest).mpr ⟨_, (QuotedString.read_iff hquote).mpr ⟨bytes, ?_, rfl⟩, rfl⟩
  rwa [options_start]

/-- An escape by three decimal digits. -/
theorem content_decimal (digits : Text) {rest : Text} {others : List UInt8} (hlength : digits.length = 3)
    (hdigits : ∀ c ∈ digits, c.isDigit = true) (hsmall : Digit.decimal digits ≤ 255)
    (hrest : QuotedString.Content dialect quote rest others) :
    QuotedString.Content dialect quote ('\\' :: (digits ++ rest))
      (UInt8.ofNat (Digit.decimal digits) :: others) := by
  refine .cons (.escape (.decimal ?_ hlength.le hdigits (fun hless => ?_) hsmall)) hrest
  · rintro rfl
    cases hlength
  · omega

/-- A byte that is no UTF-8. -/
theorem content_one_byte : QuotedString.Content .lua51 '"' ['\\', '2', '3', '3'] [233] :=
  content_decimal ['2', '3', '3'] rfl (by simp) (by decide) .nil

/-- The bytes that encode the character with the number of that byte. -/
theorem content_two_bytes :
    QuotedString.Content .lua51 '"' ['\\', '1', '9', '5', '\\', '1', '6', '9'] [195, 169] :=
  content_decimal ['1', '9', '5'] rfl (by simp) (by decide)
    (content_decimal ['1', '6', '9'] rfl (by simp) (by decide) .nil)

/-- Both are shown as that character. -/
theorem readable_two_bytes : Utf8.readable [195, 169] = Utf8.readable [233] := by decide

/-- A string of one byte and one of two bytes that have the same value. -/
theorem strings_shown_alike :
    ∃ value, (start { } ['"', '\\', '2', '3', '3', '"']).Takes [] ['"', '\\', '2', '3', '3', '"'] (.string value) ∧
      QuotedString.Content .lua51 '"' ['\\', '2', '3', '3'] [233] ∧
      (start { } ['"', '\\', '1', '9', '5', '\\', '1', '6', '9', '"']).Takes []
        ['"', '\\', '1', '9', '5', '\\', '1', '6', '9', '"'] (.string value) ∧
      QuotedString.Content .lua51 '"' ['\\', '1', '9', '5', '\\', '1', '6', '9'] [195, 169] ∧
      ([233] : List UInt8) ≠ [195, 169] := by
  have hone := @takes_of_content _ _ _ { } (.inr rfl) content_one_byte
  have htwo := @takes_of_content _ _ _ { } (.inr rfl) content_two_bytes
  rw [readable_two_bytes] at htwo
  exact ⟨_, hone, content_one_byte, htwo, content_two_bytes, by decide⟩

/-- The byte 233 and the two bytes of the letter it stands for are read as the same string. -/
theorem strings_alike_one_two :
    ([233] : List UInt8) = [195, 169] ∨ Utf8.Mistaken [233] [195, 169] ∨ Utf8.Mistaken [195, 169] [233] := by
  have hone := @takes_of_content _ _ _ { } (.inr rfl) content_one_byte
  have htwo := @takes_of_content _ _ _ { } (.inr rfl) content_two_bytes
  rw [readable_two_bytes] at htwo
  exact (strings_alike_iff (.inr rfl) .nil hone content_one_byte (.inr rfl) .nil htwo content_two_bytes).mp rfl

end Lexer

end LuaSyntax
