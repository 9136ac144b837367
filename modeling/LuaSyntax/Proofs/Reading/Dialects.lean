import LuaSyntax.Operator
import LuaSyntax.Proofs.Reading.Deliveries
import LuaSyntax.Proofs.Reading.Vocabulary
import LuaSyntax.Proofs.Writing.Follows

/-!
# Reading in other dialects

A dialect may extend another by operators, escapes and words. A token of the smaller dialect is the same token
in the larger one, unless it is a name that this one reserves, or one of three operators of one character with
the same character behind it, which this one may read as one operator. But behind an operator an expression
begins, and none begins with such a character. So the tokens of a source are the same in both dialects if the
smaller one can make anything of them.
-/

namespace LuaSyntax

/-- The features by which a dialect may extend another. -/
def Feature.extensions : List Feature :=
  [.unicodeEscapes, .bitwiseOperators, .integerDivision, .typedIdentifiers, .hstructure, .hmake]

/-- A dialect that another extends. Where the other knows more escapes, they are errors in this one. -/
structure Dialect.ExtendedBy (dialect other : Dialect) : Prop where
  has : ∀ feature, dialect.has feature = true → other.has feature = true
  same : ∀ feature ∉ Feature.extensions, other.has feature = dialect.has feature
  escapes : dialect.has .strictEscapes = true ∨ other.has .unicodeEscapes = dialect.has .unicodeEscapes

/-- The same options with another dialect. -/
def ParseOptions.under (options : ParseOptions) (dialect : Dialect) : ParseOptions := { options with dialect }

variable {dialect other : Dialect} {options : ParseOptions} {source text : Text} {line : Nat}

/-! ## Strings, numerals and names -/

/-- Each reserved word has a spelling of its own. -/
theorem ReservedWord.spelling_injective : Function.Injective ReservedWord.spelling := by
  have hall : ∀ word ∈ ReservedWord.all, ∀ word' ∈ ReservedWord.all, word.spelling = word'.spelling →
      word = word' := by
    decide +kernel
  exact fun word word' => hall word (Dialect.mem_allWords word) word' (Dialect.mem_allWords word')

/-- Readers of pieces that agree unless the first fails read the same row if it does not. -/
theorem pieces_congr {α ε : Type} {piece piece' : Text → Piece α ε}
    (h : ∀ text, (∀ error, piece text ≠ .fail error) → piece' text = piece text) {skip : Nat}
    (hnone : (pieces piece skip text).failure = none) : pieces piece' skip text = pieces piece skip text := by
  induction text generalizing skip with
  | nil => cases skip <;> rfl
  | cons c rest ih =>
    cases skip with
    | succ skip => exact ih hnone
    | zero =>
      rw [pieces] at hnone
      rw [pieces, pieces]
      cases hpiece : piece (c :: rest) with
      | fail error => simp [hpiece] at hnone
      | stop => rw [h (c :: rest) fun error => by simp [hpiece], hpiece]
      | item value length =>
        rw [hpiece] at hnone
        rw [h (c :: rest) fun error => by simp [hpiece], hpiece]
        simp only
        rw [ih hnone]

namespace Dialect.ExtendedBy

variable (h : dialect.ExtendedBy other)

include h

/-- An escape of the smaller dialect is the same in the larger one. -/
theorem escape_read {found : List UInt8 × Nat} (hread : Escape.read dialect text = .ok found) :
    Escape.read other text = .ok found := by
  match text with
  | [] => exact hread
  | [_] => exact hread
  | first :: c :: rest =>
    obtain ⟨reader, hreader⟩ := Escape.exists_reader dialect c
    rw [hreader.read_eq] at hread
    suffices hother : Escape.Reader other c reader by rwa [hother.read_eq]
    have hknown (hlenient : dialect.has .strictEscapes = false) (h' : Escape.Known other c) :
        Escape.Known dialect c := by
      have hunicode := h.escapes.resolve_left (by rw [hlenient]; exact Bool.false_ne_true)
      rwa [Escape.Known, h.same .skipBlankEscape (by decide), h.same .hexEscapes (by decide), hunicode] at h'
    cases hreader with
    | letter hbyte => exact .letter hbyte
    | lineBreak hend => exact .lineBreak hend
    | decimal hdigit => exact .decimal hdigit
    | skip hc hskip => exact .skip hc (h.has _ hskip)
    | hex hc hhex => exact .hex hc (h.has _ hhex)
    | codePoint hc hcode => exact .codePoint hc (h.has _ hcode)
    | refused => cases hread
    -- The larger dialect knows a code point that the smaller one does not only where both refuse what they do not know.
    | other hunknown hlenient =>
      exact .other (mt (hknown hlenient) hunknown) (by rw [h.same .strictEscapes (by decide), hlenient])

/-- A string one dialect reads is read alike by another. -/
theorem quotedString_read {quote : Char} {found : Text × Nat}
    (hread : QuotedString.read dialect quote text = .ok found) :
    QuotedString.read other quote text = .ok found := by
  have hpiece (text : Text) (hfine : ∀ fault, QuotedString.piece dialect quote text ≠ .fail fault) :
      QuotedString.piece other quote text = QuotedString.piece dialect quote text := by
    cases text with
    | nil => rfl
    | cons c rest =>
      rcases QuotedString.stop_or_goes dialect quote c rest with hstop | ⟨result, hgoes⟩
      · exact (QuotedString.piece_eq_stop_iff.mpr (QuotedString.piece_eq_stop_iff.mp hstop)).trans hstop.symm
      · rw [hgoes.piece_eq, QuotedString.piece_eq_iff]
        cases hgoes with
        | plain hquote hend hslash => exact .plain hquote hend hslash
        | escape hc hquote hrest hescape =>
          refine .escape hc hquote hrest ?_
          cases result with
          | ok found => exact h.escape_read hescape
          | error fault =>
            exact absurd (QuotedString.piece_eq_fail_iff.mpr (.escape hc hquote hrest hescape)) (hfine fault)
  obtain ⟨value, length⟩ := found
  have hsame := pieces_congr hpiece (QuotedString.read_eq_ok_iff.mp hread).1
  rw [QuotedString.read_eq_ok_iff] at hread ⊢
  rwa [hsame]

/-- Numerals are read alike in an extension. -/
theorem numeral_read (extended : Bool) (text : Text) :
    Numeral.read other extended text = Numeral.read dialect extended text := by
  have hfigure (text : Text) : Numeral.readFigure other text = Numeral.readFigure dialect text := by
    rw [Numeral.readFigure, Numeral.readFigure, h.same .hexFloats (by decide)]
  have himaginary (text : Text) : Numeral.imaginarySuffix other text = Numeral.imaginarySuffix dialect text := by
    rw [Numeral.imaginarySuffix.eq_def, Numeral.imaginarySuffix.eq_def, h.same .imaginaryNumbers (by decide)]
  have hinteger (text : Text) : Numeral.integerSuffix other text = Numeral.integerSuffix dialect text := by
    rw [Numeral.integerSuffix, Numeral.integerSuffix, h.same .integerSuffixes (by decide)]
  simp only [Numeral.read, Numeral.recognise, hfigure, himaginary, hinteger]

/-- What the smaller dialect reserves the larger one reserves, and what the larger one does not reserve either is
a name in both. -/
theorem ofName?_eq {name : String} (hname : ReservedWord.ofName? dialect name = none → ¬ other.Reserves name) :
    ReservedWord.ofName? other name = ReservedWord.ofName? dialect name := by
  have hreserved (word : ReservedWord) (hin : word.reservedIn dialect = true) : word.reservedIn other = true := by
    cases word with
    | gotoWord =>
      rwa [ReservedWord.reservedIn, Dialect.reservesGoto, h.same .labels (by decide),
        h.same .contextualGoto (by decide)]
    | hstructureWord => exact h.has _ hin
    | hmakeWord => exact h.has _ hin
    | _ => rfl
  cases hfound : ReservedWord.ofName? dialect name with
  | none =>
    refine List.find?_eq_none.mpr fun word _ hword => hname hfound (.inr ⟨word, ?_⟩)
    obtain ⟨hspelling, hin⟩ := Bool.and_eq_true_iff.mp hword
    exact ⟨hin, beq_iff_eq.mp hspelling⟩
  | some word =>
    have hword := List.find?_some hfound
    obtain ⟨hspelling, hin⟩ := Bool.and_eq_true_iff.mp hword
    obtain ⟨found, hfound'⟩ : ∃ found, ReservedWord.ofName? other name = some found := by
      refine Option.isSome_iff_exists.mp (List.find?_isSome.mpr ⟨word, mem_allWords word, ?_⟩)
      exact Bool.and_eq_true_iff.mpr ⟨hspelling, hreserved word hin⟩
    have hspelled := List.find?_some hfound'
    have hspelling' := beq_iff_eq.mp (Bool.and_eq_true_iff.mp hspelled).1
    rw [hfound', ReservedWord.spelling_injective (hspelling'.trans (beq_iff_eq.mp hspelling).symm)]

/-- A word that is a name of the smaller dialect only if the larger one does not reserve it is the same in both. -/
theorem word_eq {name : String} (hname : Lexeme.word dialect name = .identifier name → ¬ other.Reserves name) :
    Lexeme.word other name = Lexeme.word dialect name := by
  unfold Lexeme.word at hname ⊢
  by_cases htrue : (name == "true") = true
  · rw [if_pos htrue, if_pos htrue]
  · by_cases hfalse : (name == "false") = true
    · rw [if_neg htrue, if_neg htrue, if_pos hfalse, if_pos hfalse]
    · by_cases hnil : (name == "nil") = true
      · rw [if_neg htrue, if_neg htrue, if_neg hfalse, if_neg hfalse, if_pos hnil, if_pos hnil]
      · rw [if_neg htrue, if_neg hfalse, if_neg hnil] at hname
        rw [h.ofName?_eq fun hnone => hname (by rw [hnone])]

/-- A symbol of the smaller dialect is the same in the larger one, unless it is one that the larger one reads
twice as another. -/
theorem symbol?_eq {c : Char} {next : Option Char} {symbol : Symbol}
    (hsymbol : Lexeme.symbol? dialect c next = some symbol) :
    Lexeme.symbol? other c next = some symbol ∨
      c ∈ ['<', '>', '/'] ∧ next = some c ∧ symbol ∈ [Symbol.less, .greater, .slash] := by
  have hbitwise := h.has .bitwiseOperators
  have hdivision := h.has .integerDivision
  simp only [Lexeme.symbol?, h.same .labels (by decide)] at hsymbol ⊢
  generalize dialect.has .bitwiseOperators = bitwise at *
  generalize dialect.has .integerDivision = division at *
  generalize other.has .bitwiseOperators = bitwise' at *
  generalize other.has .integerDivision = division' at *
  split at hsymbol <;> grind

end Dialect.ExtendedBy

/-! ## Lexemes -/

namespace Lexeme

variable {value : TokenValue} {length : Nat}

/-- Whether a lexeme is one of the operators of one character that have that character behind them as well. -/
def Doubled (text : Text) (value : TokenValue) (length : Nat) : Prop :=
  ∃ c rest, text = c :: c :: rest ∧ c ∈ ['<', '>', '/'] ∧ length = 1 ∧ (Operator.ofToken? value).isSome = true

/-- A lexeme of the smaller dialect is the same in the larger one, unless it is a name that this one reserves or
an operator that has the same character behind it. -/
theorem read_under (h : options.dialect.ExtendedBy other) (hread : read options line text = .ok (value, length))
    (hname : ∀ name, value = .identifier name → ¬ other.Reserves name) :
    read (options.under other) line text = .ok (value, length) ∨ Doubled text value length := by
  cases text with
  | nil => exact .inl hread
  | cons c rest =>
    rw [read_eq_ok_iff]
    cases read_eq_ok_iff.mp hread with
    | string hquote hstring => exact .inl (.string hquote (h.quotedString_read hstring))
    | numeral hnumeral hfigure => exact .inl (.numeral hnumeral ((h.numeral_read _ _).trans hfigure))
    | dots hdots => exact .inl (.dots hdots)
    | bracket hbracket hcontent => exact .inl (.bracket hbracket hcontent)
    | symbol hlonger hsymbol =>
      rcases h.symbol?_eq hsymbol with hsame | ⟨hc, hnext, hoperator⟩
      · exact .inl (.symbol hlonger hsame)
      · right
        obtain ⟨rest, rfl⟩ : ∃ rest', rest = c :: rest' := List.head?_eq_some_iff.mp hnext
        simp only [List.mem_cons, List.not_mem_nil, or_false] at hoperator
        rcases hoperator with rfl | rfl | rfl <;> exact ⟨c, rest, rfl, hc, rfl, rfl⟩
    | name hstart hlexeme hword =>
      refine .inl (.name hstart hlexeme ((h.word_eq fun hname' => ?_).trans hword))
      exact hname _ (hword.symm.trans hname')

/-- The symbols that begin with a character that may be doubled. -/
theorem read_of_doubling {c : Char} {rest : Text} (hread : read options line (c :: rest) = .ok (value, length))
    (hc : c ∈ ['<', '>', '/']) : ∃ symbol, value = .punctuator symbol ∧
      symbol ∈ [Symbol.less, .lessEqual, .shiftLeft, .greater, .greaterEqual, .shiftRight, .slash, .doubleSlash] := by
  obtain ⟨symbol, hsymbol, hmem⟩ : ∃ symbol, symbol? options.dialect c rest.head? = some symbol ∧
      symbol ∈ [Symbol.less, .lessEqual, .shiftLeft, .greater, .greaterEqual, .shiftRight, .slash,
        .doubleSlash] := by
    simp only [List.mem_cons, List.not_mem_nil, or_false] at hc
    rcases hc with rfl | rfl | rfl <;> simp only [symbol?] <;> grind
  refine ⟨symbol, ?_, hmem⟩
  have hvalue : read options line (c :: rest) = .ok (.punctuator symbol, symbol.spelling.length) := by
    simp only [List.mem_cons, List.not_mem_nil, or_false] at hc
    rcases hc with rfl | rfl | rfl <;> simp [read, hsymbol]
  rw [hvalue] at hread
  cases hread
  rfl

end Lexeme

/-! ## Lexers -/

/-- Where nothing stands before a token, it begins at once. -/
theorem Trivia.behind_of_stop {c : Char} {rest : Text} (h : Trivium.piece (c :: rest) = .stop) :
    behind (c :: rest) = c :: rest := by
  rw [behind, pieces, h]
  rfl

/-- Comments are collected alike under any dialect. -/
theorem Trivia.collect_under (other : Dialect) (row : List (Text × Trivium)) (place : Place) :
    collect (options.under other) source place row = collect options source place row := by
  induction row generalizing place with
  | nil => rfl
  | cons first others ih =>
    obtain ⟨text, trivium⟩ := first
    simp only [collect, ih]
    rfl

namespace Lexer

variable {lexer after last : Lexer} {token : Token} {deliveries : List Delivery}

/-- The same lexer in another dialect. -/
def under (lexer : Lexer) (dialect : Dialect) : Lexer := { lexer with options := lexer.options.under dialect }

/-- What stands between two tokens is the same under any dialect. -/
theorem trivia_under (lexer : Lexer) (other : Dialect) (text : Text) :
    (lexer.under other).trivia text = lexer.trivia text := by
  simp only [trivia, Trivia.read, under, Trivia.collect_under]
  rfl

/-- With the character of such an operator no expression begins. -/
theorem not_startsExpression (h : lexer.rest = some text) (hn : lexer.next = (.ok token, after)) {c : Char}
    {rest : Text} (htext : text = c :: rest) (hc : c ∈ ['<', '>', '/']) : token.startsExpression = false := by
  subst htext
  obtain ⟨-, value, length, hread, rfl, -⟩ := (next_eq_ok h).mp hn
  have hstop : Trivium.piece (c :: rest) = .stop := by
    simp only [List.mem_cons, List.not_mem_nil, or_false] at hc
    rcases hc with rfl | rfl | rfl <;> rfl
  rw [Trivia.behind_of_stop hstop] at hread
  obtain ⟨symbol, rfl, hmem⟩ := Lexeme.read_of_doubling hread hc
  simp only [List.mem_cons, List.not_mem_nil, or_false] at hmem
  rcases hmem with rfl | rfl | rfl | rfl | rfl | rfl | rfl | rfl <;> rfl

/-- A token of the smaller dialect is the same in the larger one, unless its character stands behind it as well. -/
theorem next_under (hextended : lexer.options.dialect.ExtendedBy other) (h : lexer.rest = some text)
    (hn : lexer.next = (.ok token, after))
    (hname : ∀ name, token.value = .identifier name → ¬ other.Reserves name) :
    (lexer.under other).next = (.ok token, after.under other) ∨
      (Operator.ofToken? token.value).isSome = true ∧
        ∃ c rest, after.rest = some (c :: rest) ∧ c ∈ ['<', '>', '/'] := by
  obtain ⟨hclosed, value, length, hread, rfl, rfl⟩ := (next_eq_ok h).mp hn
  rcases Lexeme.read_under hextended hread hname with hsame | ⟨c, rest, htext, hc, rfl, hoperator⟩
  · left
    have hrest : (lexer.under other).rest = some text := h
    refine (next_eq_ok hrest).mpr ⟨?_, value, length, ?_, ?_, ?_⟩
    · rw [trivia_under]
      exact hclosed
    · rw [trivia_under]
      exact hsame
    · rw [tokenOf, tokenOf, trivia_under]
    · rw [behind, behind, trivia_under]
      rfl
  · refine .inr ⟨hoperator, c, rest, ?_, hc⟩
    rw [behind, htext]
    rfl

/-- What is read in a dialect is read in one that extends it, if no name is reserved there and every operator has
an expression behind it. -/
theorem Reads.under (h : Reads lexer deliveries last) (hextended : lexer.options.dialect.ExtendedBy other)
    (hsited : lexer.Sited text) (hlast : last.next = (.ok token, after)) (hend : token.isEnd = true)
    (hnames : ∀ delivery ∈ deliveries, ∀ name, delivery.token.value = .identifier name → ¬ other.Reserves name)
    (hchain : (deliveries.map Delivery.token ++ [token]).IsChain Token.MayFollow) :
    Reads (lexer.under other) deliveries (last.under other) ∧
      (last.under other).next = (.ok token, after.under other) := by
  induction h generalizing text with
  | none lexer =>
    have hvalue : token.value = .endOfInput := beq_iff_eq.mp hend
    refine ⟨.none _, ?_⟩
    rcases next_under hextended hsited.rest_eq hlast (by simp [hvalue]) with hsame | ⟨hoperator, -⟩
    · exact hsame
    · rw [hvalue] at hoperator
      cases hoperator
  | @one lexer between last first deliveries hnext hfirst hothers ih =>
    obtain ⟨rest, hrest, -⟩ := hsited.next hnext hfirst
    obtain ⟨hname, hnames⟩ := List.forall_mem_cons.mp hnames
    have hoptions : between.options = lexer.options := options_next hsited.rest_eq hnext
    rw [List.map_cons, List.cons_append] at hchain
    have ih := ih (show between.options.dialect.ExtendedBy other from hoptions ▸ hextended) hrest.drain hlast
      hnames hchain.of_cons
    rcases next_under hextended hsited.rest_eq hnext hname with hsame | ⟨hoperator, c, text', hbetween, hc⟩
    · exact ⟨@Reads.one _ (between.under other) _ _ _ hsame hfirst ih.1, ih.2⟩
    · -- the token behind the operator would begin with the operator's own character
      have hrest' : between.drain.2.rest = some (c :: text') := hbetween
      have hfollow {second : Token} {later : Lexer} (hsecond : between.drain.2.next = (.ok second, later)) :
          ¬ first.MayFollow second := fun hmay =>
        Bool.false_ne_true ((not_startsExpression hrest' hsecond rfl hc).symm.trans (hmay hoperator))
      cases hothers with
      | none => exact absurd (List.isChain_cons_cons.mp hchain).1 (hfollow hlast)
      | one hsecond _ _ => exact absurd (List.isChain_cons_cons.mp hchain).1 (hfollow hsecond)

/-- The lexer at the start is the same but for its dialect. -/
theorem start_under (options : ParseOptions) (source : Text) (other : Dialect) :
    start (options.under other) source = (start options source).under other := by
  by_cases hshebang : source.take 2 = ['#', '!']
  · rw [start_of_shebang hshebang, start_of_shebang hshebang]
    rfl
  · rw [start_of_not_shebang hshebang, start_of_not_shebang hshebang]
    rfl

/-- A source has the same tokens in a dialect as in one that extends it, if no name is reserved there and every
operator has an expression behind it. -/
theorem feed_under {last : Delivery} (hextended : options.dialect.ExtendedBy other)
    (hending : (feed options source).ending = .ok last)
    (hnames : ∀ delivery ∈ (feed options source).deliveries, ∀ name,
      delivery.token.value = .identifier name → ¬ other.Reserves name)
    (hchain : ((feed options source).deliveries.map Delivery.token ++ [last.token]).IsChain Token.MayFollow) :
    feed (options.under other) source = feed options source := by
  obtain ⟨text, hsited, -⟩ := sited_start options source
  rw [feed_eq_reading] at hending hnames hchain
  rw [feed_eq_reading, feed_eq_reading, start_under]
  have hextended' : (start options source).options.dialect.ExtendedBy other := by
    rwa [options_start]
  obtain ⟨lexer, hreads, ⟨error, after, -, herror⟩ | ⟨token, after, hnext, hend, hok⟩⟩ := hsited.reads_reading
  · rw [herror] at hending
    cases hending
  · obtain rfl : ⟨token, after.comments⟩ = last := Except.ok.inj (hok.symm.trans hending)
    obtain ⟨hreads', hnext'⟩ := hreads.under hextended' hsited hnext hend hnames hchain
    have hsited' : ((start options source).under other).Sited text := ⟨hsited.rest_eq, hsited.source_eq⟩
    rw [hreads'.reading_eq hsited', reading_of_end hnext' hend, List.append_nil]
    exact (congrArg (Feed.mk _) hok).symm

end Lexer

end LuaSyntax
