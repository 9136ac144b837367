import LuaSyntax.Proofs.Writing.Spelled.Block

/-!
# Expressions, spelled

Where the words of an expression stand, and nothing behind them goes on with it, the expression is
written. Operands stand in parentheses, so that how tightly the operators bind decides nothing.

What suffixes stand behind is spelled before them, so the words of an expression are followed from its
innermost part outwards. A method is no step of its own: it is written together with its call.
-/

namespace LuaSyntax

variable {dialect : Dialect} {inner : Writing} {line depth : Nat} {p q m : Point}

/-! ## Operators -/

/-- A unary operator is found by its terminal. -/
theorem UnaryOperator.ofToken?_terminal (operator : UnaryOperator) :
    ofToken? operator.terminal.value = some operator := by
  cases operator <;> rfl

/-- An operator between operands is found by its terminal. -/
theorem Operator.ofToken?_terminal (operator : Operator) :
    ofToken? operator.terminal.value = some operator := by
  cases operator with
  | logical operator => cases operator <;> rfl
  | binary operator => cases operator <;> rfl

/-- Every level is positive. -/
theorem Operator.level_pos (operator : Operator) : 0 < operator.level := by
  cases operator with
  | logical operator => cases operator <;> decide
  | binary operator => cases operator <;> decide

namespace Writing

/-- An operator between operands goes on with no operand. -/
theorem startsSuffix_of_operator {operator : Operator} (h : p.Faces operator.terminal) :
    Grammar.startsSuffix p.token = false := by
  rw [Grammar.startsSuffix, show p.token.value = _ from h]
  cases operator with
  | logical operator => cases operator <;> rfl
  | binary operator => cases operator <;> rfl

/-- No expression begins with what ends a row of them, nor with a key in brackets. -/
theorem startsExpression_of_faces {terminal : Grammar.Terminal} (h : p.Faces terminal)
    (hterminal : terminal ∈ ([Symbol.rightParen, Symbol.rightBrace, Symbol.leftBracket,
      Symbol.semicolon] : List Grammar.Terminal)) : p.token.startsExpression = false := by
  have hvalue : p.token.value = terminal.value := h
  rw [Token.startsExpression, Token.kind, Token.isWord, Token.isWord, Token.isSymbol, Token.isSymbol,
    hvalue]
  simp only [List.mem_cons, List.not_mem_nil, or_false] at hterminal
  rcases hterminal with rfl | rfl | rfl | rfl <;> rfl

/-- An operand with no operator behind it. -/
theorem operation_of_operand {level : Nat} {v : Expression} (h : Operand dialect inner v p q)
    (hcloses : Closes q) : Operation dialect inner level v p q := by
  refine .mk h .refl fun other hother => ?_
  rw [hcloses.operator] at hother
  cases hother

/-! ## Suffixes -/

/-- What a suffix may follow: a name, or an expression in parentheses, with any suffixes; and whether it
is nothing but an expression in parentheses. -/
inductive Chained (dialect : Dialect) (inner : Writing) (p : Point) :
    Bool → Expression × Point → Prop where
  | name {identifier : Identifier} : p.Names identifier →
      Chained dialect inner p false (.identifier identifier, p.step)
  | enclosed {base : Expression} {q : Point} : Enclosed inner base p q →
      Chained dialect inner p true (base, q)
  | suffix {bare : Bool} {a b : Expression × Point} : Chained dialect inner p bare a →
      Suffix dialect inner a b → Chained dialect inner p false b

/-- How something with suffixes began. The first suffix behind parentheses tells that they are not all. -/
theorem Chained.began {bare : Bool} {reached : Expression × Point}
    (h : Chained dialect inner p bare reached) :
    (bare = false ∧ ∃ identifier, p.Names identifier ∧
      Suffixes dialect inner (.identifier identifier, p.step) reached) ∨
    (∃ base m, Enclosed inner base p m ∧ Suffixes dialect inner (base, m) reached ∧
      (bare = true ∧ reached = (base, m) ∨ bare = false ∧ Grammar.startsSuffix m.token = true)) := by
  induction h with
  | name hname => exact .inl ⟨rfl, _, hname, .refl⟩
  | enclosed hbase => exact .inr ⟨_, _, hbase, .refl, .inl ⟨rfl, rfl⟩⟩
  | suffix _ hstep ih =>
    rcases ih with ⟨-, identifier, hname, hsuffixes⟩ | ⟨base, m, hbase, hsuffixes, hbare⟩
    · exact .inl ⟨rfl, identifier, hname, hsuffixes.tail hstep⟩
    · refine .inr ⟨base, m, hbase, hsuffixes.tail hstep, .inr ⟨rfl, ?_⟩⟩
      rcases hbare with ⟨-, rfl⟩ | ⟨-, hstarts⟩
      · exact hstep.starts
      · exact hstarts

/-- What has all its suffixes ends where no other begins. -/
theorem Chained.suffixed {bare : Bool} {v : Expression} (h : Chained dialect inner p bare (v, q))
    (hend : Grammar.startsSuffix q.token = false) : Suffixed dialect inner bare v p q := by
  rcases h.began with ⟨rfl, identifier, hname, hsuffixes⟩ | ⟨base, m, hbase, hsuffixes, hbare⟩
  · exact .name hname hsuffixes hend
  · have heq : bare = !Grammar.startsSuffix m.token := by
      rcases hbare with ⟨rfl, hreached⟩ | ⟨rfl, hstarts⟩
      · obtain ⟨-, rfl⟩ := Prod.mk.inj hreached
        rw [hend]
        rfl
      · rw [hstarts]
        rfl
    rw [heq]
    exact .enclosed hbase hsuffixes hend

/-- What a suffix stands behind. A method is written as soon as it is called. -/
structure Headed (dialect : Dialect) (inner : Writing) (v : Expression) (p q : Point) : Prop where
  chained : v.isMethod = false → Chained dialect inner p (!v.takesSuffix) (v, q)
  method : v.isMethod = true → ∀ {call : Expression × Point}, Arguments dialect inner (v, q) call →
    Chained dialect inner p false call

/-- A head with arguments behind it is a chain of suffixes. -/
theorem Headed.called {v : Expression} {call : Expression × Point} (h : Headed dialect inner v p q)
    (harguments : Arguments dialect inner (v, q) call) : Chained dialect inner p false call := by
  cases hmethod : v.isMethod with
  | false => exact (h.chained hmethod).suffix (.arguments harguments)
  | true => exact h.method hmethod harguments

/-- A method may stand only where it is called. -/
theorem isMethod_of_wellFormed {around : Surroundings} {v : Expression}
    (h : v.WellFormed around false) : v.isMethod = false := by
  cases v with
  | member _ indexer =>
    cases indexer with
    | dot => rfl
    | colon => exact absurd (h.1 rfl) Bool.false_ne_true
  | _ => rfl

/-- What is spelled behind a suffix is not empty. -/
theorem behindSuffix_ne_nil (base : Expression) :
    behindSuffix base (base.words dialect) ≠ [] := by
  cases base with
  | tableCall _ argument =>
    obtain ⟨fields, placement⟩ := argument
    exact List.append_ne_nil_of_right_ne_nil _ (List.cons_ne_nil _ _)
  | identifier | member | index | call | stringCall =>
    simp [behindSuffix, Expression.takesSuffix, Expression.words, enclosed]
  | _ => exact List.cons_ne_nil _ _

section

variable (hs : Spelled dialect line depth) {around : Surroundings} (hdialect : around.dialect = dialect)

include hs hdialect

/-- An expression in parentheses. -/
theorem enclosed_of_spells {v : Expression} (hnesting : v.nesting < depth)
    (hwellFormed : v.WellFormed around false) (h : Spells line (enclosed (v.words dialect)) p q) :
    Enclosed (ofDepth dialect depth) v p q := by
  obtain ⟨hleft, m, hv, hright, rfl⟩ := h.enclosed
  exact .mk hleft
    (hs.expression hdialect hnesting hwellFormed _ _ hv (closes_of_faces hright (by decide))) hright

/-- Expressions, each as it is spelled. -/
theorem expressions_of_spells {expressions : List Expression}
    (hnesting : expressionsNesting expressions ≤ depth)
    (hwellFormed : wellFormedExpressions around expressions) :
    ∀ v ∈ expressions, WrittenAs line Closes (Expression.words dialect)
      ((ofDepth dialect depth).expression 0) v := by
  intro v hv
  have hle : v.nesting + 1 ≤ expressionsNesting expressions :=
    @le_of_mem_max _ (fun v => v.nesting + 1) expressionsNesting (fun _ _ => rfl) _ _ hv
  exact hs.expression hdialect (by omega) (wellFormedExpressions_iff.mp hwellFormed v hv)

/-- A row of expressions that is spelled is written. -/
theorem expressionRow_of_spells {expressions : List Expression} (hne : expressions ≠ [])
    (hnesting : expressionsNesting expressions ≤ depth)
    (hwellFormed : wellFormedExpressions around expressions)
    (h : Spells line (commaSeparated (expressionRows dialect expressions)) p q) (hcloses : Closes q)
    (hcomma : ¬ q.Faces Symbol.comma) :
    Row ((ofDepth dialect depth).expression 0) expressions p q := by
  rw [expressionRows_eq] at h
  exact row_of_spells (expressions_of_spells hs hdialect hnesting hwellFormed)
    (fun hcomma => closes_of_faces hcomma (by decide)) hne h hcloses hcomma

/-- Any number of expressions that is spelled is written. -/
theorem optionalList_of_spells {expressions : List Expression}
    (hnesting : max 1 (expressionsNesting expressions) ≤ depth)
    (hwellFormed : wellFormedExpressions around expressions)
    (h : Spells line (commaSeparated (expressionRows dialect expressions)) p q) (hcloses : Closes q)
    (hcomma : ¬ q.Faces Symbol.comma) (hstarts : q.token.startsExpression = false) :
    OptionalList (ofDepth dialect depth) expressions p q := by
  cases expressions with
  | nil =>
    obtain rfl : p = q := h
    exact .none (hs.absent (by omega) hstarts)
  | cons v rest =>
    exact .some (expressionRow_of_spells hs hdialect (List.cons_ne_nil _ _) (by omega) hwellFormed h
      hcloses hcomma)

/-- A field is followed by a comma or the end of its table. -/
theorem field_of_spells {field : TableField} (hnesting : field.nesting ≤ depth)
    (hwellFormed : field.WellFormed around) :
    WrittenAs line (fun q => q.Faces Symbol.comma ∨ q.Faces Symbol.rightBrace)
      (TableField.words dialect) (Field (ofDepth dialect depth)) field := by
  intro p q h hend
  have hcloses : Closes q := hend.elim (fun h => closes_of_faces h (by decide))
    fun h => closes_of_faces h (by decide)
  cases field with
  | keyed key value =>
    have hmax : max (key.nesting + 1) (value.nesting + 1) ≤ depth := hnesting
    obtain ⟨hleft, hrest⟩ := h.terminal
    obtain ⟨m, hkey, hright, hrest⟩ := hrest.between
    obtain ⟨hassign, hvalue⟩ := hrest.terminal
    exact .keyed hleft
      (hs.expression hdialect (by omega) hwellFormed.1 _ _ hkey (closes_of_faces hright (by decide)))
      hright hassign (hs.expression hdialect (by omega) hwellFormed.2 _ _ hvalue hcloses)
  | named key value =>
    obtain ⟨hkey, hrest⟩ := h.name
    obtain ⟨hassign, hvalue⟩ := hrest.terminal
    exact .named hkey hassign (hs.expression hdialect hnesting hwellFormed _ _ hvalue hcloses)
  | positional value =>
    have hvalue := hs.expression hdialect hnesting hwellFormed _ _ h hcloses
    refine .positional (fun hleft => ?_) ?_ hvalue
    · exact Bool.false_ne_true
        ((startsExpression_of_faces hleft (by decide)).symm.trans (starts_of_written hvalue))
    · rintro ⟨hkind, hassign⟩
      -- A name before `=` would be all of the value, and no value ends there.
      rcases ahead_of_written hvalue hkind with rfl | hgoes
      · exact hend.elim (hassign.not_faces (by decide)) (hassign.not_faces (by decide))
      · exact hgoes (closes_of_faces hassign (by decide))

/-- A table behind its opening brace. -/
theorem tableBody_of_spells {table : Table} (hnesting : table.nesting ≤ depth)
    (hwellFormed : table.WellFormed around) (h : Spells line (table.words dialect) p q) :
    p.Faces Symbol.leftBrace ∧ TableBody (ofDepth dialect depth) table p.step q := by
  obtain ⟨fields, placement⟩ := table
  have hmax : max 1 (tableFieldsNesting fields) ≤ depth := hnesting
  obtain ⟨hleft, hrest⟩ := h.terminal
  obtain ⟨m, hfields, hright, rfl⟩ := hrest.concat
  rw [tableFieldRows_eq] at hfields
  have hall : ∀ field ∈ fields,
      WrittenAs line (fun q => q.Faces Symbol.comma ∨ q.Faces Symbol.rightBrace)
        (TableField.words dialect) (Field (ofDepth dialect depth)) field := by
    intro field hfield
    have hle : field.nesting ≤ tableFieldsNesting fields := le_of_mem_max (fun _ _ => rfl) hfield
    exact field_of_spells hs hdialect (by omega) (wellFormedTableFields_iff.mp hwellFormed field hfield)
  refine ⟨hleft, .mk ?_ hright⟩
  refine fields_of_spells hall .inl hfields (.inr hright) (fun _ => ?_) ?_
  · exact ⟨hs.absent (by omega) (startsExpression_of_faces hright (by decide)),
      hright.not_faces (by decide)⟩
  · exact fun h => h.elim (hright.not_faces (by decide)) (hright.not_faces (by decide))

/-- What a suffix stands behind, if it is neither a name nor ends in a suffix. -/
theorem chained_of_enclosed {v : Expression} {called : Bool} (htakes : v.takesSuffix = false)
    (hnesting : v.nesting + 1 ≤ depth) (hwellFormed : v.WellFormed around called)
    (h : Spells line (enclosed (v.words dialect)) p q) :
    Chained dialect (ofDepth dialect depth) p true (v, q) := by
  have hmethod : v.isMethod = false := by cases v <;> first | rfl | cases htakes
  cases called with
  | false => exact .enclosed (enclosed_of_spells hs hdialect hnesting hwellFormed h)
  | true => exact .enclosed (enclosed_of_spells hs hdialect hnesting (hwellFormed.uncalled hmethod) h)

/-- What a suffix may stand behind is written as it is spelled there. -/
theorem headed_of_spells {v : Expression} {called : Bool} {q : Point}
    (hnesting : nestingBehindSuffix v v.nesting ≤ depth) (hwellFormed : v.WellFormed around called)
    (h : Spells line (behindSuffix v (v.words dialect)) p q) :
    Headed dialect (ofDepth dialect depth) v p q := by
  match v with
  | .identifier identifier =>
    obtain ⟨hname, hend⟩ := h.name
    obtain rfl : p.step = q := hend
    exact ⟨fun _ => .name hname, nofun⟩
  | .member base indexer name placement =>
    have hbehind : nestingBehindSuffix base base.nesting ≤ depth := hnesting
    obtain ⟨m, hbase, hrest⟩ := spells_append.mp h
    obtain ⟨hindexer, hrest⟩ := hrest.terminal
    obtain ⟨hname, hend⟩ := hrest.name
    obtain rfl : m.step.step = q := hend
    have hchained := (headed_of_spells hbehind hwellFormed.2 hbase).chained
      (isMethod_of_wellFormed hwellFormed.2)
    cases indexer with
    | dot => exact ⟨fun _ => hchained.suffix (.member hindexer hname), nofun⟩
    | colon => exact ⟨nofun, fun _ {_} hcalled => hchained.suffix (.method hindexer hname hcalled)⟩
  | .index base index placement =>
    have hmax : max (nestingBehindSuffix base base.nesting) (index.nesting + 1) ≤ depth := hnesting
    obtain ⟨m, hbase, hrest⟩ := spells_append.mp h
    obtain ⟨hleft, hrest⟩ := hrest.terminal
    obtain ⟨r, hindex, hright, rfl⟩ := hrest.concat
    have hchained := (headed_of_spells (by omega) hwellFormed.1 hbase).chained
      (isMethod_of_wellFormed hwellFormed.1)
    refine ⟨fun _ => hchained.suffix (.index hleft ?_ hright), nofun⟩
    exact hs.expression hdialect (by omega) hwellFormed.2 _ _ hindex (closes_of_faces hright (by decide))
  | .call base arguments placement =>
    have hmax : max (nestingBehindSuffix base base.nesting) (max 1 (expressionsNesting arguments)) ≤
      depth := hnesting
    obtain ⟨m, hbase, hrest⟩ := spells_append.mp h
    obtain ⟨hleft, r, harguments, hright, rfl⟩ := hrest.enclosed
    have hlist := optionalList_of_spells hs hdialect (by omega) hwellFormed.2 harguments
      (closes_of_faces hright (by decide)) (hright.not_faces (by decide))
      (startsExpression_of_faces hright (by decide))
    have hsameLine : m.token.start.line = m.previous.stop.line :=
      hrest.token.2.1.trans (hbase.previous (behindSuffix_ne_nil base)).symm
    exact ⟨fun _ => (headed_of_spells (by omega) hwellFormed.1 hbase).called
      (.list hleft (fun _ => hsameLine) hlist hright), nofun⟩
  | .tableCall base argument placement =>
    have hmax : max (nestingBehindSuffix base base.nesting) argument.nesting ≤ depth := hnesting
    obtain ⟨m, hbase, hrest⟩ := spells_append.mp h
    obtain ⟨hleft, htable⟩ := tableBody_of_spells hs hdialect (by omega) hwellFormed.2 hrest
    exact ⟨fun _ => (headed_of_spells (by omega) hwellFormed.1 hbase).called (.table hleft htable),
      nofun⟩
  | .stringCall base argument placement =>
    have hbehind : nestingBehindSuffix base base.nesting ≤ depth := hnesting
    obtain ⟨m, hbase, hrest⟩ := spells_append.mp h
    obtain ⟨hliteral, hend⟩ := hrest.literal
    obtain rfl : m.step = q := hend
    obtain ⟨value, hvalue⟩ := hwellFormed.2
    exact ⟨fun _ => (headed_of_spells hbehind hwellFormed.1 hbase).called (.string hliteral hvalue),
      nofun⟩
  | .literal _ | .function _ | .table _ | .binary .. | .logical .. | .unary .. | .make .. =>
    exact ⟨fun _ => chained_of_enclosed hs hdialect rfl hnesting hwellFormed h, nofun⟩

/-- A name, or what ends in a suffix, with no suffix behind it. -/
theorem suffixed_of_spells {v : Expression} (htakes : v.takesSuffix = true)
    (hnesting : v.nesting ≤ depth) (hwellFormed : v.WellFormed around false)
    (h : Spells line (v.words dialect) p q) (hend : Grammar.startsSuffix q.token = false) :
    Suffixed dialect (ofDepth dialect depth) false v p q := by
  have hheaded : Headed dialect (ofDepth dialect depth) v p q := by
    refine headed_of_spells hs hdialect ?_ hwellFormed ?_
    · rwa [nestingBehindSuffix, if_pos htakes]
    · rwa [behindSuffix, if_pos htakes]
  have hchained := hheaded.chained (isMethod_of_wellFormed hwellFormed)
  rw [htakes] at hchained
  exact hchained.suffixed hend

/-! ## Expressions -/

/-- A field of a structure. -/
theorem structureField_of_spells {field : MakeField} (hnesting : field.nesting ≤ depth)
    (hwellFormed : field.WellFormed around) :
    WrittenAs line Closes (MakeField.words dialect) (StructureField (ofDepth dialect depth)) field := by
  intro p q h hcloses
  obtain ⟨key, value, placement⟩ := field
  obtain ⟨hkey, hrest⟩ := h.name
  obtain ⟨hassign, hvalue⟩ := hrest.terminal
  exact .mk hkey hassign (hs.expression hdialect hnesting hwellFormed _ _ hvalue hcloses)

/-- An operator between operands in parentheses. -/
theorem joined_of_spells (operator : Operator) {left right : Expression} {placement : Placement}
    (hleftNesting : left.nesting < depth) (hrightNesting : right.nesting + 1 < depth)
    (hleftWellFormed : left.WellFormed around false) (hrightWellFormed : right.WellFormed around false)
    (h : Spells line (enclosed (left.words dialect) ++
      .terminal operator.terminal :: enclosed (right.words dialect)) p q) (hcloses : Closes q) :
    Operation dialect (ofDepth dialect depth) 0 (Grammar.joined operator left right placement) p q := by
  obtain ⟨m, hleft, hoperator, hright⟩ := h.between
  have hfirst := enclosed_of_spells hs hdialect hleftNesting hleftWellFormed hleft
  have hsecond := hs.operand operator.rightLevel hdialect hrightNesting hrightWellFormed _ _ hright hcloses
  have htoken : Operator.ofToken? m.token.value = some operator := by
    rw [show m.token.value = _ from hoperator, Operator.ofToken?_terminal]
  refine .mk (.suffixed ((Chained.enclosed hfirst).suffixed (startsSuffix_of_operator hoperator)))
    (.single (.mk htoken operator.level_pos hsecond)) fun other hother => ?_
  rw [hcloses.operator] at hother
  cases hother

/-- An expression is written where its words stand and nothing goes on with it. -/
theorem operation_of_spells {v : Expression} (hnesting : v.nesting ≤ depth)
    (hwellFormed : v.WellFormed around false) :
    WrittenAs line Closes (Expression.words dialect) (Operation dialect (ofDepth dialect depth) 0) v := by
  intro p q h hcloses
  have hsuffixed (htakes : v.takesSuffix = true) :
      Operation dialect (ofDepth dialect depth) 0 v p q :=
    operation_of_operand (.suffixed
      (suffixed_of_spells hs hdialect htakes hnesting hwellFormed h hcloses.suffix)) hcloses
  cases v with
  | identifier | member | index | call | tableCall | stringCall => exact hsuffixed rfl
  | literal literal =>
    obtain ⟨hliteral, hend⟩ := h.literal
    obtain rfl : p.step = q := hend
    exact operation_of_operand (.literal hliteral) hcloses
  | function function =>
    obtain ⟨hanonymous, hfunction⟩ := hwellFormed
    obtain ⟨m, hhead, hbody⟩ := spells_append.mp h
    have hwritten := functionBody_of_spells hs hdialect hnesting hfunction hbody
    obtain ⟨name, isLocal, parameters, body, placement⟩ := function
    obtain ⟨rfl, rfl⟩ := hanonymous
    obtain ⟨hword, hend⟩ := hhead.terminal
    obtain rfl : p.step = m := hend
    exact operation_of_operand (.function hword hwritten) hcloses
  | table table =>
    obtain ⟨hleft, htable⟩ := tableBody_of_spells hs hdialect hnesting hwellFormed h
    exact operation_of_operand (.table hleft htable) hcloses
  | binary operator left right placement =>
    have hmax : max (left.nesting + 1) (right.nesting + 2) ≤ depth := hnesting
    exact joined_of_spells hs hdialect (.binary operator) (by omega) (by omega)
      hwellFormed.1 hwellFormed.2 h hcloses
  | logical operator left right placement =>
    have hmax : max (left.nesting + 1) (right.nesting + 2) ≤ depth := hnesting
    exact joined_of_spells hs hdialect (.logical operator) (by omega) (by omega)
      hwellFormed.1 hwellFormed.2 h hcloses
  | unary operator argument placement =>
    have hargument : argument.nesting + 2 ≤ depth := hnesting
    obtain ⟨hoperator, hrest⟩ := h.terminal
    have htoken : UnaryOperator.ofToken? p.token.value = some operator := by
      rw [show p.token.value = _ from hoperator, UnaryOperator.ofToken?_terminal]
    exact operation_of_operand (.unary htoken
      (hs.operand _ hdialect hargument hwellFormed _ _ hrest hcloses)) hcloses
  | make type fields placement =>
    obtain ⟨hmake, hrest⟩ := h.terminal
    obtain ⟨htype, hrest⟩ := hrest.name
    obtain ⟨hleft, hrest⟩ := hrest.terminal
    obtain ⟨m, hfields, hright, rfl⟩ := hrest.concat
    rw [makeFieldRows_eq] at hfields
    have hall : ∀ field ∈ fields, WrittenAs line Closes (MakeField.words dialect)
        (StructureField (ofDepth dialect depth)) field := by
      intro field hfield
      have hle : field.nesting ≤ makeFieldsNesting fields := le_of_mem_max (fun _ _ => rfl) hfield
      exact structureField_of_spells hs hdialect (Nat.le_trans hle hnesting)
        (wellFormedMakeFields_iff.mp hwellFormed field hfield)
    refine operation_of_operand (.make hmake htype hleft ?_ hright) hcloses
    refine fields_of_spells hall (fun hcomma => closes_of_faces hcomma (by decide)) hfields
      (closes_of_faces hright (by decide)) (fun _ => hright) ?_
    exact fun h => h.elim (hright.not_faces (by decide)) (hright.not_faces (by decide))

end

end Writing

end LuaSyntax
