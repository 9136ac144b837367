import LuaSyntax.Proofs.Writing.Beginnings
import LuaSyntax.Proofs.Writing.Padded.Expression

/-!
# Padded statements

A statement is written with semicolons put in if its parts are. Blocks follow the words that open them, and what
closes one follows it; a condition that is behind a block follows the word that closes that.

Which statements have gaps before them is told by where they say that they begin, so statements are asked to begin
and to end where they say: `ranged` adds this to what is nested.
-/

namespace LuaSyntax

open Grammar (endsBlock)

namespace Writing

variable {dialect : Dialect} {inner inner' : Writing} {p q r : Point}

/-- A statement that begins with the word for a `return` is one. -/
theorem ProperStatement.eq_return {v : Statement} (hstatement : ProperStatement dialect inner v p q)
    (hreturn : p.Faces ReservedWord.returnWord) : ∃ arguments placement, v = .returnStatement arguments placement := by
  rcases hstatement.begins with ⟨word, hword, hkeyword⟩ | ⟨-, hgoto | ⟨name, hname⟩ | hleft⟩
  · obtain rfl : word = .returnWord := TokenValue.keyword.inj (hword.symm.trans hreturn)
    unfold Statement.keyword? at hkeyword
    split at hkeyword <;> first | exact ⟨_, _, rfl⟩ | (split at hkeyword <;> cases hkeyword) | cases hkeyword
  · exact absurd hreturn (hgoto.not_faces (by decide))
  · cases hname.symm.trans hreturn
  · exact absurd hreturn (hleft.not_faces (by decide))

variable (hd : dialect.has .emptyStatement = true) (h : Padding inner inner')

include h

/-! ## Parts of statements -/

/-- The step of a loop is padded. -/
theorem LoopStep.padded {step : Option Expression} (hstep : LoopStep inner step p q) :
    Padded false .loose (Within (step.toList.map Expression.item)) p q (LoopStep inner' step) := by
  cases hstep with
  | none hstop =>
    have hnone : Padded false .loose Nothing p p (LoopStep inner' Option.none) :=
      .here nofun fun p' hedge => .none (hedge.not_faces hstop (by decide))
    exact hnone.mono (by simp) fun _ _ _ _ => id
  | some hcomma hexpression =>
    refine ((Padded.faces hcomma rfl).append (h.expression hexpression)).unheaded.mono (by simp) ?_
    rintro p' q' - - ⟨_, ⟨hcomma', rfl⟩, hexpression'⟩
    exact .some hcomma' hexpression'

/-- Initial values are padded. -/
theorem InitialValues.padded {values : List Expression} (hvalues : InitialValues inner values p q) :
    Padded false .loose (Within (values.map Expression.item)) p q (InitialValues inner' values) := by
  cases hvalues with
  | none hstop =>
    have hnone : Padded false .loose Nothing p p (InitialValues inner' []) :=
      .here nofun fun p' hedge => .none (hedge.not_faces hstop (by decide))
    exact hnone.mono (by simp) fun _ _ _ _ => id
  | some hassign hrow =>
    refine ((Padded.faces hassign rfl).append (padded_row h hrow)).unheaded.mono (by simp) ?_
    rintro p' q' - - ⟨_, ⟨hassign', rfl⟩, hrow'⟩
    exact .some hassign' hrow'

/-- Behind the values of a `return` a semicolon is part of it, and no other may follow. -/
theorem Returned.padded {arguments : List Expression} (hreturned : Returned inner arguments p q) :
    Padded false .tight (Within (arguments.map Expression.item)) p q (Returned inner' arguments) := by
  cases hreturned with
  | nothing hend =>
    have hnothing : Padded false .tight Nothing p p (Returned inner' []) :=
      .here nofun fun p' hedge => .nothing ((hedge.value_eq (by decide)).trans hend)
    exact hnothing.mono (by simp) fun _ _ _ _ => id
  | @list _ _ q hend hlist =>
    by_cases hsemicolon : q.Faces Symbol.semicolon
    · rw [Point.skip_of_faces hsemicolon]
      refine ((hlist.padded h).pass hsemicolon (.inr rfl)).tighten.mono (fun _ => .rfl) ?_
      rintro p' q' hbegin - ⟨m', hlist', hsemicolon', rfl⟩
      rw [← Point.skip_of_faces hsemicolon']
      exact .list (hbegin.not_faces hend (by decide)) hlist'
    · rw [Point.skip_of_not_faces hsemicolon]
      refine (hlist.padded h).tighten.mono (fun _ => .rfl) fun p' q' hbegin hedge hlist' => ?_
      have hsemicolon' : ¬ q'.Faces Symbol.semicolon := by
        rwa [Point.Faces, hedge.value_eq (by decide)]
      rw [← Point.skip_of_not_faces hsemicolon']
      exact .list (hbegin.not_faces hend (by decide)) hlist'

include hd

/-- The target of an assignment is padded. -/
theorem Target.padded {target : Expression} (htarget : Target dialect inner target p q) :
    Padded true .loose (Within target.items) p q (Target dialect inner' target) := by
  obtain ⟨hsuffixed, hassignable⟩ := htarget
  exact (hsuffixed.padded hd h).mono (fun _ => .rfl) fun _ _ _ _ hsuffixed' => .mk hsuffixed' hassignable

section

variable {headed : Bool} {inside : Statement → Prop} {written : Point → Point → Prop}

/-- A further condition follows the block before it. -/
theorem ElseifClause.padded {clause : Clause} (hbefore : Padded headed .closed inside p q written)
    (hclause : ElseifClause dialect inner clause q r) :
    Padded headed .closed (fun statement => inside statement ∨ Within clause.items statement) p r
      (Relation.Comp written (ElseifClause dialect inner' clause)) := by
  obtain ⟨hword, hcondition, hthen, hstatements⟩ := hclause
  refine ((hbefore.pass hword (.inl rfl)).append ((h.expression hcondition).append
    ((Padded.faces hthen rfl).append (hstatements.padded_block hd h)))).mono (by simp [Clause.items]) ?_
  rintro p' r' - - ⟨_, ⟨m', hbefore', hword', rfl⟩, _, hcondition', _, ⟨hthen', rfl⟩, hstatements'⟩
  exact ⟨m', hbefore', .mk hword' hcondition' hthen' hstatements'⟩

/-- Behind a padded body any number of `elseif` clauses is padded. -/
theorem ElseifClauses.padded {clauses : List Clause} (hbefore : Padded headed .closed inside p q written)
    (hclauses : ElseifClauses dialect inner clauses q r) :
    Padded headed .closed (fun statement => inside statement ∨ ∃ clause ∈ clauses, Within clause.items statement)
      p r (Relation.Comp written (ElseifClauses dialect inner' clauses)) := by
  induction hclauses generalizing inside written with
  | nil hstop =>
    refine hbefore.mono (by simp) fun p' q' _ hedge hbefore' => ⟨q', hbefore', .nil ?_⟩
    rwa [Point.Faces, hedge.value_eq (by decide)]
  | cons hclause _ ih =>
    refine (ih (hclause.padded hd h hbefore)).mono (by simp [or_assoc]) ?_
    rintro p' r' - - ⟨_, ⟨m', hbefore', hclause'⟩, hrest'⟩
    exact ⟨m', hbefore', .cons hclause' hrest'⟩

/-- Behind a padded body an `else` clause that may be there is padded. -/
theorem ElseClause.padded {clauses : List Clause} (hbefore : Padded headed .closed inside p q written)
    (hclause : ElseClause dialect inner clauses q r) :
    Padded headed .closed (fun statement => inside statement ∨ ∃ clause ∈ clauses, Within clause.items statement)
      p r (Relation.Comp written (ElseClause dialect inner' clauses)) := by
  cases hclause with
  | none hstop =>
    refine hbefore.mono (by simp) fun p' q' _ hedge hbefore' => ⟨q', hbefore', .none ?_⟩
    rwa [Point.Faces, hedge.value_eq (by decide)]
  | some hword hstatements =>
    refine ((hbefore.pass hword (.inl rfl)).append (hstatements.padded_block hd h)).mono
      (by simp [Clause.items]) ?_
    rintro p' r' - - ⟨_, ⟨m', hbefore', hword', rfl⟩, hstatements'⟩
    exact ⟨m', hbefore', .some hword' hstatements'⟩

end

/-! ## Statements -/

omit hd in
/-- A `return` is padded, and its end is tight. -/
theorem ProperStatement.returned {v : Statement} (hstatement : ProperStatement dialect inner v p q)
    (hreturn : p.Faces ReservedWord.returnWord) :
    Padded true .tight (Within v.items) p q (ProperStatement dialect inner' v) := by
  obtain ⟨arguments, placement, rfl⟩ := hstatement.eq_return hreturn
  obtain - | - | ⟨hword, hreturned⟩ := hstatement
  refine ((Padded.faces hword rfl).append (hreturned.padded h)).mono (by simp [Statement.items]) ?_
  rintro p' q' - - ⟨_, ⟨hword', rfl⟩, hreturned'⟩
  exact .returnStatement hword' hreturned'

/-- A statement that is neither a `return` nor a structure is padded. -/
theorem ProperStatement.padded {v : Statement} (hstatement : ProperStatement dialect inner v p q)
    (hreturn : ¬ p.Faces ReservedWord.returnWord) (hplain : v.isStructure = false) :
    Padded true .loose (Within v.items) p q (ProperStatement dialect inner' v) := by
  obtain ⟨-, -, -, hcontextual, -⟩ := Dialect.has_of_emptyStatement hd
  have hgoto (p' : Point) : ¬ p'.FacesContextualGoto dialect :=
    fun hfaces => Bool.noConfusion (hcontextual.symm.trans hfaces.1)
  cases hstatement with
  | breakStatement hword =>
    refine (Padded.faces hword rfl).mono (by simp [Statement.items]) ?_
    rintro p' q' - - ⟨hword', rfl⟩
    exact .breakStatement hword'
  | gotoStatement hword hlabel =>
    refine ((Padded.faces (hword.resolve_right (hgoto p)) rfl).append (Padded.names hlabel)).mono
      (by simp [Statement.items]) ?_
    rintro p' q' - - ⟨_, ⟨hword', rfl⟩, hlabel', rfl⟩
    exact .gotoStatement (.inl hword') hlabel'
  | returnStatement hword => exact absurd hword hreturn
  | ifStatement hword hcondition hthen hstatements hothers hlast hend =>
    have hfirst := (Padded.faces hword rfl).append ((h.expression hcondition).append
      ((Padded.faces hthen rfl).append (hstatements.padded_block hd h)))
    refine ((hlast.padded hd h (hothers.padded hd h hfirst)).pass hend (.inl rfl)).mono
      (by simp [Statement.items, Clause.items, encloses_node, Node.items, or_assoc]) ?_
    rintro p' q' - - ⟨_, ⟨_, ⟨_, ⟨_, ⟨hword', rfl⟩, _, hcondition', _, ⟨hthen', rfl⟩, hstatements'⟩, hothers'⟩,
      hlast'⟩, hend', rfl⟩
    exact .ifStatement hword' hcondition' hthen' hstatements' hothers' hlast' hend'
  | whileStatement hword hcondition hdo hstatements hend =>
    refine ((Padded.faces hword rfl).append ((h.expression hcondition).append ((Padded.faces hdo rfl).append
      ((hstatements.padded_block hd h).pass hend (.inl rfl))))).mono (by simp [Statement.items]) ?_
    rintro p' q' - - ⟨_, ⟨hword', rfl⟩, _, hcondition', _, ⟨hdo', rfl⟩, _, hstatements', hend', rfl⟩
    exact .whileStatement hword' hcondition' hdo' hstatements' hend'
  | doStatement hword hstatements hend =>
    refine ((Padded.faces hword rfl).append ((hstatements.padded_block hd h).pass hend (.inl rfl))).mono
      (by simp [Statement.items]) ?_
    rintro p' q' - - ⟨_, ⟨hword', rfl⟩, _, hstatements', hend', rfl⟩
    exact .doStatement hword' hstatements' hend'
  | @repeatStatement body condition placement _ _ _ hword hstatements huntil hcondition =>
    obtain ⟨statements, scope⟩ := body
    refine ((Padded.faces hword rfl).append (((hstatements.padded_block hd h).pass huntil (.inl rfl)).append
      (h.expression hcondition))).mono (by simp [Statement.items, Block.statements]) ?_
    rintro p' q' - - ⟨_, ⟨hword', rfl⟩, _, ⟨_, hstatements', huntil', rfl⟩, hcondition'⟩
    exact .repeatStatement hword' hstatements' huntil' hcondition'
  | localFunction hlocal hfunction hname hbody =>
    refine ((Padded.faces hlocal rfl).append ((Padded.faces hfunction rfl).append ((Padded.names hname).append
      (hbody.padded hd h)))).mono (by simp [Statement.items, Function.items, Function.body]) ?_
    rintro p' q' - - ⟨_, ⟨hlocal', rfl⟩, _, ⟨hfunction', rfl⟩, _, ⟨hname', rfl⟩, hbody'⟩
    exact .localFunction hlocal' hfunction' hname' hbody'
  | localVariables hlocal hnames hvalues =>
    have hpadded := hnames.padded fun hname => Declared.padded hd hname
    refine ((Padded.faces hlocal rfl).append (hpadded.append (hvalues.padded h))).mono
      (by simp [Statement.items]) ?_
    rintro p' q' - - ⟨_, ⟨hlocal', rfl⟩, _, hnames', hvalues'⟩
    exact .localVariables hlocal' hnames' hvalues'
  | assignment _ htargets hassign hvalues =>
    have hpadded := htargets.padded fun htarget => Target.padded hd h htarget
    refine (hpadded.append ((Padded.faces hassign rfl).append (padded_row h hvalues))).mono
      (by simp [Statement.items]) ?_
    rintro p' q' - - ⟨_, htargets', _, ⟨hassign', rfl⟩, hvalues'⟩
    exact .assignment (hgoto p') htargets' hassign' hvalues'
  | callStatement _ hsuffixed hcall hcomma =>
    refine (hsuffixed.padded hd h).mono (by simp [Statement.items]) fun p' q' _ hedge hsuffixed' => ?_
    exact .callStatement (hgoto p') hsuffixed' hcall (hedge.not_faces hcomma (by decide))
  | functionStatement hword hname hbody =>
    refine ((Padded.faces hword rfl).append (hname.padded.append (hbody.padded hd h))).mono
      (by simp [Statement.items, Function.items, Function.body]) ?_
    rintro p' q' - - ⟨_, ⟨hword', rfl⟩, _, hname', hbody'⟩
    exact .functionStatement hword' hname' hbody'
  | numericFor hword hcounter hassign hstart hcomma hstop hstep hdo hstatements hend =>
    have hheader := (Padded.faces hword rfl).append ((Padded.names hcounter).append ((Padded.faces hassign rfl).append
      ((h.expression hstart).append ((Padded.faces hcomma rfl).append ((h.expression hstop).append
        (hstep.padded h))))))
    refine (hheader.append ((Padded.faces hdo rfl).append ((hstatements.padded_block hd h).pass hend
      (.inl rfl)))).mono (by simp [Statement.items, or_assoc]) ?_
    rintro p' q' - - ⟨_, ⟨_, ⟨hword', rfl⟩, _, ⟨hcounter', rfl⟩, _, ⟨hassign', rfl⟩, _, hstart', _, ⟨hcomma', rfl⟩, _,
      hstop', hstep'⟩, _, ⟨hdo', rfl⟩, _, hstatements', hend', rfl⟩
    exact .numericFor hword' hcounter' hassign' hstart' hcomma' hstop' hstep' hdo' hstatements' hend'
  | genericFor hword hnames hin hiterators hdo hstatements hend =>
    have hheader := (Padded.faces hword rfl).append ((hnames.padded fun hname => Name.padded hname).append
      ((Padded.faces hin rfl).append (padded_row h hiterators)))
    refine (hheader.append ((Padded.faces hdo rfl).append ((hstatements.padded_block hd h).pass hend
      (.inl rfl)))).mono (by simp [Statement.items]) ?_
    rintro p' q' - - ⟨_, ⟨_, ⟨hword', rfl⟩, _, hnames', _, ⟨hin', rfl⟩, hiterators'⟩, _, ⟨hdo', rfl⟩, _, hstatements',
      hend', rfl⟩
    exact .genericFor hword' hnames' hin' hiterators' hdo' hstatements' hend'
  | structureDeclaration => cases hplain

/-- A statement that is neither a `return` nor a structure is padded, contextual words included. -/
theorem OptionalStatement.padded {v : Statement} (hstatement : OptionalStatement dialect inner (some v) p q)
    (hreturn : ¬ p.Faces ReservedWord.returnWord) (hplain : v.isStructure = false) :
    Padded true .loose (Within v.items) p q (OptionalStatement dialect inner' (some v)) := by
  cases hstatement with
  | label hlabels hleft hname hright =>
    refine ((Padded.faces hleft rfl).append ((Padded.names hname).append (Padded.faces hright rfl))).mono
      (by simp [Statement.items]) ?_
    rintro p' q' - - ⟨_, ⟨hleft', rfl⟩, _, ⟨hname', rfl⟩, hright', rfl⟩
    exact .label hlabels hleft' hname' hright'
  | proper hproper =>
    exact (hproper.padded hd h hreturn hplain).mono (fun _ => .rfl) fun _ _ _ _ => .proper

omit h hd in
/-- Only an empty statement begins with a semicolon. -/
theorem OptionalStatement.not_semicolon {v : Statement} (hstatement : OptionalStatement dialect inner (some v) p q) :
    ¬ p.Faces Symbol.semicolon := by
  cases hstatement with
  | label _ hleft => exact hleft.not_faces (by decide)
  | proper hproper =>
    rcases hproper.begins with ⟨word, hword, -⟩ | ⟨-, hgoto | ⟨name, hname⟩ | hleft⟩
    · exact hword.not_faces nofun
    · exact hgoto.not_faces nofun
    · rw [Point.Faces, hname]
      exact TokenValue.noConfusion
    · exact hleft.not_faces (by decide)

omit h hd in
/-- Where no expression begins, none begins with a semicolon. -/
theorem startsExpression_of_allows {edge : Edge} {p' : Point} (hedge : edge.Allows p p')
    (hstarts : p.token.startsExpression = false) : p'.token.startsExpression = false := by
  rcases hedge with hvalue | ⟨-, hfaces⟩
  · simp only [Token.startsExpression, Token.kind, Token.isWord, Token.isSymbol, hvalue] at hstarts ⊢
    exact hstarts
  · simp only [Token.startsExpression, Token.kind, Token.isWord, Token.isSymbol,
      show p'.token.value = _ from hfaces]
    rfl

/-! ## Levels -/

omit h hd in
/-- Statements that begin and end where they say. -/
def ranged (inner : Writing) : Writing where
  statement v p q := inner.statement v p q ∧ ∀ statement ∈ v, ∀ span ∈ statement.placement.range,
    span.start = p.token.start.offset ∧ span.stop = max q.previous.stop.offset span.start
  expression := inner.expression
  absent := inner.absent

omit h hd in
/-- How what nests no deeper than a number of levels is written by statements that begin and end where they say. -/
def rangedOfDepth (dialect : Dialect) : Nat → Writing
  | 0 => ofDepth dialect 0
  | depth + 1 => ranged (deeper dialect (rangedOfDepth dialect depth))

/-- What nests one level deeper is padded. -/
theorem Padding.deeper : Padding (ranged (inner.deeper dialect)) (inner'.deeper dialect) where
  empty hstatement := by
    obtain ⟨⟨-, hsemicolon⟩, -⟩ := hstatement
    exact ⟨hsemicolon, rfl⟩
  semicolon hsemicolon := .empty hd hsemicolon
  begins hstatement := hstatement.1.not_semicolon
  range hstatement := hstatement.2 _ rfl
  statement hstatement hreturn hplain := hstatement.1.padded hd h hreturn hplain
  returned hstatement hreturn := by
    obtain ⟨- | ⟨-, hleft⟩ | hproper, -⟩ := hstatement
    · exact absurd hreturn (hleft.not_faces (by decide))
    · exact ⟨hproper.eq_return hreturn,
        (hproper.returned h hreturn).mono (fun _ => .rfl) fun _ _ _ _ => .proper⟩
  expression hexpression := Operation.padded hd h hexpression
  absent habsent hedge := startsExpression_of_allows hedge habsent

omit h in
/-- Semicolons that are put in nest one level deeper than what they are put into. -/
theorem Padding.ofDepth (depth : Nat) : Padding (rangedOfDepth dialect depth) (.ofDepth dialect (depth + 1)) := by
  induction depth with
  | zero => exact
    { empty := fun h => h.elim
      semicolon := fun hsemicolon => .empty hd hsemicolon
      begins := fun h => h.elim
      range := fun h => h.elim
      statement := fun h => h.elim
      returned := fun h => h.elim
      expression := fun h => h.elim
      absent := fun h => h.elim }
  | succ depth ih => exact .deeper hd ih

end Writing

end LuaSyntax
