import LuaSyntax.Proofs.Writing.Carried.Expression

/-!
# Statements and chunks carried over

The statements of two rows of tokens follow their parts, level by level. Only a declaration ends where a colon
must not stand, and what comes behind a statement begins with none.
-/

namespace LuaSyntax

variable {dialect other : Dialect} {R : Point → Point → Prop} {inner inner' : Writing} {p p' q : Point}

namespace Writing

variable (h : Carries dialect other R) (hinner : Carried R inner inner')

include h hinner

/-! ## Parts of statements -/

/-- An `elseif` clause is carried over. -/
theorem ElseifClause.carried {clause : Clause} (hclause : ElseifClause dialect inner clause p q) (hR : R p p') :
    Lands R q (ElseifClause other inner' clause p') := by
  obtain ⟨hword, hcondition, hthen, hstatements⟩ := hclause
  obtain ⟨q', hq, hcondition'⟩ := hinner.expression hcondition (h.pass hR hword rfl)
  obtain ⟨r', hr, hstatements'⟩ := hstatements.carried h hinner (h.pass hq hthen rfl)
  exact ⟨r', hr, .mk ((h.faces_iff hR).mpr hword) hcondition' ((h.faces_iff hq).mpr hthen) hstatements'⟩

/-- Any number of `elseif` clauses is carried over. -/
theorem ElseifClauses.carried {clauses : List Clause} (hclauses : ElseifClauses dialect inner clauses p q)
    (hR : R p p') : Lands R q (ElseifClauses other inner' clauses p') := by
  induction hclauses generalizing p' with
  | nil hstop => exact ⟨p', hR, .nil (mt (h.faces_iff hR).mp hstop)⟩
  | cons hclause _ ih =>
    obtain ⟨q', hq, hclause'⟩ := hclause.carried h hinner hR
    obtain ⟨r', hr, hrest'⟩ := ih hq
    exact ⟨r', hr, .cons hclause' hrest'⟩

/-- An `else` clause that may be there is carried over. -/
theorem ElseClause.carried {clauses : List Clause} (hclause : ElseClause dialect inner clauses p q)
    (hR : R p p') : Lands R q (ElseClause other inner' clauses p') := by
  cases hclause with
  | none hstop => exact ⟨p', hR, .none (mt (h.faces_iff hR).mp hstop)⟩
  | some hword hstatements =>
    obtain ⟨q', hq, hstatements'⟩ := hstatements.carried h hinner (h.pass hR hword rfl)
    exact ⟨q', hq, .some ((h.faces_iff hR).mpr hword) hstatements'⟩

/-- The step of a loop is carried over. -/
theorem LoopStep.carried {step : Option Expression} (hstep : LoopStep inner step p q) (hR : R p p') :
    Lands R q (LoopStep inner' step p') := by
  cases hstep with
  | none hstop => exact ⟨p', hR, .none (mt (h.faces_iff hR).mp hstop)⟩
  | some hcomma hexpression =>
    obtain ⟨q', hq, hexpression'⟩ := hinner.expression hexpression (h.pass hR hcomma rfl)
    exact ⟨q', hq, .some ((h.faces_iff hR).mpr hcomma) hexpression'⟩

/-- What is returned is carried over. -/
theorem Returned.carried {arguments : List Expression} (hreturned : Returned inner arguments p q) (hR : R p p') :
    Lands R q (Returned inner' arguments p') := by
  cases hreturned with
  | nothing hend => exact ⟨p', hR, .nothing ((h.faces_iff hR).mpr hend)⟩
  | list hend hlist =>
    obtain ⟨q', hq, hlist'⟩ := hlist.carried h hinner hR
    exact ⟨_, h.skip hq, .list (mt (h.faces_iff hR).mp hend) hlist'⟩

/-- Initial values are carried over. -/
theorem InitialValues.carried {values : List Expression} (hvalues : InitialValues inner values p q) (hR : R p p') :
    Lands R q (InitialValues inner' values p') := by
  cases hvalues with
  | none hstop => exact ⟨p', hR, .none (mt (h.faces_iff hR).mp hstop)⟩
  | some hassign hrow =>
    obtain ⟨q', hq, hrow'⟩ := carried_row h hinner hrow (h.pass hR hassign rfl)
    exact ⟨q', hq, .some ((h.faces_iff hR).mpr hassign) hrow'⟩

/-- The target of an assignment is carried over. -/
theorem Target.carried {target : Expression} (htarget : Target dialect inner target p q) (hR : R p p') :
    Lands R q (Target other inner' target p') := by
  obtain ⟨hsuffixed, hassignable⟩ := htarget
  obtain ⟨q', hq, hsuffixed'⟩ := hsuffixed.carried h hinner hR
  exact ⟨q', hq, .mk hsuffixed' hassignable⟩

omit hinner in
/-- An entry of a structure is carried over. -/
theorem Entry.carried {entry : StructureEntry} (hentry : Entry entry p q) (hR : R p p') :
    Lands R q (Entry entry p') := by
  obtain ⟨hname, hcolon, htype⟩ := hentry
  have hbehind := h.pass_name hR hname
  have hbehindColon := h.pass hbehind hcolon rfl
  exact ⟨_, h.pass_name hbehindColon htype, .mk ((h.names_iff hR).mpr hname) ((h.faces_iff hbehind).mpr hcolon)
    ((h.names_iff hbehindColon).mpr htype)⟩

omit hinner in
/-- Behind an entry points still belong together. -/
theorem carried_behindEntry (hR : R p p') : R (behindEntry p) (behindEntry p') := by
  unfold behindEntry
  by_cases hcomma : p.Faces Symbol.comma
  · rw [if_pos hcomma, if_pos ((h.faces_iff hR).mpr hcomma)]
    exact h.pass hR hcomma rfl
  · rw [if_neg hcomma, if_neg (mt (h.faces_iff hR).mp hcomma)]
    exact h.skip hR

omit hinner in
/-- The entries of a structure are carried over. -/
theorem Entries.carried {entries : List StructureEntry} (hentries : Entries entries p q) (hR : R p p') :
    Lands R q (Entries entries p') := by
  induction hentries generalizing p' with
  | nil hend => exact ⟨p', hR, .nil ((h.faces_iff hR).mpr hend)⟩
  | cons hentry _ ih =>
    obtain ⟨q', hq, hentry'⟩ := hentry.carried h hR
    obtain ⟨r', hr, hrest'⟩ := ih (carried_behindEntry h hq)
    exact ⟨r', hr, .cons hentry' hrest'⟩

omit hinner in
/-- Names behind which no colon stands have no types. -/
theorem carried_variables {names : List Declarator} {values : List Expression} {r : Point}
    (hnames : Row (Declared dialect) names p q) (hvalues : InitialValues inner values q r)
    (hcolon : ¬ r.Faces Symbol.colon) (hR : R p p') : Lands R q (Row (Declared other) names p') := by
  refine hnames.carried h (fun r => ¬ r.Faces Symbol.colon) hR
    (fun hname hR hcolon => Declared.carried h hname hR hcolon) (fun r hcomma => hcomma.not_faces (by decide)) ?_
  cases hvalues with
  | none => exact hcolon
  | some hassign => exact hassign.not_faces (by decide)

/-! ## Statements -/

/-- A statement that is more than a semicolon is carried over. -/
theorem ProperStatement.carried {v : Statement} (hstatement : ProperStatement dialect inner v p q) (hR : R p p')
    (hcolon : p.Faces ReservedWord.localWord → ¬ q.Faces Symbol.colon) :
    Lands R q (ProperStatement other inner' v p') := by
  cases hstatement with
  | breakStatement hword =>
    exact ⟨_, h.pass hR hword rfl, .breakStatement ((h.faces_iff hR).mpr hword)⟩
  | gotoStatement hgoto hlabel =>
    have hbehind : R p.step p'.step :=
      hgoto.elim (h.pass hR · rfl) fun hcontextual =>
        @Carries.pass_name _ _ _ _ _ h hR ⟨"goto", false, .none⟩ hcontextual.2.1
    refine ⟨_, h.pass_name hbehind hlabel, .gotoStatement ?_ ((h.names_iff hbehind).mpr hlabel)⟩
    exact hgoto.imp (h.faces_iff hR).mpr (h.contextualGoto_iff hR).mpr
  | returnStatement hword hreturned =>
    obtain ⟨q', hq, hreturned'⟩ := hreturned.carried h hinner (h.pass hR hword rfl)
    exact ⟨q', hq, .returnStatement ((h.faces_iff hR).mpr hword) hreturned'⟩
  | ifStatement hword hcondition hthen hstatements hothers hlast hend =>
    obtain ⟨q', hq, hcondition'⟩ := hinner.expression hcondition (h.pass hR hword rfl)
    obtain ⟨r', hr, hstatements'⟩ := hstatements.carried h hinner (h.pass hq hthen rfl)
    obtain ⟨s', hs, hothers'⟩ := hothers.carried h hinner hr
    obtain ⟨t', ht, hlast'⟩ := hlast.carried h hinner hs
    exact ⟨_, h.pass ht hend rfl, .ifStatement ((h.faces_iff hR).mpr hword) hcondition'
      ((h.faces_iff hq).mpr hthen) hstatements' hothers' hlast' ((h.faces_iff ht).mpr hend)⟩
  | whileStatement hword hcondition hdo hstatements hend =>
    obtain ⟨q', hq, hcondition'⟩ := hinner.expression hcondition (h.pass hR hword rfl)
    obtain ⟨r', hr, hstatements'⟩ := hstatements.carried h hinner (h.pass hq hdo rfl)
    exact ⟨_, h.pass hr hend rfl, .whileStatement ((h.faces_iff hR).mpr hword) hcondition'
      ((h.faces_iff hq).mpr hdo) hstatements' ((h.faces_iff hr).mpr hend)⟩
  | doStatement hword hstatements hend =>
    obtain ⟨q', hq, hstatements'⟩ := hstatements.carried h hinner (h.pass hR hword rfl)
    exact ⟨_, h.pass hq hend rfl, .doStatement ((h.faces_iff hR).mpr hword) hstatements'
      ((h.faces_iff hq).mpr hend)⟩
  | repeatStatement hword hstatements huntil hcondition =>
    obtain ⟨q', hq, hstatements'⟩ := hstatements.carried h hinner (h.pass hR hword rfl)
    obtain ⟨r', hr, hcondition'⟩ := hinner.expression hcondition (h.pass hq huntil rfl)
    exact ⟨r', hr, .repeatStatement ((h.faces_iff hR).mpr hword) hstatements' ((h.faces_iff hq).mpr huntil)
      hcondition'⟩
  | localFunction hlocal hfunction hname hbody =>
    have hbehind := h.pass hR hlocal rfl
    have hbehindWord := h.pass hbehind hfunction rfl
    obtain ⟨q', hq, hbody'⟩ := hbody.carried h hinner (h.pass_name hbehindWord hname)
    exact ⟨q', hq, .localFunction ((h.faces_iff hR).mpr hlocal) ((h.faces_iff hbehind).mpr hfunction)
      ((h.names_iff hbehindWord).mpr hname) hbody'⟩
  | localVariables hlocal hnames hvalues =>
    obtain ⟨q', hq, hnames'⟩ := carried_variables h hnames hvalues (hcolon hlocal) (h.pass hR hlocal rfl)
    obtain ⟨r', hr, hvalues'⟩ := hvalues.carried h hinner hq
    exact ⟨r', hr, .localVariables ((h.faces_iff hR).mpr hlocal) hnames' hvalues'⟩
  | assignment hgoto htargets hassign hvalues =>
    obtain ⟨q', hq, htargets'⟩ := htargets.carried h (fun _ => True) hR
      (fun htarget hR _ => Target.carried h hinner htarget hR) (fun _ _ => trivial) trivial
    obtain ⟨r', hr, hvalues'⟩ := carried_row h hinner hvalues (h.pass hq hassign rfl)
    exact ⟨r', hr, .assignment (mt (h.contextualGoto_iff hR).mp hgoto) htargets' ((h.faces_iff hq).mpr hassign)
      hvalues'⟩
  | callStatement hgoto hsuffixed hcall hcomma =>
    obtain ⟨q', hq, hsuffixed'⟩ := hsuffixed.carried h hinner hR
    exact ⟨q', hq, .callStatement (mt (h.contextualGoto_iff hR).mp hgoto) hsuffixed' hcall
      (mt (h.faces_iff hq).mp hcomma)⟩
  | functionStatement hword hname hbody =>
    obtain ⟨q', hq, hname'⟩ := hname.carried h (h.pass hR hword rfl)
    obtain ⟨r', hr, hbody'⟩ := hbody.carried h hinner hq
    exact ⟨r', hr, .functionStatement ((h.faces_iff hR).mpr hword) hname' hbody'⟩
  | numericFor hword hcounter hassign hstart hcomma hstop hstep hdo hstatements hend =>
    have hbehind := h.pass hR hword rfl
    have hbehindName := h.pass_name hbehind hcounter
    obtain ⟨q', hq, hstart'⟩ := hinner.expression hstart (h.pass hbehindName hassign rfl)
    obtain ⟨r', hr, hstop'⟩ := hinner.expression hstop (h.pass hq hcomma rfl)
    obtain ⟨s', hs, hstep'⟩ := hstep.carried h hinner hr
    obtain ⟨t', ht, hstatements'⟩ := hstatements.carried h hinner (h.pass hs hdo rfl)
    exact ⟨_, h.pass ht hend rfl, .numericFor ((h.faces_iff hR).mpr hword) ((h.names_iff hbehind).mpr hcounter)
      ((h.faces_iff hbehindName).mpr hassign) hstart' ((h.faces_iff hq).mpr hcomma) hstop' hstep'
      ((h.faces_iff hs).mpr hdo) hstatements' ((h.faces_iff ht).mpr hend)⟩
  | genericFor hword hnames hin hiterators hdo hstatements hend =>
    obtain ⟨q', hq, hnames'⟩ := hnames.carried h (fun _ => True) (h.pass hR hword rfl)
      (fun hname hR _ => Name.carried h hname hR) (fun _ _ => trivial) trivial
    obtain ⟨r', hr, hiterators'⟩ := carried_row h hinner hiterators (h.pass hq hin rfl)
    obtain ⟨s', hs, hstatements'⟩ := hstatements.carried h hinner (h.pass hr hdo rfl)
    exact ⟨_, h.pass hs hend rfl, .genericFor ((h.faces_iff hR).mpr hword) hnames' ((h.faces_iff hq).mpr hin)
      hiterators' ((h.faces_iff hr).mpr hdo) hstatements' ((h.faces_iff hs).mpr hend)⟩
  | structureDeclaration hword hname hentries hend =>
    have hbehind := h.pass hR hword rfl
    obtain ⟨q', hq, hentries'⟩ := hentries.carried h (h.pass_name hbehind hname)
    exact ⟨_, h.pass hq hend rfl, .structureDeclaration ((h.faces_iff hR).mpr hword)
      ((h.names_iff hbehind).mpr hname) hentries' ((h.faces_iff hq).mpr hend)⟩

/-- A statement, or a semicolon in its place, is carried over. -/
theorem OptionalStatement.carried {v : Option Statement} (hstatement : OptionalStatement dialect inner v p q)
    (hR : R p p') (hcolon : p.Faces ReservedWord.localWord → ¬ q.Faces Symbol.colon) :
    Lands R q (OptionalStatement other inner' v p') := by
  cases hstatement with
  | empty hempty hsemicolon =>
    exact ⟨_, h.pass hR hsemicolon rfl,
      .empty ((h.has (by decide)).trans hempty) ((h.faces_iff hR).mpr hsemicolon)⟩
  | label hlabels hleft hname hright =>
    have hbehind := h.pass hR hleft rfl
    have hbehindName := h.pass_name hbehind hname
    exact ⟨_, h.pass hbehindName hright rfl, .label ((h.has (by decide)).trans hlabels)
      ((h.faces_iff hR).mpr hleft) ((h.names_iff hbehind).mpr hname) ((h.faces_iff hbehindName).mpr hright)⟩
  | proper hproper =>
    obtain ⟨q', hq, hproper'⟩ := hproper.carried h hinner hR hcolon
    exact ⟨q', hq, .proper hproper'⟩

omit h hinner in
/-- No statement begins with a colon. -/
theorem OptionalStatement.not_colon {v : Option Statement} (hstatement : OptionalStatement dialect inner v p q) :
    ¬ p.Faces Symbol.colon := by
  cases hstatement with
  | empty _ hsemicolon => exact hsemicolon.not_faces (by decide)
  | label _ hleft => exact hleft.not_faces (by decide)
  | proper hproper =>
    rcases hproper.begins with ⟨word, hword, -⟩ | ⟨-, hgoto | ⟨name, hname⟩ | hleft⟩
    · exact hword.not_faces nofun
    · exact hgoto.not_faces nofun
    · rw [Point.Faces, hname]
      exact TokenValue.noConfusion
    · exact hleft.not_faces (by decide)

/-! ## Levels -/

/-- What nests one level deeper is carried over. -/
theorem Carried.deeper : Carried R (inner.deeper dialect) (inner'.deeper other) where
  statement hstatement hR hcolon := OptionalStatement.carried h hinner hstatement hR hcolon
  begins hstatement := hstatement.not_colon
  expression hexpression hR := Operation.carried h hinner hexpression hR
  starts hexpression := hexpression.starts
  absent habsent hR := (h.startsExpression_eq hR).trans habsent

omit hinner in
/-- What nests up to any depth is carried over. -/
theorem Carried.ofDepth (depth : Nat) : Carried R (.ofDepth dialect depth) (.ofDepth other depth) := by
  induction depth with
  | zero => exact ⟨fun h => h.elim, fun h => h.elim, fun h => h.elim, fun h => h.elim, fun h => h.elim⟩
  | succ depth ih => exact .deeper h ih

end Writing

/-- A chunk is written in a row of tokens that belongs together with one it is written in. -/
theorem Chunk.Written.carried (h : Carries dialect other R) {depth : Nat} {chunk : Chunk}
    (hwritten : chunk.Written dialect depth p q) (hR : R p p') : Lands R q (chunk.Written other depth p') := by
  obtain ⟨hstatements, hend⟩ := hwritten
  obtain ⟨q', hq, hstatements'⟩ := hstatements.carried h (.ofDepth h depth) hR
  refine ⟨q', hq, hstatements', ?_⟩
  rw [Token.isEnd, h.value hq]
  exact hend

end LuaSyntax
