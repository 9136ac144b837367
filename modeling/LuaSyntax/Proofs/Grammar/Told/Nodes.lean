import LuaSyntax.Proofs.Grammar.Depth.Levels
import LuaSyntax.Proofs.Grammar.Gathered
import LuaSyntax.Proofs.Grammar.Told.Statement

/-!
# Observers see a tree from its leaves up

Of an accepted source an observer is told every node of the chunk, each once, its parts before it and one
behind the other as they are written. What it is told is what stands in the chunk, except that names were
told of before they were resolved. Comments are told of when they come into view with the tokens behind
them; these are the comments of the source in their order, and there are none if they are not collected.
-/

namespace LuaSyntax

namespace Grammar

open Rule

variable {context : Context} {origin s t : State} {items : List Item}

/-! ## Steps -/

/-- The parts of the tree that were told of, in order. -/
def State.parts (s : State) : List Node := s.log.reverse.filterMap Event.part?

/-- The comments that were told of, in order. -/
def State.remarks (s : State) : List Comment := s.log.reverse.filterMap Event.comment?

/-- What is told last comes last. -/
theorem told_last {α : Type} (what : Event → Option α) (event : Event) (log : List Event) :
    (event :: log).reverse.filterMap what = log.reverse.filterMap what ++ (what event).toList := by
  rw [List.reverse_cons, List.filterMap_append]
  cases h : what event <;> simp [h]

/-- Two states between which neither nodes nor comments were told of. -/
structure State.Level (s t : State) : Prop where
  parts : t.parts = s.parts
  remarks : t.remarks = s.remarks
  comments : t.comments = s.comments
  feed : t.feed = s.feed

/-- To open a scope takes no tokens. -/
theorem level_openScope (h : openScope context s = (.ok (), t)) : s.Level t := by
  rw [openScope_eq] at h
  obtain rfl := (Prod.mk.inj h).2
  split
  · exact ⟨(told_last _ _ _).trans (List.append_nil _), (told_last _ _ _).trans (List.append_nil _),
      rfl, rfl⟩
  · exact ⟨rfl, rfl, rfl, rfl⟩

/-- To close a scope takes no tokens. -/
theorem level_closeScope {scope : Option (List Binding)} (h : closeScope context s = (.ok scope, t)) :
    s.Level t := by
  rw [closeScope_eq] at h
  obtain rfl := (Prod.mk.inj h).2
  split
  · exact ⟨(told_last _ _ _).trans (List.append_nil _), (told_last _ _ _).trans (List.append_nil _),
      rfl, rfl⟩
  · exact ⟨rfl, rfl, rfl, rfl⟩

/-- With a token an observer is told of the comments before the token that comes into view. -/
theorem parts_advance (h : advance context s = (.ok (), t)) :
    t.parts = s.parts ∧ ∃ comments, t.remarks = s.remarks ++ comments ∧
      t.comments = s.comments ++ comments := by
  obtain ⟨delivery, feed, -, rfl⟩ := advance_eq_ok.mp h
  refine ⟨?_, delivery.comments, ?_, rfl⟩
  · rw [State.parts, shift, List.reverse_append, List.reverse_reverse, List.filterMap_append,
      List.filterMap_map]
    exact (congrArg _ (List.filterMap_eq_nil_iff.mpr fun _ _ => rfl)).trans (List.append_nil _)
  · rw [State.remarks, shift, List.reverse_append, List.reverse_reverse, List.filterMap_append,
      List.filterMap_map]
    exact congrArg _ (List.filterMap_some ..)

/-- A part of the tree is no comment. -/
theorem comment?_of_part? {event : Event} {node : Node} (h : event.part? = some node) :
    event.comment? = none := by
  cases event with
  | completed inner =>
    cases inner with
    | comment inner => cases h
    | _ => rfl
  | _ => rfl

/-! ## Runs -/

/-- What was told of items are the nodes in them. -/
theorem Told.parts_eq (h : Told context origin items s) :
    s.parts = origin.parts ++ items.flatMap Item.told := by
  induction h with
  | nothing => exact (List.append_nil _).symm
  | token _ _ hrun ih => exact (parts_advance hrun).1.trans ih
  | jumps _ _ ih => exact ih
  | unresolved _ _ ih => exact ih
  | declared _ _ _ ih => exact ((told_last _ _ _).trans (List.append_nil _)).trans ih
  | opened _ hrun ih =>
    rw [(level_openScope hrun).parts, ih, List.flatMap_append]
    exact congrArg _ (List.append_nil _).symm
  | closed _ hrun ih =>
    rw [(level_closeScope hrun).parts, ih]
    simp [Item.told]
  | renamed _ halike ih => rw [ih, halike.flatMap Item.told_asRead]
  | node _ _ _ _ hpart ih ih' =>
    refine (told_last _ _ _).trans ?_
    rw [hpart, List.flatMap_append, List.flatMap_singleton, Item.told_node, ← List.append_assoc,
      ← List.append_assoc, ← ih]
    exact congrArg (· ++ _) ih'

/-- All comments that were met were told of. -/
theorem Told.remarks_eq (h : Told context origin items s) (horigin : origin.remarks = origin.comments) :
    s.remarks = s.comments := by
  induction h with
  | nothing => exact horigin
  | token _ _ hrun ih =>
    obtain ⟨-, comments, hremarks, hcomments⟩ := parts_advance hrun
    rw [hremarks, hcomments, ih horigin]
  | jumps _ _ ih => exact ih horigin
  | unresolved _ _ ih => exact ih horigin
  | declared _ _ _ ih => exact ((told_last _ _ _).trans (List.append_nil _)).trans (ih horigin)
  | opened _ hrun ih =>
    rw [(level_openScope hrun).remarks, (level_openScope hrun).comments, ih horigin]
  | closed _ hrun ih =>
    rw [(level_closeScope hrun).remarks, (level_closeScope hrun).comments, ih horigin]
  | renamed _ _ ih => exact ih horigin
  | node _ _ _ _ hpart ih ih' =>
    refine (told_last _ _ _).trans ?_
    rw [comment?_of_part? hpart]
    exact (List.append_nil _).trans (ih' (ih horigin))

/-- What was met of the comments and what is still to be met are all that there are. -/
theorem comments_advance (h : advance context s = (.ok (), t)) :
    t.comments ++ t.feed.comments = s.comments ++ s.feed.comments := by
  obtain ⟨delivery, feed, hnext, rfl⟩ := advance_eq_ok.mp h
  rw [Feed.comments_next hnext, ← List.append_assoc]
  rfl

/-- No comment is lost: each was met already or is still to come. -/
theorem Told.comments_eq (h : Told context origin items s) :
    s.comments ++ s.feed.comments = origin.comments ++ origin.feed.comments := by
  induction h with
  | nothing => rfl
  | token _ _ hrun ih => exact (comments_advance hrun).trans ih
  | jumps _ _ ih => exact ih
  | unresolved _ _ ih => exact ih
  | declared _ _ _ ih => exact ih
  | opened _ hrun ih => rw [(level_openScope hrun).comments, (level_openScope hrun).feed, ih]
  | closed _ hrun ih => rw [(level_closeScope hrun).comments, (level_closeScope hrun).feed, ih]
  | renamed _ _ ih => exact ih
  | node _ _ _ _ _ ih ih' => exact ih'.trans ih

/-! ## Whole parses -/

/-- Of an accepted feed an observer is told the nodes of the chunk and the comments that were met. -/
theorem told_of_run {options : ParseOptions} {source : Text} {feed : Feed} {value : Chunk}
    (h : (run options source feed).result = .ok value) :
    (run options source feed).events.filterMap Event.part? =
        (Node.chunk value).postorder.map Node.asRead ∧
      ∃ behind, (run options source feed).events.filterMap Event.comment? ++ behind = feed.comments ∧
        value.comments = if options.collectComments then
          some ((run options source feed).events.filterMap Event.comment?) else none := by
  rw [run_eq_levels, Outcome.of] at h ⊢
  rcases chunk_run nestingLimit (.ofFeed options source feed) (.initial options feed) with
    ⟨error, t, hrun, -⟩ | ⟨t, u, hfirst, hsecond, hrun⟩
  · rw [hrun] at h
    cases h
  · obtain ⟨opened, hopen, hbody⟩ := chunkBody_run nestingLimit (.ofFeed options source feed) u
    rw [hrun] at h ⊢
    generalize chunkBody (levels nestingLimit) (.ofFeed options source feed) u = outcome at hbody h
    cases hbody with
    | inside => cases h
    | behind => cases h
    | @whole chunk body t' u' v scope htold hclose _ hchunk _ hcomments hlog =>
      obtain rfl := Except.ok.inj h
      obtain ⟨hparts₁, found₁, hremarks₁, hmet₁⟩ := parts_advance hfirst
      obtain ⟨hparts₂, found₂, hremarks₂, hmet₂⟩ := parts_advance hsecond
      have hopened := level_openScope hopen
      have hclosed := level_closeScope hclose
      have hmet : u'.remarks = u'.comments := by
        rw [hclosed.remarks, hclosed.comments]
        refine htold.remarks_eq ?_
        rw [hopened.remarks, hopened.comments, hremarks₂, hmet₂, hremarks₁, hmet₁]
        rfl
      have hall : u'.comments ++ u'.feed.comments = feed.comments := by
        rw [hclosed.comments, hclosed.feed, htold.comments_eq, hopened.comments, hopened.feed,
          comments_advance hsecond, comments_advance hfirst]
        rfl
      have hremarks : v.remarks = u'.comments := by
        rw [State.remarks, hlog, told_last]
        exact (List.append_nil _).trans hmet
      refine ⟨?_, u'.feed.comments, (congrArg (· ++ _) hremarks).trans hall, ?_⟩
      · show v.parts = (Item.node (.chunk chunk)).told
        have hlast : v.parts = u'.parts ++ [.chunk chunk] := by
          rw [State.parts, hlog]
          exact told_last _ _ _
        have hbody : chunk.body.items.flatMap Item.told = (body.map Statement.item).flatMap Item.told := by
          rw [hchunk, Block.items, List.flatMap_append]
          exact List.append_nil _
        rw [hlast, hclosed.parts, htold.parts_eq, hopened.parts, hparts₂, hparts₁, Item.told_node,
          ← hbody]
        rfl
      · rw [hcomments, ← hremarks]
        rfl

end Grammar

/-! ## Whole sources -/

variable {options : ParseOptions} {source : Text}

/-- If comments are not collected then none are delivered. -/
theorem Lexer.comments_feed (h : options.collectComments = false) :
    (Lexer.feed options source).comments = [] := by
  have hnext {lexer after : Lexer} {token : Token} (hlexer : lexer.Clear options source)
      (hn : lexer.next = (.ok token, after)) : after.comments = [] := by
    obtain ⟨text, hsited⟩ := hlexer.sited
    obtain ⟨-, value, length, -, -, rfl⟩ := (Lexer.next_eq_ok hsited.rest_eq).mp hn
    rw [Lexer.behind, hlexer.comments_eq, Lexer.trivia, Trivia.read, hlexer.options_eq, h]
    rfl
  have hclear := Lexer.clear_start options source
  obtain ⟨text, hsited⟩ := hclear.sited
  obtain ⟨stop, hreads, hending⟩ := hsited.reads_reading
  obtain ⟨hstop, hread⟩ := hreads.holds hclear Lexer.Clear.next
  rw [Lexer.feed_eq_reading, Feed.comments, List.flatMap_eq_nil_iff, Feed.stock]
  refine List.forall_mem_append.mpr ⟨fun delivery hmem => ?_, fun delivery hmem => ?_⟩
  · obtain ⟨lexer, after, hlexer, hn, heq⟩ := hread delivery hmem
    exact heq.symm.trans (hnext hlexer hn)
  · obtain ⟨error, after, -, heq⟩ | ⟨token, after, hn, -, heq⟩ := hending
    · rw [heq] at hmem
      cases hmem
    · rw [heq] at hmem
      obtain rfl := List.mem_singleton.mp hmem
      exact hnext hstop hn

/-- An observer of an accepted source is told the nodes of the chunk in post-order, each as it is read, and
besides them exactly the comments of the source in their order, if they are collected; these are also the
comments that the chunk has. -/
theorem told_in_postorder {chunk : Chunk} (h : parse options source = .ok chunk) :
    (parseWithEvents options source).events.filterMap Event.part? =
        (Node.chunk chunk).postorder.map Node.asRead ∧
      (parseWithEvents options source).events.filterMap Event.comment? =
        (if options.collectComments then (Lexer.feed options source).comments else []) ∧
      chunk.comments = if options.collectComments then
        some ((parseWithEvents options source).events.filterMap Event.comment?) else none := by
  obtain ⟨hparts, behind, hremarks, hcomments⟩ := Grammar.told_of_run h
  refine ⟨hparts, ?_, hcomments⟩
  have hgathered := Grammar.comments_of_run (isEnd_of_feed options source) h
  cases hcollect : options.collectComments with
  | true =>
    rw [hcollect, if_pos rfl] at hcomments hgathered
    exact Option.some.inj (hcomments.symm.trans hgathered)
  | false =>
    rw [Lexer.comments_feed hcollect] at hremarks
    exact (List.append_eq_nil_iff.mp hremarks).1

/-- A function with a parameter, in it a loop, in it a call. -/
theorem told_in_postorder_nested :
    ∃ chunk, parse { trackScopes := true }
        "local function f(a)\n--c\nfor i = a, 2 do g(i, f) end end".toList = .ok chunk ∧
      (Node.chunk chunk).postorder.map (fun node => node.asRead.kind) =
        [.identifier, .identifier, .identifier, .identifier, .numericLiteral, .identifier, .identifier,
          .identifier, .callExpression, .callStatement, .forNumericStatement, .functionDeclaration,
          .chunk] ∧
      chunk.comments.map (·.map Comment.value) = some ["c"] := by
  have haccepted : (parse { trackScopes := true }
      "local function f(a)\n--c\nfor i = a, 2 do g(i, f) end end".toList).toBool = true := by
    decide +kernel
  cases hparse : parse { trackScopes := true }
      "local function f(a)\n--c\nfor i = a, 2 do g(i, f) end end".toList with
  | error error =>
    rw [hparse] at haccepted
    cases haccepted
  | ok chunk =>
    obtain ⟨hparts, -, hcomments⟩ := told_in_postorder hparse
    have hkinds : ((parseWithEvents { trackScopes := true }
        "local function f(a)\n--c\nfor i = a, 2 do g(i, f) end end".toList).events.filterMap
          Event.part?).map Node.kind =
        [.identifier, .identifier, .identifier, .identifier, .numericLiteral, .identifier, .identifier,
          .identifier, .callExpression, .callStatement, .forNumericStatement, .functionDeclaration,
          .chunk] := by
      decide +kernel
    have hvalues : ((parseWithEvents { trackScopes := true }
        "local function f(a)\n--c\nfor i = a, 2 do g(i, f) end end".toList).events.filterMap
          Event.comment?).map Comment.value = ["c"] := by
      decide +kernel
    refine ⟨chunk, rfl, ?_, ?_⟩
    · rw [← hkinds, hparts, List.map_map]
      rfl
    · rw [hcomments, if_pos rfl, Option.map_some, hvalues]

end LuaSyntax
