import LuaSyntax.Json.Value
import LuaSyntax.Tree.Kind

/-!
# Trees as JSON

Each node is written as an object. Its member `type` holds the name of its kind, its parts follow
under their names, and where it stands comes last, as far as it is known. A part that is absent is
left out, with two exceptions: a function without a name and a counting loop without a step say so
with null. That a name is local is only said when it is, but a function always says whether it is a
local one.

Two nodes of different kinds that can stand in the same position differ in their `type`, so nothing
is lost. The exceptions are numbers that are not finite, which JSON cannot spell: they are written
as null.
-/

namespace LuaSyntax

namespace JsonValue

/-- A node of a kind with its parts. -/
def node (kind : NodeKind) (parts : List (String × JsonValue)) : JsonValue :=
  .object (("type", .text kind.name) :: parts)

end JsonValue

/-- A position as JSON. -/
def Position.toJson (position : Position) : JsonValue :=
  .object [("line", .count position.line), ("column", .count position.column)]

/-- A location as JSON. -/
def Location.toJson (location : Location) : JsonValue :=
  .object [("start", location.start.toJson), ("end", location.stop.toJson)]

/-- A span as JSON: a pair of offsets. -/
def Span.toJson (span : Span) : JsonValue := .list [.count span.start, .count span.stop]

/-- Where a node stands, as the last members of its object. -/
def Placement.members (placement : Placement) : List (String × JsonValue) :=
  JsonValue.member? "loc" (placement.location.map Location.toJson) ++
    JsonValue.member? "range" (placement.range.map Span.toJson)

/-- An identifier as JSON. -/
def Identifier.toJson (identifier : Identifier) : JsonValue :=
  .node .identifier <| ("name", .text identifier.name) ::
    (if identifier.isLocal then [("isLocal", .bool true)] else []) ++ identifier.placement.members

/-- The value of a literal as JSON. -/
def LiteralValue.toJson : LiteralValue → JsonValue
  | .string value => .text value
  | .number value => .ofFloat value
  | .boolean value => .bool value
  | .nil => .null
  | .vararg => .text "..."

/-- A literal as JSON. -/
def Literal.toJson (literal : Literal) : JsonValue :=
  .node literal.kind <| ("value", literal.value.toJson) :: ("raw", .text literal.raw) ::
    literal.placement.members

/-- A comment as JSON. -/
def Comment.toJson (comment : Comment) : JsonValue :=
  .node .comment <| ("value", .text comment.value) :: ("raw", .text comment.raw) ::
    comment.placement.members

/-- A declared name as JSON. -/
def Binding.toJson (binding : Binding) : JsonValue :=
  .object [("name", .text binding.name),
    ("node", (binding.identifier.map Identifier.toJson).getD .null)]

/-- The scope of a block, as a member of the object that holds the block. -/
def scopeMembers (scope : Option (List Binding)) : List (String × JsonValue) :=
  JsonValue.member? "scope" (scope.map fun bindings => .list (bindings.map Binding.toJson))

/-- A typed name as JSON. -/
def TypedIdentifier.toJson (typed : TypedIdentifier) : JsonValue :=
  .node .typedIdentifier <| ("name", typed.name.toJson) :: ("dataType", typed.type.toJson) ::
    typed.placement.members

/-- A declared local as JSON. -/
def Declarator.toJson : Declarator → JsonValue
  | .plain name => name.toJson
  | .typed name => name.toJson

/-- A parameter as JSON. -/
def Parameter.toJson : Parameter → JsonValue
  | .plain name => name.toJson
  | .typed name => name.toJson
  | .vararg literal => literal.toJson

/-- A field of a structure declaration as JSON. -/
def StructureEntry.toJson (entry : StructureEntry) : JsonValue :=
  .node .hstructureEntry <| ("key", entry.key.toJson) :: ("dataType", entry.type.toJson) ::
    entry.placement.members

mutual

/-- An expression as JSON. -/
def Expression.toJson : Expression → JsonValue
  | .identifier name => name.toJson
  | .literal leaf => leaf.toJson
  | .function inner => inner.toJson
  | .table inner => inner.toJson
  | .binary operator left right placement =>
    .node .binaryExpression <| ("operator", .text operator.spelling) :: ("left", left.toJson) ::
      ("right", right.toJson) :: placement.members
  | .logical operator left right placement =>
    .node .logicalExpression <| ("operator", .text operator.spelling) :: ("left", left.toJson) ::
      ("right", right.toJson) :: placement.members
  | .unary operator argument placement =>
    .node .unaryExpression <| ("operator", .text operator.spelling) ::
      ("argument", argument.toJson) :: placement.members
  | .member base indexer name placement =>
    .node .memberExpression <| ("indexer", .text indexer.spelling) :: ("identifier", name.toJson) ::
      ("base", base.toJson) :: placement.members
  | .index base index placement =>
    .node .indexExpression <| ("base", base.toJson) :: ("index", index.toJson) :: placement.members
  | .call base arguments placement =>
    .node .callExpression <| ("base", base.toJson) ::
      ("arguments", .list (expressionsToJson arguments)) :: placement.members
  | .tableCall base argument placement =>
    .node .tableCallExpression <| ("base", base.toJson) :: ("arguments", argument.toJson) ::
      placement.members
  | .stringCall base argument placement =>
    .node .stringCallExpression <| ("base", base.toJson) :: ("argument", argument.toJson) ::
      placement.members
  | .make type fields placement =>
    .node .hmakeConstructorExpression <| ("dataType", type.toJson) ::
      ("fields", .list (makeFieldsToJson fields)) :: placement.members

/-- Some expressions as JSON. -/
def expressionsToJson : List Expression → List JsonValue
  | [] => []
  | expression :: rest => expression.toJson :: expressionsToJson rest

/-- An expression as JSON, or null where there is none. -/
def optionalToJson : Option Expression → JsonValue
  | none => .null
  | some expression => expression.toJson

/-- A table constructor as JSON. -/
def Table.toJson : Table → JsonValue
  | .mk fields placement =>
    .node .tableConstructorExpression <| ("fields", .list (tableFieldsToJson fields)) ::
      placement.members

/-- A table field as JSON. -/
def TableField.toJson : TableField → JsonValue
  | .keyed key value placement =>
    .node .tableKey <| ("key", key.toJson) :: ("value", value.toJson) :: placement.members
  | .named key value placement =>
    .node .tableKeyString <| ("key", key.toJson) :: ("value", value.toJson) :: placement.members
  | .positional value placement =>
    .node .tableValue <| ("value", value.toJson) :: placement.members

/-- Some table fields as JSON. -/
def tableFieldsToJson : List TableField → List JsonValue
  | [] => []
  | field :: rest => field.toJson :: tableFieldsToJson rest

/-- A field of a structure constructor as JSON. -/
def MakeField.toJson : MakeField → JsonValue
  | .mk key value placement =>
    .node .hmakeValue <| ("key", key.toJson) :: ("value", value.toJson) :: placement.members

/-- Some fields of a structure constructor as JSON. -/
def makeFieldsToJson : List MakeField → List JsonValue
  | [] => []
  | field :: rest => field.toJson :: makeFieldsToJson rest

/-- A function as JSON. -/
def Function.toJson : Function → JsonValue
  | .mk name isLocal parameters body placement =>
    .node .functionDeclaration <| ("identifier", optionalToJson name) :: ("isLocal", .bool isLocal) ::
      ("parameters", .list (parameters.map Parameter.toJson)) :: body.members ++ placement.members

/-- A block as members of the object that holds it. -/
def Block.members : Block → List (String × JsonValue)
  | .mk statements scope => ("body", .list (statementsToJson statements)) :: scopeMembers scope

/-- A clause as JSON. -/
def Clause.toJson : Clause → JsonValue
  | .ifClause condition body placement =>
    .node .ifClause <| ("condition", condition.toJson) :: body.members ++ placement.members
  | .elseifClause condition body placement =>
    .node .elseifClause <| ("condition", condition.toJson) :: body.members ++ placement.members
  | .elseClause body placement => .node .elseClause <| body.members ++ placement.members

/-- Some clauses as JSON. -/
def clausesToJson : List Clause → List JsonValue
  | [] => []
  | clause :: rest => clause.toJson :: clausesToJson rest

/-- A statement as JSON. -/
def Statement.toJson : Statement → JsonValue
  | .labelStatement label placement =>
    .node .labelStatement <| ("label", label.toJson) :: placement.members
  | .breakStatement placement => .node .breakStatement placement.members
  | .gotoStatement label placement =>
    .node .gotoStatement <| ("label", label.toJson) :: placement.members
  | .returnStatement arguments placement =>
    .node .returnStatement <| ("arguments", .list (expressionsToJson arguments)) :: placement.members
  | .ifStatement clauses placement =>
    .node .ifStatement <| ("clauses", .list (clausesToJson clauses)) :: placement.members
  | .whileStatement condition body placement =>
    .node .whileStatement <| ("condition", condition.toJson) :: body.members ++ placement.members
  | .doStatement body placement => .node .doStatement <| body.members ++ placement.members
  | .repeatStatement body condition placement =>
    .node .repeatStatement <| ("condition", condition.toJson) :: body.members ++ placement.members
  | .localStatement names values placement =>
    .node .localStatement <| ("variables", .list (names.map Declarator.toJson)) ::
      ("init", .list (expressionsToJson values)) :: placement.members
  | .assignment targets values placement =>
    .node .assignmentStatement <| ("variables", .list (expressionsToJson targets)) ::
      ("init", .list (expressionsToJson values)) :: placement.members
  | .callStatement call placement =>
    .node .callStatement <| ("expression", call.toJson) :: placement.members
  | .functionStatement function => function.toJson
  | .numericFor counter start stop step body placement =>
    .node .forNumericStatement <| ("variable", counter.toJson) :: ("start", start.toJson) ::
      ("end", stop.toJson) :: ("step", optionalToJson step) :: body.members ++ placement.members
  | .genericFor names iterators body placement =>
    .node .forGenericStatement <| ("variables", .list (names.map Identifier.toJson)) ::
      ("iterators", .list (expressionsToJson iterators)) :: body.members ++ placement.members
  | .structureDeclaration name fields placement =>
    .node .hstructureDeclarationExpression <| ("name", name.toJson) ::
      ("fields", .list (fields.map StructureEntry.toJson)) :: placement.members

/-- Some statements as JSON. -/
def statementsToJson : List Statement → List JsonValue
  | [] => []
  | statement :: rest => statement.toJson :: statementsToJson rest

end

/-- A chunk as JSON. -/
def Chunk.toJson (chunk : Chunk) : JsonValue :=
  .node .chunk <| chunk.body.members ++
    JsonValue.member? "comments"
      (chunk.comments.map fun comments => .list (comments.map Comment.toJson)) ++
    JsonValue.member? "globals"
      (chunk.globals.map fun names => .list (names.map Identifier.toJson)) ++
    chunk.placement.members

end LuaSyntax
