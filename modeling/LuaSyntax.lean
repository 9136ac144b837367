import LuaSyntax.Text.Span
import LuaSyntax.Diagnostic.ParseError
import LuaSyntax.Options
import LuaSyntax.Json.Value
import LuaSyntax.Text.Utf8
import LuaSyntax.Text.NameCharacter
import LuaSyntax.Text.Pieces
import LuaSyntax.Token.Basic
import LuaSyntax.Token.LongBracket
import LuaSyntax.Token.Numeral
import LuaSyntax.Token.Lexer
import LuaSyntax.Tree.Basic
import LuaSyntax.Tree.Node
import LuaSyntax.Tree.Visitor
import LuaSyntax.Tree.Json
import LuaSyntax.Scope
import LuaSyntax.Jump
import LuaSyntax.Parse
import LuaSyntax.Stream
import LuaSyntax.Proofs.Reading.Pieces
import LuaSyntax.Proofs.Reading.Strings
import LuaSyntax.Proofs.Reading.Brackets
import LuaSyntax.Proofs.Reading.Numerals
import LuaSyntax.Proofs.Reading.Lexemes
import LuaSyntax.Proofs.Reading.Lexers
import LuaSyntax.Proofs.Reading.Deliveries
import LuaSyntax.Proofs.Streaming.Replay
import LuaSyntax.Proofs.Streaming.Kept
import LuaSyntax.Proofs.Tree.Erasure
import LuaSyntax.Proofs.Grammar.Same
import LuaSyntax.Proofs.Grammar.Jumps
import LuaSyntax.Proofs.Grammar.Pairing
import LuaSyntax.Proofs.Grammar.Repetition
import LuaSyntax.Proofs.Grammar.Lockstep.Leaf
import LuaSyntax.Proofs.Grammar.Lockstep.Diagonal
import LuaSyntax.Proofs.Grammar.Lockstep.Block
import LuaSyntax.Proofs.Grammar.Lockstep.Expression
import LuaSyntax.Proofs.Grammar.Lockstep.Statement
import LuaSyntax.Proofs.Grammar.Endings
import LuaSyntax.Proofs.Grammar.Beginnings
import LuaSyntax.Proofs.Streaming.OneShot
import LuaSyntax.Proofs.Streaming.Answers
import LuaSyntax.Proofs.Tree.Resolution
import LuaSyntax.Proofs.Tree.Resolved
import LuaSyntax.Proofs.Grammar.Scoping.Leaf
import LuaSyntax.Proofs.Grammar.Scoping.Block
import LuaSyntax.Proofs.Grammar.Scoping.Expression
import LuaSyntax.Proofs.Grammar.Scoping.Statement
import LuaSyntax.Proofs.Writing.Statement
import LuaSyntax.Proofs.Jumps.Frame
import LuaSyntax.Proofs.Jumps.Record
import LuaSyntax.Proofs.Jumps.Shows
import LuaSyntax.Proofs.Grammar.Sound.Rule
import LuaSyntax.Proofs.Grammar.Quiet
import LuaSyntax.Proofs.Grammar.Sound.Block
import LuaSyntax.Proofs.Grammar.Sound.Expression
import LuaSyntax.Proofs.Grammar.Sound.Statement
import LuaSyntax.Proofs.Grammar.Sound.Chunk
import LuaSyntax.Proofs.Grammar.Accepted
import LuaSyntax.Proofs.Grammar.Complete.Block
import LuaSyntax.Proofs.Grammar.Complete.Expression
import LuaSyntax.Proofs.Grammar.Complete.Statement
import LuaSyntax.Proofs.Grammar.Complete.Chunk
import LuaSyntax.Proofs.Writing.Words
import LuaSyntax.Proofs.Writing.Spelled.Block
import LuaSyntax.Proofs.Writing.Spelled.Expression
import LuaSyntax.Proofs.Writing.Spelled.Statement
import LuaSyntax.Proofs.Grammar.Grounded.Ground
import LuaSyntax.Proofs.Grammar.Grounded.Block
import LuaSyntax.Proofs.Grammar.Grounded.Expression
import LuaSyntax.Proofs.Grammar.Grounded.Statement
import LuaSyntax.Proofs.Grammar.Grounded.Chunk
import LuaSyntax.Proofs.Grammar.Grounded.Dialect
import LuaSyntax.Proofs.Text.Scan
import LuaSyntax.Proofs.Reading.Breaks.Lexemes
import LuaSyntax.Proofs.Grammar.Grounded.Places
import LuaSyntax.Proofs.Grammar.Gathered
import LuaSyntax.Proofs.Jumps.Reaches
import LuaSyntax.Proofs.Jumps.Waiting
import LuaSyntax.Proofs.Tree.Akin
import LuaSyntax.Proofs.Grammar.Told.Rule
import LuaSyntax.Proofs.Streaming.Cuts
import LuaSyntax.Proofs.Reading.Slices
import LuaSyntax.Proofs.Tree.Parts
import LuaSyntax.Proofs.Grammar.Told.Nodes
import LuaSyntax.Proofs.Grammar.Told.Scopes
import LuaSyntax.Proofs.Grammar.Told.Ranges
import LuaSyntax.Proofs.Grammar.Twins.Books
import LuaSyntax.Proofs.Grammar.Twins.Rule
import LuaSyntax.Proofs.Grammar.Twins.Leaf
import LuaSyntax.Proofs.Grammar.Twins.Block
import LuaSyntax.Proofs.Grammar.Twins.Expression
import LuaSyntax.Proofs.Grammar.Twins.Statement
import LuaSyntax.Proofs.Grammar.Twins.Chunk
import LuaSyntax.Proofs.Grammar.Twins.Lexer
import LuaSyntax.Proofs.Grammar.Twins.Whole
import LuaSyntax.Proofs.Writing.Ranked
import LuaSyntax.Proofs.Grammar.Precedence
import LuaSyntax.Proofs.Writing.Carried.Expression
import LuaSyntax.Proofs.Writing.Carried.Statement
import LuaSyntax.Proofs.Writing.Follows
import LuaSyntax.Proofs.Tree.Features
import LuaSyntax.Proofs.Reading.Dialects
import LuaSyntax.Proofs.Grammar.Extensions
import LuaSyntax.Proofs.Text.Runs
import LuaSyntax.Proofs.Reading.Apart.Strings
import LuaSyntax.Proofs.Reading.Apart.Numerals
import LuaSyntax.Proofs.Reading.Apart.Lexemes
import LuaSyntax.Proofs.Reading.Separators
import LuaSyntax.Proofs.Reading.Lengths
import LuaSyntax.Proofs.Reading.Layout
import LuaSyntax.Proofs.Grammar.Tacit.Expression
import LuaSyntax.Proofs.Grammar.Tacit.Statement
import LuaSyntax.Proofs.Grammar.Scoping.Unplaced
import LuaSyntax.Proofs.Grammar.Layout
import LuaSyntax.Proofs.Text.Utf8
import LuaSyntax.Proofs.Reading.Tokens
import LuaSyntax.Proofs.Reading.Forms.Escapes
import LuaSyntax.Proofs.Reading.Forms.Quoted
import LuaSyntax.Proofs.Reading.Forms.LongBrackets
import LuaSyntax.Proofs.Reading.Forms.Figures
import LuaSyntax.Proofs.Reading.Forms.Numerals
import LuaSyntax.Proofs.Reading.Resumed
import LuaSyntax.Proofs.Grammar.Bounds.Rule
import LuaSyntax.Proofs.Grammar.Bounds.Expression
import LuaSyntax.Proofs.Grammar.Bounds.Statement
import LuaSyntax.Proofs.Tree.Within
import LuaSyntax.Proofs.Writing.Padded.Row
import LuaSyntax.Proofs.Writing.Padded.Expression
import LuaSyntax.Proofs.Writing.Padded.Statement
import LuaSyntax.Proofs.Grammar.Inert
import LuaSyntax.Proofs.Grammar.Told.Leaves
import LuaSyntax.Proofs.Scope.History
import LuaSyntax.Proofs.Json.Lossless
import LuaSyntax.Proofs.Grammar.Depth.Limit
import LuaSyntax.Proofs.Reading.Guarded.Lexers
import LuaSyntax.Proofs.Jumps.Indices
import LuaSyntax.Proofs.Diagnostic.Filling
