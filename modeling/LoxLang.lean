import LoxLang.Files.Tree
import LoxLang.Proofs.Files.Path
import LoxLang.Proofs.Files.System
import LoxLang.Main
import LoxLang.Proofs.Session.Events
import LoxLang.Proofs.Scope.Record
import LoxLang.Proofs.Outcome
import LoxLang.Proofs.Syntax.Parsed
import LoxLang.Proofs.Syntax.Recovery
import LoxLang.Proofs.Native.Parametric
import LoxLang.Proofs.Scope.Addressed
import LoxLang.Proofs.Token.Words
import LoxLang.Proofs.Token.Bytes
import LoxLang.Proofs.Value.ArrayMethod
import LoxLang.Proofs.Heap.Holds
import LoxLang.Proofs.Scope.Soundness
import LoxLang.Proofs.Scope.Steps
import LoxLang.Proofs.Scope.Exactness
import LoxLang.Proofs.Scope.Addressing
import LoxLang.Proofs.Scope.Spots
import LoxLang.Proofs.Syntax.Alike
import LoxLang.Proofs.Heap.Alike
import LoxLang.Proofs.Evaluation.Alike
import LoxLang.Proofs.Scope.Alike
import LoxLang.Proofs.Syntax.Move
import LoxLang.Proofs.Syntax.Seam
import LoxLang.Proofs.Syntax.Follows
import LoxLang.Proofs.Syntax.Chunk
import LoxLang.Proofs.Session.Alike
import LoxLang.Proofs.Token.Scans
import LoxLang.Proofs.Session.Reachable
import LoxLang.Proofs.Session.Current
import LoxLang.Proofs.Session.Faulty
import LoxLang.Proofs.Session.Below
import LoxLang.Proofs.Session.Chunks
import LoxLang.Proofs.Token.Lexemes
import LoxLang.Proofs.Token.Partition
import LoxLang.Proofs.Evaluation.Declared
import LoxLang.Proofs.Evaluation.Faithful
import LoxLang.Proofs.Control.Contained
import LoxLang.Proofs.Control.Trace
import LoxLang.Proofs.Control.Order
import LoxLang.Proofs.Control.Signals
import LoxLang.Proofs.Grammar.Basic
import LoxLang.Proofs.Grammar.Words
import LoxLang.Proofs.Grammar.Derivations
import LoxLang.Proofs.Grammar.Reads
import LoxLang.Proofs.Grammar.Sound.Expressions
import LoxLang.Proofs.Grammar.Sound.Statements
import LoxLang.Proofs.Grammar.Makes
import LoxLang.Proofs.Grammar.Complete.Expressions
import LoxLang.Proofs.Grammar.Complete.Statements
import LoxLang.Proofs.Grammar.Exact
import LoxLang.Proofs.Scope.Rules
import LoxLang.Proofs.Scope.Enforced
import LoxLang.Proofs.Text.Lines
import LoxLang.Proofs.Include.Expands
import LoxLang.Proofs.Include.Origins
import LoxLang.Proofs.Include.Nesting
import LoxLang.Proofs.Include.Cycles
import LoxLang.Proofs.Token.Rows
import LoxLang.Proofs.Grammar.Places
import LoxLang.Proofs.Session.Lines
import LoxLang.Proofs.Session.Provenance
import LoxLang.Proofs.Scope.Surveyed
import LoxLang.Proofs.Scope.Surveying
import LoxLang.Proofs.Scope.SurveyedSession
import LoxLang.Proofs.Scope.Walk
import LoxLang.Proofs.Scope.Members
import LoxLang.Proofs.Number.Integers
import LoxLang.Proofs.Native.Given
import LoxLang.Proofs.Number.Rounding
import LoxLang.Proofs.Number.Order
import LoxLang.Proofs.Native.Calls
import LoxLang.Proofs.Native.Ranks
import LoxLang.Proofs.Native.Mean
import LoxLang.Proofs.Native.Division
import LoxLang.Proofs.Heap.Founded
import LoxLang.Proofs.Heap.Live
import LoxLang.Proofs.Evaluation.Changes
import LoxLang.Proofs.Evaluation.Proceeds
import LoxLang.Proofs.Evaluation.Course
import LoxLang.Proofs.Session.Passage
import LoxLang.Proofs.Session.WellFounded
import LoxLang.Proofs.Session.Effects
import LoxLang.Proofs.Token.Respelled
import LoxLang.Proofs.Renaming.Code
import LoxLang.Proofs.Renaming.Heap
import LoxLang.Proofs.Renaming.Steps
import LoxLang.Proofs.Renaming.Evaluation
import LoxLang.Proofs.Renaming.Occurrences
import LoxLang.Proofs.Renaming.Program
import LoxLang.Proofs.Renaming.Resolution
import LoxLang.Proofs.Renaming.Sessions
import LoxLang.Proofs.Renaming.Locals
import LoxLang.Proofs.Scope.Distances
import LoxLang.Proofs.Array.Lists
import LoxLang.Proofs.Array.Calls
import LoxLang.Proofs.Text.Quoted
import LoxLang.Proofs.Array.Rendering
import LoxLang.Proofs.Array.Datum
import LoxLang.Proofs.Array.Readable
import LoxLang.Proofs.Value.Equality
import LoxLang.Proofs.Native.Mode
import LoxLang.Proofs.Session.Integers
import LoxLang.Proofs.Decimal.Interval
import LoxLang.Proofs.Decimal.Shortest
import LoxLang.Proofs.Decimal.Readback
import LoxLang.Proofs.Native.Readback
import LoxLang.Proofs.Evaluation.Lineage
import LoxLang.Proofs.Session.Equality
import LoxLang.Proofs.Native.Substitution
import LoxLang.Proofs.Session.Bare
import LoxLang.Proofs.Syntax.Progress
import LoxLang.Proofs.Session.Layout
import LoxLang.Proofs.Scope.Mentions
import LoxLang.Proofs.Session.Identities
import LoxLang.Proofs.Native.Indexed
import LoxLang.Proofs.Control.Arity
import LoxLang.Proofs.Printing.Forms
import LoxLang.Proofs.Printing.Literals
import LoxLang.Proofs.Printing.Legible
import LoxLang.Proofs.Printing.Readback
import LoxLang.Proofs.Printing.Determined
