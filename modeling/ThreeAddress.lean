import ThreeAddress.Assembly.Basic
import ThreeAddress.Assembly.Data
import ThreeAddress.Assembly.Peephole
import ThreeAddress.Assembly.Selection
import ThreeAddress.Assembly.Step
import ThreeAddress.Assembly.Symbol
import ThreeAddress.Assembly.Unit
import ThreeAddress.Assembly.Writer
import ThreeAddress.Check.Body
import ThreeAddress.Check.Program
import ThreeAddress.Check.Returns
import ThreeAddress.Code.Basic
import ThreeAddress.Code.Listing
import ThreeAddress.Code.Strings
import ThreeAddress.Code.Unit
import ThreeAddress.Compile
import ThreeAddress.Diagnostic
import ThreeAddress.Lowering.Body
import ThreeAddress.Lowering.Context
import ThreeAddress.Lowering.Program
import ThreeAddress.Number.Binary64
import ThreeAddress.Number.Notation
import ThreeAddress.Number.Shortest
import ThreeAddress.Scope
import ThreeAddress.Syntax.Basic
import ThreeAddress.Syntax.Print
import ThreeAddress.Syntax.Trace
import ThreeAddress.Text.Asciz
import ThreeAddress.Text.Graphic
import ThreeAddress.Text.Quoted
import ThreeAddress.Text.Styled
import ThreeAddress.Typing
import ThreeAddress.Proofs.Lowering.Steps
import ThreeAddress.Proofs.Lowering.Supply
import ThreeAddress.Proofs.Execution.Machine
import ThreeAddress.Proofs.Lowering.Labels
import ThreeAddress.Proofs.Execution.Expressions
import ThreeAddress.Proofs.Execution.Statements
import ThreeAddress.Proofs.Execution.Refinement
import ThreeAddress.Proofs.Typing.Exactness
import ThreeAddress.Proofs.Execution.History
import ThreeAddress.Proofs.Calls.Sites
import ThreeAddress.Proofs.Calls.Bodies
import ThreeAddress.Proofs.Calls.Reach
import ThreeAddress.Proofs.Calls.Arguments
import ThreeAddress.Proofs.Assembly.Kept
import ThreeAddress.Proofs.Processor.Machine
import ThreeAddress.Proofs.Processor.Peephole
import ThreeAddress.Proofs.Control.Segments
import ThreeAddress.Proofs.Control.Paths
import ThreeAddress.Proofs.Control.Returns
import ThreeAddress.Proofs.Lowering.Operands
import ThreeAddress.Proofs.Lowering.SingleUse
import ThreeAddress.Proofs.Lowering.Pairs
import ThreeAddress.Proofs.Typing.Places
import ThreeAddress.Proofs.Typing.Preservation
import ThreeAddress.Proofs.Typing.Printing
import ThreeAddress.Proofs.Assembly.Symbols
import ThreeAddress.Proofs.Assembly.Uses
import ThreeAddress.Proofs.Assembly.Closed
import ThreeAddress.Proofs.Calls.Operands
import ThreeAddress.Proofs.Number.Order
import ThreeAddress.Proofs.Processor.Straight
import ThreeAddress.Proofs.Processor.Comparison
import ThreeAddress.Proofs.Lowering.Failures
import ThreeAddress.Proofs.Typing.Nodes
import ThreeAddress.Proofs.Typing.Causes
import ThreeAddress.Proofs.Lowering.Globals
import ThreeAddress.Proofs.Typing.Hiding
import ThreeAddress.Proofs.Assembly.Compilation
import ThreeAddress.Proofs.Text.Characters
import ThreeAddress.Proofs.Text.Lines
import ThreeAddress.Proofs.Assembly.Layout
import ThreeAddress.Proofs.Assembly.Annotations
import ThreeAddress.Proofs.Lowering.Parts
import ThreeAddress.Proofs.Syntax.Grammar
import ThreeAddress.Proofs.Syntax.Tokens
import ThreeAddress.Proofs.Syntax.Parentheses
import ThreeAddress.Proofs.Typing.Reordering
import ThreeAddress.Proofs.Syntax.Words
import ThreeAddress.Proofs.Syntax.Branches
import ThreeAddress.Proofs.Assembly.Writing
import ThreeAddress.Proofs.Lowering.FirstRefusal
import ThreeAddress.Proofs.Processor.Combination
import ThreeAddress.Proofs.Processor.Data
import ThreeAddress.Proofs.Text.Asciz
import ThreeAddress.Proofs.Processor.Expansion
import ThreeAddress.Proofs.Assembly.Storage
import ThreeAddress.Proofs.Calls.Passing
import ThreeAddress.Proofs.Assembly.Parameters
import ThreeAddress.Proofs.Typing.Visits
import ThreeAddress.Proofs.Text.Controls
import ThreeAddress.Proofs.Assembly.Names
import ThreeAddress.Proofs.Assembly.Written
import ThreeAddress.Proofs.Assembly.Colours
import ThreeAddress.Proofs.Typing.Duplicates
import ThreeAddress.Proofs.Lowering.Sessions
import ThreeAddress.Proofs.Assembly.Brackets
import ThreeAddress.Proofs.Processor.Frames
import ThreeAddress.Proofs.Processor.Stack
import ThreeAddress.Proofs.Number.Rounding
import ThreeAddress.Proofs.Number.Numerals
import ThreeAddress.Proofs.Syntax.Literals
import ThreeAddress.Proofs.Lowering.Events
import ThreeAddress.Proofs.Lowering.Freshness
