import Shanty.Text.Span
import Shanty.Text.Utf8
import Shanty.Text.Letter
import Shanty.Diagnostic
import Shanty.Fault
import Shanty.Token
import Shanty.Token.Lexer
import Shanty.Token.Stream
import Shanty.Ty
import Shanty.Ty.Registry
import Shanty.Symbol
import Shanty.Scope
import Shanty.Tree
import Shanty.Tree.Printer
import Shanty.Tree.Parser
import Shanty.Tree.Outline
import Shanty.Resolution
import Shanty.Typing.Error
import Shanty.Typing
import Shanty.Analysis
import Shanty.Code.Operand
import Shanty.Code.Quad
import Shanty.Code.Program
import Shanty.Code.Peephole
import Shanty.Code.Lowering
import Shanty.Text.Number
import Shanty.Text.Literal
import Shanty.Target.Storage
import Shanty.Target.X64
import Shanty.Target.X64.Emission
import Shanty.Target.Mips
import Shanty.Target.Mips.Emission
import Shanty.Target.Llvm
import Shanty.Target.Llvm.Printer
import Shanty.Target.Llvm.Emission
import Shanty.Target
import Shanty.Report.Excerpt
import Shanty.Report.Plain
import Shanty.Report
import Shanty.Workbench
import Shanty.Text.Path
import Shanty.Toml
import Shanty.Toml.Scalar
import Shanty.Toml.Quoted
import Shanty.Toml.Key
import Shanty.Toml.Token
import Shanty.Toml.Writer
import Shanty.Toml.Reader
import Shanty.Host
import Shanty.Host.Disk
import Shanty.Project
import Shanty.Compilation
import Shanty.CommandLine
import Shanty.Execution
import Shanty.Main
import Shanty.Proofs.Code.Machine
import Shanty.Proofs.Code.Trace
import Shanty.Proofs.Code.Peephole
import Shanty.Proofs.Code.Peephole.Condensation
import Shanty.Proofs.Scoping
import Shanty.Proofs.Scoping.Resolution
import Shanty.Proofs.Scoping.Symbols
import Shanty.Proofs.TypeRules.Checking
import Shanty.Proofs.Tree.Nodes
import Shanty.Proofs.TypeRules.Coverage
import Shanty.Proofs.TypeRules.Blame
import Shanty.Proofs.TypeRules.Remarks
import Shanty.Proofs.TypeRules.Marks
import Shanty.Proofs.TypeRules.Symmetry
import Shanty.Proofs.Evaluation
import Shanty.Proofs.Tree.Numbering
import Shanty.Proofs.Acceptance
import Shanty.Proofs.Acceptance.Phases
import Shanty.Proofs.Code.Lowering
import Shanty.Proofs.Code.Correspondence
import Shanty.Proofs.Code.Simulation
import Shanty.Proofs.Text.Number
import Shanty.Proofs.Code.Expressions
import Shanty.Proofs.Code.Statements
import Shanty.Proofs.Code.Meaning
import Shanty.Proofs.Scoping.Registry
import Shanty.Proofs.Token.Cutting
import Shanty.Proofs.Token.Stretches
import Shanty.Proofs.Acceptance.Symbols
import Shanty.Proofs.Acceptance.Sizes
import Shanty.Proofs.Code.Fitting
import Shanty.Proofs.Code.Fitting.Expressions
import Shanty.Proofs.Code.Fitting.Programs
import Shanty.Proofs.Target.Emission
import Shanty.Proofs.Acceptance.Names
import Shanty.Proofs.Code.Shape
import Shanty.Proofs.Target.Llvm.Scope
import Shanty.Proofs.Target.Llvm.Flow
import Shanty.Proofs.Target.Llvm.Names
import Shanty.Proofs.Tree.Places
import Shanty.Proofs.Tree.Postorder
import Shanty.Proofs.Token.Order
import Shanty.Proofs.Token.Progress
import Shanty.Proofs.Tree.Nesting
import Shanty.Proofs.Tree.Statements
import Shanty.Proofs.Scoping.Balance
import Shanty.Proofs.Scoping.History
import Shanty.Proofs.Fault
import Shanty.Proofs.Diagnosis
import Shanty.Proofs.Host
import Shanty.Proofs.Compilation
import Shanty.Proofs.Compilation.Artifacts
import Shanty.Proofs.Code.Accepted
import Shanty.Proofs.Code.Writes
import Shanty.Proofs.Code.Writes.Lowering
import Shanty.Proofs.Code.Writes.Programs
import Shanty.Proofs.Code.Crossing
import Shanty.Proofs.Code.Arrival
import Shanty.Proofs.Code.Operands
import Shanty.Proofs.Code.Labels
import Shanty.Proofs.Code.Variables
import Shanty.Proofs.Target.Memory
import Shanty.Proofs.Target.Frames
import Shanty.Proofs.Target.Data
import Shanty.Proofs.Target.Repetition
import Shanty.Proofs.Target.Execution
import Shanty.Proofs.Target.X64.Machine
import Shanty.Proofs.Target.X64.Representation
import Shanty.Proofs.Target.X64.Quads
import Shanty.Proofs.Target.Passing
import Shanty.Proofs.Target.Convention
import Shanty.Proofs.Code.Calls
import Shanty.Proofs.Code.CallShape
import Shanty.Proofs.Code.Accesses
import Shanty.Proofs.Target.Stack
import Shanty.Proofs.Target.Calls
import Shanty.Proofs.Target.X64.Convention
import Shanty.Proofs.Target.X64.Calls
import Shanty.Proofs.Target.Mips.Machine
import Shanty.Proofs.Target.Mips.Convention
import Shanty.Proofs.Target.Mips.Calls
import Shanty.Proofs.Target.Arguments
import Shanty.Proofs.Target.Containment
import Shanty.Proofs.Ty.Declarations
import Shanty.Proofs.Ty.Layout
import Shanty.Proofs.Code.Definitions
import Shanty.Proofs.Code.Derivation
import Shanty.Proofs.Code.Literals
import Shanty.Proofs.Code.Temporaries
import Shanty.Proofs.Code.Typed
import Shanty.Proofs.Code.Paths
import Shanty.Proofs.Tree.Leaves
import Shanty.Proofs.Acceptance.Leaves
import Shanty.Proofs.Code.Strings
import Shanty.Proofs.Token.Strings
import Shanty.Proofs.Target.Strings
import Shanty.Proofs.Report.Carets
import Shanty.Proofs.Token.Integers
import Shanty.Proofs.Code.Numbers
import Shanty.Proofs.Target.Immediates
import Shanty.Proofs.Target.Llvm.Words
import Shanty.Proofs.Target.Numbers
