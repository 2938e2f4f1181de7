import ExprCompiler.Main
import ExprCompiler.Llvm.Bindings
import ExprCompiler.Proofs.Code
import ExprCompiler.Proofs.CodeCorrectness
import ExprCompiler.Proofs.PostfixCode
import ExprCompiler.Proofs.StackHeights
import ExprCompiler.Proofs.Decoding
import ExprCompiler.Proofs.Lexemes
import ExprCompiler.Proofs.Lexing
import ExprCompiler.Proofs.LexerCorrectness
import ExprCompiler.Proofs.Concatenation
import ExprCompiler.Proofs.CheckedLexing
import ExprCompiler.Proofs.Grammar
import ExprCompiler.Proofs.ParserCorrectness
import ExprCompiler.Proofs.ViablePrefixes
import ExprCompiler.Proofs.LongestExpression
import ExprCompiler.Proofs.Compiling
import ExprCompiler.Proofs.TokenConservation
import ExprCompiler.Proofs.Spacing
import ExprCompiler.Proofs.Parentheses
import ExprCompiler.Proofs.Diagnostics
import ExprCompiler.Proofs.Denotation
import ExprCompiler.Proofs.ModularArithmetic
import ExprCompiler.Proofs.Processor
import ExprCompiler.Proofs.AssemblyText
import ExprCompiler.Proofs.AssemblyLabels
import ExprCompiler.Proofs.AssemblyCorrectness
import ExprCompiler.Proofs.LimitedOutput
import ExprCompiler.Proofs.LlvmDrafts
import ExprCompiler.Proofs.LlvmCorrectness
import ExprCompiler.Proofs.ControlFlow
import ExprCompiler.Proofs.LlvmValidity
import ExprCompiler.Proofs.TreeFaults
import ExprCompiler.Proofs.Output
import ExprCompiler.Proofs.CommandLine
import ExprCompiler.Proofs.LabelResolution
import ExprCompiler.Proofs.GeneratedSequences
import ExprCompiler.Proofs.RepeatedLexing
import ExprCompiler.Proofs.WrittenTokens
import ExprCompiler.Proofs.Rendering
import ExprCompiler.Proofs.ExactEvaluation
import ExprCompiler.Proofs.CaretColumns
import ExprCompiler.Proofs.CursorRuns
