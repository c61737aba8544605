import InfixArithmetic.Expression.Source
import InfixArithmetic.Lexeme.Split
import InfixArithmetic.Journal
import InfixArithmetic.Main
import InfixArithmetic.Proofs.Expression.Diagnosis
import InfixArithmetic.Proofs.Expression.Polish
import InfixArithmetic.Proofs.Expression.Source
import InfixArithmetic.Proofs.Expression.Value
import InfixArithmetic.Proofs.Lexeme.Flaw
import InfixArithmetic.Proofs.Machine.Counting
import InfixArithmetic.Proofs.Machine.Refinement
import InfixArithmetic.Proofs.Machine.Steps
import InfixArithmetic.Proofs.OperandSide.Finite
import InfixArithmetic.Proofs.Sketch.Prefix
import InfixArithmetic.Proofs.TokenStream.Agreement
import InfixArithmetic.Proofs.TokenStream.Continuation
import InfixArithmetic.Proofs.TokenStream.Pointing
import InfixArithmetic.Proofs.Machine.Nested
import InfixArithmetic.Proofs.Lexeme.Relocation
import InfixArithmetic.Proofs.Machine.Relocation
import InfixArithmetic.Proofs.TokenStream.Relocation
import InfixArithmetic.Proofs.TokenStream.Blanks
import InfixArithmetic.Proofs.TokenStream.WrittenStar
import InfixArithmetic.Proofs.Lexeme.Range
import InfixArithmetic.Proofs.Expression.Context
import InfixArithmetic.Proofs.Expression.Parentheses
import InfixArithmetic.Proofs.Machine.Conservation
import InfixArithmetic.Proofs.Machine.History
import InfixArithmetic.Proofs.Machine.PendingSigns
import InfixArithmetic.Proofs.TokenStream.Shape
import InfixArithmetic.Proofs.TokenStream.Signs
import InfixArithmetic.Proofs.CommandLine.File
import InfixArithmetic.Proofs.Machine.StackOrder
import InfixArithmetic.Proofs.Journal.Order
import InfixArithmetic.Proofs.Token.Words
