import PascalUnit.Grammar.Soundness
import PascalUnit.Main
import PascalUnit.Proofs.Grammar.Exactness
import PascalUnit.Proofs.Grammar.Lookahead
import PascalUnit.Proofs.Grammar.Declarative
import PascalUnit.Proofs.Grammar.Agreement
import PascalUnit.Proofs.Grammar.Unambiguity
import PascalUnit.Proofs.Tree.Acceptance
import PascalUnit.Proofs.Tree.SyntaxErrors
import PascalUnit.Proofs.Lexeme.Spelling
import PascalUnit.Proofs.Lexeme.Decomposition
import PascalUnit.Proofs.Tree.Reprint
import PascalUnit.Proofs.Grammar.Placement
import PascalUnit.Proofs.Lexeme.Respelling
import PascalUnit.Proofs.Path.Address
import PascalUnit.Proofs.Tree.Fingerprint
import PascalUnit.Proofs.Tree.Respelling
import PascalUnit.Proofs.Settings.Merging
import PascalUnit.Proofs.Settings.EntryOrder
import PascalUnit.Proofs.Settings.Layering
import PascalUnit.Proofs.Settings.Precedence
import PascalUnit.Proofs.Lexeme.Concatenation
import PascalUnit.Proofs.Lexeme.Faults
import PascalUnit.Proofs.Path.Following
import PascalUnit.Proofs.Report.Stages
import PascalUnit.Proofs.CommandLine.Arguments
import PascalUnit.Proofs.CommandLine.Execution
import PascalUnit.Proofs.Path.Reading
import PascalUnit.Proofs.Path.NormalForm
import PascalUnit.Proofs.Position.Lines
import PascalUnit.Proofs.Position.Order
import PascalUnit.Proofs.Lexeme.DumpCancellation
import PascalUnit.Proofs.Tree.Outline
import PascalUnit.Proofs.Json.Reading
import PascalUnit.Proofs.Report.Lossless
import PascalUnit.Proofs.Grammar.Progress
import PascalUnit.Proofs.Lexeme.Quoting
