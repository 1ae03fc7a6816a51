import BraceScript.Main
import BraceScript.Token.Lexer.Lemmas
import BraceScript.Tree.Equality
import BraceScript.Proofs.Parser.FirstDiagnostic
import BraceScript.Proofs.Parser.BlockRecovery
import BraceScript.Proofs.Parser.Tallest
import BraceScript.Proofs.Parser.Ceiling
import BraceScript.Proofs.Parser.Lines
import BraceScript.Proofs.Parser.Supply
import BraceScript.Proofs.Parser.Truthful
import BraceScript.Proofs.Tree.Nested
import BraceScript.Proofs.Token.Slice
import BraceScript.Proofs.Token.Parentheses
import BraceScript.Proofs.Tree.Rendering
import BraceScript.Proofs.Tree.RoundTrip
import BraceScript.Proofs.Parser.Reads
import BraceScript.Proofs.Parser.Parenthesized
import BraceScript.Proofs.Tree.Parts
import BraceScript.Proofs.Tree.Slices
import BraceScript.Proofs.Parser.Unplaced
import BraceScript.Proofs.Tree.Formed
import BraceScript.Proofs.Parser.Attempts
import BraceScript.Proofs.Parser.Demand
import BraceScript.Proofs.Parser.Precedence
import BraceScript.Proofs.Diagnostic.Caret
import BraceScript.Proofs.Token.Spacing
import BraceScript.Proofs.Source.Lookup
