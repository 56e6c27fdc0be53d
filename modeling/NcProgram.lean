import NcProgram.Highlight
import NcProgram.Main
import NcProgram.Session
import NcProgram.Session.Buffer
import NcProgram.Proofs.Tree.Whole
import NcProgram.Proofs.Phrase.Line
import NcProgram.Proofs.Script
import NcProgram.Proofs.Script.Tree
import NcProgram.Proofs.Script.Source
import NcProgram.Proofs.Node.Views
import NcProgram.Proofs.Node.Trailing
import NcProgram.Proofs.Node.Printing
import NcProgram.Proofs.RoundTrip
import NcProgram.Proofs.Grammar
import NcProgram.Proofs.Grammar.Line
import NcProgram.Proofs.Grammar.Program
import NcProgram.Proofs.LineByLine
import NcProgram.Proofs.WellFormed
import NcProgram.Proofs.Image
import NcProgram.Proofs.Lexeme.Place
import NcProgram.Proofs.Tokenizing
import NcProgram.Proofs.Tiling
import NcProgram.Proofs.Reprinting
import NcProgram.Proofs.Tree.Lookahead
import NcProgram.Proofs.Tree.Progress
import NcProgram.Proofs.TokenGrammar
import NcProgram.Proofs.TokenGrammar.Acceptance
import NcProgram.Proofs.TokenGrammar.Comments
import NcProgram.Proofs.TokenGrammar.Mistake
import NcProgram.Proofs.TokenGrammar.Earliest
import NcProgram.Proofs.ReaderCalls
import NcProgram.Proofs.CursorCalls
import NcProgram.Proofs.LazyReading
import NcProgram.Proofs.DigitRun.Outcome
import NcProgram.Proofs.Pointing
import NcProgram.Proofs.Delimiters
import NcProgram.Proofs.Session
import NcProgram.Proofs.Session.Block
import NcProgram.Proofs.Session.History
import NcProgram.Proofs.LexicalMistake
import NcProgram.Proofs.ExactReading
import NcProgram.Proofs.LineAtOffset
import NcProgram.Proofs.Summary
import NcProgram.Proofs.Tree.ImpliedEnd
import NcProgram.Proofs.Node.Preorder
import NcProgram.Proofs.Text.Lines
import NcProgram.Proofs.OutlineRows
import NcProgram.Proofs.Highlight
import NcProgram.Proofs.Highlight.Mistake
