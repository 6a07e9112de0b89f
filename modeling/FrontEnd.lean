import FrontEnd.Main
import FrontEnd.Parser.Session
import FrontEnd.Tree.Equality
import FrontEnd.Tree.Nodes
import FrontEnd.Proofs.Tree.Relocation
import FrontEnd.Proofs.Parser.Simulation
import FrontEnd.Proofs.Parser.Sinks
import FrontEnd.Proofs.Parser.Reading
import FrontEnd.Proofs.Parser.ReadingExpressions
import FrontEnd.Proofs.Tree.ModuleShape
import FrontEnd.Proofs.Token.Spelling
import FrontEnd.Proofs.Parser.Accounting
import FrontEnd.Proofs.Parser.ReadingModules
import FrontEnd.Proofs.Binary64.RoundTrip
import FrontEnd.Proofs.Layout
import FrontEnd.Proofs.Tree.Text
import FrontEnd.Proofs.Token.Scanning
import FrontEnd.Proofs.Token.Lossless
import FrontEnd.Proofs.Token.Longest
import FrontEnd.Proofs.Tree.Reprinting
import FrontEnd.Proofs.Tree.ReprintingModules
import FrontEnd.Proofs.Compilation
import FrontEnd.Proofs.Parser.Placeholders
import FrontEnd.Proofs.Repair
import FrontEnd.Proofs.Grammar.Derivations
import FrontEnd.Proofs.Grammar.Prospects
import FrontEnd.Proofs.Grammar.Accepting
import FrontEnd.Proofs.Grammar.AcceptingExpressions
import FrontEnd.Proofs.Grammar.AcceptingModules
import FrontEnd.Proofs.Grammar.Acceptance
import FrontEnd.Proofs.Tree.RelocatedText
import FrontEnd.Proofs.Parser.Offsets
import FrontEnd.Proofs.Parser.Forward
import FrontEnd.Proofs.Parser.Bounds
import FrontEnd.Proofs.Parser.Progress
import FrontEnd.Proofs.Parser.Ensuring
import FrontEnd.Proofs.Parser.Ranking
import FrontEnd.Proofs.Parser.Course
import FrontEnd.Proofs.Parser.Filling
import FrontEnd.Proofs.Parser.Endings
import FrontEnd.Proofs.Parser.Placing
import FrontEnd.Proofs.Parser.Extents
import FrontEnd.Proofs.Parser.Literals
import FrontEnd.Proofs.Token.Passing
import FrontEnd.Proofs.Token.Rejection
import FrontEnd.Proofs.Token.Spacing
import FrontEnd.Proofs.Grammar.Deriving
import FrontEnd.Proofs.Grammar.Parsing
import FrontEnd.Proofs.Concatenation
import FrontEnd.Proofs.Parser.Alongside
import FrontEnd.Proofs.Parser.Lookahead
import FrontEnd.Proofs.Tree.Postorder
import FrontEnd.Proofs.Parser.Observing
import FrontEnd.Proofs.Lines
import FrontEnd.Proofs.Clamping
import FrontEnd.Proofs.Collecting
import FrontEnd.Proofs.LineText
import FrontEnd.Proofs.Excerpt
import FrontEnd.Proofs.Underline
import FrontEnd.Proofs.Parser.Decoding
import FrontEnd.Proofs.Text.Quoting
import FrontEnd.Proofs.Sketch
import FrontEnd.Proofs.Tree.Bare
import FrontEnd.Proofs.Tree.Drawing
import FrontEnd.Proofs.Tree.Outlines
import FrontEnd.Proofs.Margins
import FrontEnd.Proofs.Tree.Levels
import FrontEnd.Proofs.TextCursor
import FrontEnd.Proofs.Parser.Values
