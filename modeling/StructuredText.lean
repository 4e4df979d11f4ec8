import StructuredText.Token.Scanner
import StructuredText.Parse
import StructuredText.Text.Printable
import StructuredText.Text.GraphemeExtend
import StructuredText.Report.Tree
import StructuredText.Report.Summary
import StructuredText.View.Declarations
import StructuredText.Config.Reader
import StructuredText.Command.Arguments
import StructuredText.Glob.Walk
import StructuredText.Files.Disk
import StructuredText.Command.Run
import StructuredText.Main
import StructuredText.Proofs.Complete
import StructuredText.Proofs.Operators
import StructuredText.Proofs.Spans
import StructuredText.Proofs.Termination
import StructuredText.Proofs.Diagnostics
import StructuredText.Proofs.Events
import StructuredText.Proofs.Dependence
import StructuredText.Proofs.Independence
import StructuredText.Proofs.Parts
import StructuredText.Proofs.Declarations
import StructuredText.Proofs.Tokens
import StructuredText.Proofs.LetterCase
import StructuredText.Proofs.Nesting
import StructuredText.Proofs.Closers
import StructuredText.Proofs.SharedComments
import StructuredText.Proofs.Overflow
import StructuredText.Proofs.Terminators
import StructuredText.Proofs.TimeLiterals
import StructuredText.Proofs.Words
import StructuredText.Proofs.Ranges
import StructuredText.Proofs.Delimiters
import StructuredText.Proofs.CallSites
import StructuredText.Proofs.Conversions
import StructuredText.Proofs.Listings
import StructuredText.Proofs.Integers
import StructuredText.Proofs.Positions
import StructuredText.Proofs.Reports
import StructuredText.Proofs.Runs
import StructuredText.Proofs.Renderings
