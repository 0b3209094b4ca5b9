import HalConstants.Files.Tree
import HalConstants.Main
import HalConstants.Proofs.Pattern.Matches
import HalConstants.Proofs.Header.Annotations
import HalConstants.Proofs.Header.PropertyScan
import HalConstants.Proofs.Header.PropertyWriting
import HalConstants.Proofs.Header.OwnComment
import HalConstants.Proofs.Header.EnumerationScan
import HalConstants.Proofs.Header.OwnBody
import HalConstants.Proofs.Header.EnumerationWriting
import HalConstants.Proofs.Header.LinearScan
import HalConstants.Proofs.Header.KeySpan
import HalConstants.Proofs.Text.Bytes
import HalConstants.Proofs.Text.Numeral
import HalConstants.Proofs.Text.Uppercase
import HalConstants.Proofs.Code.Lines
import HalConstants.Proofs.Target.PythonLines
import HalConstants.Proofs.Target.PythonColumns
import HalConstants.Proofs.Target.JavaLines
import HalConstants.Proofs.Target.JavaReading
import HalConstants.Proofs.Json.Spelling
import HalConstants.Proofs.EnumDocument.ReadBack
import HalConstants.Proofs.Review.Order
import HalConstants.Proofs.Run.Agreement
import HalConstants.Proofs.Run.Delivery
import HalConstants.Proofs.Review.Silence
import HalConstants.Proofs.Target.JavaDeclarations
import HalConstants.Proofs.EnumDocument.PlainText
import HalConstants.Proofs.Target.PythonNames
import HalConstants.Proofs.Header.Items
import HalConstants.Proofs.Review.Snapshots
import HalConstants.Proofs.Text.NumeralGrammar
import HalConstants.Proofs.EnumDocument.Acceptance
import HalConstants.Proofs.Header.EnumerationLinearScan
import HalConstants.Proofs.Header.JoinedFiles
import HalConstants.Proofs.HalVersion
import HalConstants.Proofs.Manifest.Versions
import HalConstants.Proofs.Manifest.Rebase
import HalConstants.Proofs.Header.Values
import HalConstants.Proofs.Target.JavaDispatch
import HalConstants.Proofs.Review.Findings
import HalConstants.Proofs.Code.Steps
import HalConstants.Proofs.Model.FirstValues
import HalConstants.Proofs.Target.JavaAliases
import HalConstants.Proofs.Header.Strings
import HalConstants.Proofs.Json.Printing
import HalConstants.Proofs.Model.JsonForms
import HalConstants.Proofs.Target.JavaNames
import HalConstants.Proofs.Manifest.Labels
import HalConstants.Proofs.Target.JavaIdentifiers
import HalConstants.Proofs.Files.Children
import HalConstants.Proofs.Target.JavaHeading
import HalConstants.Proofs.CommandLine.Invariants
import HalConstants.Proofs.CommandLine.Names
