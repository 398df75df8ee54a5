import VersionPick.CommandLine.Machine
import VersionPick.Main
import VersionPick.Resolve.Environment
import VersionPick.Range.Printer
import VersionPick.Proofs.Precedence
import VersionPick.Proofs.Range.Spelling
import VersionPick.Proofs.Range.Components
import VersionPick.Proofs.Range.Reading
import VersionPick.Proofs.Range.Printing
import VersionPick.Proofs.Range.Complete
import VersionPick.Proofs.Range.Desugaring
import VersionPick.Proofs.Range.PreRelease
import VersionPick.Proofs.Range.Pick
import VersionPick.Proofs.Resolve.Choice
import VersionPick.Proofs.Project.Lookup
import VersionPick.Proofs.Resolve.Batch
import VersionPick.Proofs.Resolve.Environment
import VersionPick.Proofs.Resolve.Policy
import VersionPick.Proofs.Resolve.Course
import VersionPick.Proofs.Resolve.Dependence
import VersionPick.Proofs.Resolve.Exact
import VersionPick.Proofs.Resolve.Relisting
import VersionPick.Proofs.Range.Alternatives
import VersionPick.Proofs.Range.Complement
import VersionPick.Proofs.Range.Largest
import VersionPick.Proofs.Range.Synonyms
import VersionPick.Proofs.Range.Combination
import VersionPick.Proofs.CompatEntry.Clause
import VersionPick.Proofs.CompatEntry.Alternatives
import VersionPick.Proofs.CompatEntry.Caret
import VersionPick.Proofs.CompatEntry.Composition
import VersionPick.Proofs.CompatEntry.Layout
import VersionPick.Proofs.Specifier.Numerals
import VersionPick.Proofs.CommandLine.Trouble
import VersionPick.Proofs.Specifier.Spelling
import VersionPick.Proofs.Specifier.Indentation
import VersionPick.Proofs.Yaml.ScalarList
import VersionPick.Proofs.Report.Versions
import VersionPick.Proofs.Json.Quoted
import VersionPick.Proofs.Json.Value
import VersionPick.Proofs.Json.Record
import VersionPick.Proofs.Report.Lines
import VersionPick.Proofs.Catalogue.Document
import VersionPick.Proofs.Report.Builds
import VersionPick.Proofs.Text.TotalOrder
import VersionPick.Proofs.Specifier.Classes
import VersionPick.Proofs.CommandLine.Resolution
import VersionPick.Proofs.Files.Tree
import VersionPick.Proofs.Remote.Download
import VersionPick.Proofs.CommandLine.Outcome
import VersionPick.Proofs.Remote.Backoff
import VersionPick.Proofs.Report.Alignment
import VersionPick.Proofs.Report.Names
import VersionPick.Proofs.Range.Layout
import VersionPick.Proofs.Text.Hex
import VersionPick.Proofs.Yaml.Quoted
import VersionPick.Proofs.Nightly.Address
import VersionPick.Proofs.Remote.Nightlies
import VersionPick.Proofs.Remote.Attempts
import VersionPick.Proofs.Files.Path
import VersionPick.Proofs.Project.Manifest
