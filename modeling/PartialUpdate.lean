import PartialUpdate.Association
import PartialUpdate.CommandLine.Arguments
import PartialUpdate.CommandLine.Command
import PartialUpdate.CommandLine.Help
import PartialUpdate.CommandLine.Run
import PartialUpdate.CommandLine.Session
import PartialUpdate.Config.Moment
import PartialUpdate.Config.Value
import PartialUpdate.Datum.Decode
import PartialUpdate.Datum.Error
import PartialUpdate.Datum.Value
import PartialUpdate.Delta.Classify
import PartialUpdate.Delta.Derive
import PartialUpdate.Delta.Operation
import PartialUpdate.Digest.Sha256
import PartialUpdate.Failure
import PartialUpdate.File.Error
import PartialUpdate.File.Schema
import PartialUpdate.File.Updates
import PartialUpdate.FileSystem.Atomic
import PartialUpdate.FileSystem.Basic
import PartialUpdate.FileSystem.Error
import PartialUpdate.FileSystem.Fault
import PartialUpdate.Json.Basic
import PartialUpdate.Json.Display
import PartialUpdate.Json.Equality
import PartialUpdate.Json.Read
import PartialUpdate.Json.Write
import PartialUpdate.Log
import PartialUpdate.Main
import PartialUpdate.Name
import PartialUpdate.Number.Decimal
import PartialUpdate.Number.Double
import PartialUpdate.Number.Integer
import PartialUpdate.Proofs.Association
import PartialUpdate.Proofs.Datum.Choice
import PartialUpdate.Proofs.Datum.Conformance
import PartialUpdate.Proofs.Datum.Fields
import PartialUpdate.Proofs.Datum.Fitting
import PartialUpdate.Proofs.Datum.Overflow
import PartialUpdate.Proofs.Datum.Reordering
import PartialUpdate.Proofs.Datum.Selection
import PartialUpdate.Proofs.Datum.Tagging
import PartialUpdate.Proofs.Delta.Building
import PartialUpdate.Proofs.Delta.Classification
import PartialUpdate.Proofs.Delta.Conflict
import PartialUpdate.Proofs.Delta.Derivation
import PartialUpdate.Proofs.Delta.FieldKeys
import PartialUpdate.Proofs.Delta.Fitting
import PartialUpdate.Proofs.Delta.Merging
import PartialUpdate.Proofs.Delta.Naming
import PartialUpdate.Proofs.Delta.Refusal
import PartialUpdate.Proofs.Delta.RoundTrip
import PartialUpdate.Proofs.Delta.Shape
import PartialUpdate.Proofs.Delta.Strictness
import PartialUpdate.Proofs.Delta.Update
import PartialUpdate.Proofs.Delta.WellFormed
import PartialUpdate.Proofs.File.Schema
import PartialUpdate.Proofs.File.Updates
import PartialUpdate.Proofs.FileSystem.Atomic
import PartialUpdate.Proofs.FileSystem.Change
import PartialUpdate.Proofs.FileSystem.Directories
import PartialUpdate.Proofs.FileSystem.Lookup
import PartialUpdate.Proofs.FileSystem.Path
import PartialUpdate.Proofs.FileSystem.Temporary
import PartialUpdate.Proofs.Json.Arrangement
import PartialUpdate.Proofs.Json.Document
import PartialUpdate.Proofs.Json.Keys
import PartialUpdate.Proofs.Json.Layout
import PartialUpdate.Proofs.Json.Number
import PartialUpdate.Proofs.Json.Reordering
import PartialUpdate.Proofs.Json.Respelling
import PartialUpdate.Proofs.Json.Sorting
import PartialUpdate.Proofs.Json.String
import PartialUpdate.Proofs.Number.Integer
import PartialUpdate.Proofs.Number.Range
import PartialUpdate.Proofs.Number.Shortest
import PartialUpdate.Proofs.Outcome
import PartialUpdate.Proofs.Report.Counts
import PartialUpdate.Proofs.Report.Rows
import PartialUpdate.Proofs.Schema.Akin
import PartialUpdate.Proofs.Schema.Alike
import PartialUpdate.Proofs.Schema.Arrangement
import PartialUpdate.Proofs.Schema.CanonicalForm
import PartialUpdate.Proofs.Schema.Capture
import PartialUpdate.Proofs.Schema.Coherence
import PartialUpdate.Proofs.Schema.Identity
import PartialUpdate.Proofs.Schema.Imprint
import PartialUpdate.Proofs.Schema.Lawful
import PartialUpdate.Proofs.Schema.Making
import PartialUpdate.Proofs.Schema.Occurrence
import PartialUpdate.Proofs.Schema.ReadBack
import PartialUpdate.Proofs.Schema.Reading
import PartialUpdate.Proofs.Schema.Reference
import PartialUpdate.Proofs.Schema.Resolution
import PartialUpdate.Proofs.Schema.Rewriting
import PartialUpdate.Proofs.Schema.RoundTrip
import PartialUpdate.Proofs.Schema.Sources
import PartialUpdate.Proofs.Schema.Splicing
import PartialUpdate.Proofs.Schema.Straying
import PartialUpdate.Proofs.Schema.Text
import PartialUpdate.Proofs.Schema.WellFormed
import PartialUpdate.Proofs.Schema.Writing
import PartialUpdate.Proofs.Settings.Files
import PartialUpdate.Proofs.Settings.Layering
import PartialUpdate.Proofs.Settings.Precedence
import PartialUpdate.Proofs.Settings.Reading
import PartialUpdate.Proofs.Text.Lines
import PartialUpdate.Proofs.Text.Utf8
import PartialUpdate.Report.Counts
import PartialUpdate.Report.Rows
import PartialUpdate.Report.Table
import PartialUpdate.Schema.Basic
import PartialUpdate.Schema.Check
import PartialUpdate.Schema.Draft
import PartialUpdate.Schema.Equality
import PartialUpdate.Schema.Error
import PartialUpdate.Schema.Fingerprint
import PartialUpdate.Schema.Read
import PartialUpdate.Schema.Union
import PartialUpdate.Schema.Write
import PartialUpdate.Settings.Basic
import PartialUpdate.Settings.Load
import PartialUpdate.Text.Blank
import PartialUpdate.Text.Case
import PartialUpdate.Text.Digit
import PartialUpdate.Text.Printable
import PartialUpdate.Text.Quoted
import PartialUpdate.Text.Utf8
import PartialUpdate.Toml.Document
import PartialUpdate.Toml.Number
import PartialUpdate.Toml.Read
import PartialUpdate.Toml.Text
