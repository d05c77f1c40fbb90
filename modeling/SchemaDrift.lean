import SchemaDrift.Catalog
import SchemaDrift.CommandLine.Arguments
import SchemaDrift.CommandLine.Request
import SchemaDrift.CommandLine.Run
import SchemaDrift.Compare
import SchemaDrift.Dialect
import SchemaDrift.Error
import SchemaDrift.FileSystem
import SchemaDrift.Grammar.Clauses
import SchemaDrift.Grammar.Column
import SchemaDrift.Grammar.Constraint
import SchemaDrift.Grammar.Db2
import SchemaDrift.Grammar.Definition
import SchemaDrift.Grammar.Index
import SchemaDrift.Grammar.KeyColumns
import SchemaDrift.Grammar.MySql
import SchemaDrift.Grammar.Partition
import SchemaDrift.Grammar.Postgres
import SchemaDrift.Grammar.Raw
import SchemaDrift.Grammar.Sqlite
import SchemaDrift.Grammar.Table
import SchemaDrift.Grammar.Trigger
import SchemaDrift.Grammar.TypeName
import SchemaDrift.Grammar.Value
import SchemaDrift.Grammar.View
import SchemaDrift.Identifier
import SchemaDrift.Main
import SchemaDrift.Plan.Details
import SchemaDrift.Plan.Diff
import SchemaDrift.Plan.Operation
import SchemaDrift.Plan.Order
import SchemaDrift.Proofs.Accounting
import SchemaDrift.Proofs.Agreement
import SchemaDrift.Proofs.Alterations
import SchemaDrift.Proofs.BlockStatements
import SchemaDrift.Proofs.Casts
import SchemaDrift.Proofs.Collecting
import SchemaDrift.Proofs.Concatenation
import SchemaDrift.Proofs.ConstraintNames
import SchemaDrift.Proofs.ConstraintStatements
import SchemaDrift.Proofs.Cover
import SchemaDrift.Proofs.Cycle
import SchemaDrift.Proofs.Declining
import SchemaDrift.Proofs.Definitions
import SchemaDrift.Proofs.Details
import SchemaDrift.Proofs.Edits
import SchemaDrift.Proofs.Elements
import SchemaDrift.Proofs.Extents
import SchemaDrift.Proofs.Greedy
import SchemaDrift.Proofs.Hazards
import SchemaDrift.Proofs.Juxtaposition
import SchemaDrift.Proofs.Layout
import SchemaDrift.Proofs.Lifetime
import SchemaDrift.Proofs.LiveTables
import SchemaDrift.Proofs.Lookup
import SchemaDrift.Proofs.Loops
import SchemaDrift.Proofs.Lossless
import SchemaDrift.Proofs.MovedStatements
import SchemaDrift.Proofs.Namesakes
import SchemaDrift.Proofs.ObjectTypes
import SchemaDrift.Proofs.Occurrences
import SchemaDrift.Proofs.Ordinals
import SchemaDrift.Proofs.OuterParens
import SchemaDrift.Proofs.OwnRows
import SchemaDrift.Proofs.Pairing
import SchemaDrift.Proofs.Passages
import SchemaDrift.Proofs.Precedence
import SchemaDrift.Proofs.PrimaryKeys
import SchemaDrift.Proofs.Queue
import SchemaDrift.Proofs.QuotedNames
import SchemaDrift.Proofs.Recovery
import SchemaDrift.Proofs.Refolding
import SchemaDrift.Proofs.Reformatting
import SchemaDrift.Proofs.Remarks
import SchemaDrift.Proofs.Renames
import SchemaDrift.Proofs.Repeats
import SchemaDrift.Proofs.Replay
import SchemaDrift.Proofs.Run
import SchemaDrift.Proofs.Seam
import SchemaDrift.Proofs.SelfCompare
import SchemaDrift.Proofs.Slices
import SchemaDrift.Proofs.Steps
import SchemaDrift.Proofs.Substance
import SchemaDrift.Proofs.TableDetails
import SchemaDrift.Proofs.TriggerTexts
import SchemaDrift.Proofs.TypeSuffixes
import SchemaDrift.Proofs.Unseen
import SchemaDrift.Proofs.UrlParameters
import SchemaDrift.Proofs.Verbs
import SchemaDrift.Reader
import SchemaDrift.Report.Basic
import SchemaDrift.Report.Display
import SchemaDrift.Schema.Column
import SchemaDrift.Schema.Constraint
import SchemaDrift.Schema.Kind
import SchemaDrift.Schema.Model
import SchemaDrift.Schema.Name
import SchemaDrift.Schema.Object
import SchemaDrift.Schema.Options
import SchemaDrift.Schema.Storage
import SchemaDrift.Schema.Store
import SchemaDrift.Schema.Table
import SchemaDrift.Script
import SchemaDrift.Settings.Basic
import SchemaDrift.Settings.File
import SchemaDrift.Settings.Layer
import SchemaDrift.Settings.Load
import SchemaDrift.Sources
import SchemaDrift.Statement.Piece
import SchemaDrift.Statement.Split
import SchemaDrift.Text.Alphanumeric
import SchemaDrift.Text.Blank
import SchemaDrift.Text.Case
import SchemaDrift.Text.CaseTable
import SchemaDrift.Text.Grid
import SchemaDrift.Text.Json
import SchemaDrift.Text.Measure
import SchemaDrift.Text.Pieces
import SchemaDrift.Text.Ranges
import SchemaDrift.Text.References
import SchemaDrift.Text.Search
import SchemaDrift.Text.Width
import SchemaDrift.Token.Canonical
import SchemaDrift.Token.Lex
import SchemaDrift.Toml.Document
import SchemaDrift.Toml.Node
import SchemaDrift.Toml.Scan
import SchemaDrift.Url
