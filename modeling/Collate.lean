import Collate.Blobs
import Collate.ContentType
import Collate.Csv.Reader
import Collate.Csv.Records
import Collate.Csv.Writer
import Collate.Dict
import Collate.Disk
import Collate.Extraction
import Collate.Json.Basic
import Collate.Json.Decode
import Collate.Json.Draft
import Collate.Json.Reader
import Collate.Json.Writer
import Collate.Mapping.Json
import Collate.Mapping.Scope
import Collate.Mapping.Section
import Collate.Mapping.Template
import Collate.MappingFile
import Collate.Matching.KeyIndex
import Collate.Matching.Rule
import Collate.Merge.Join
import Collate.Number.Binary64
import Collate.Number.Literal
import Collate.Number.Shortest
import Collate.Order.Basic
import Collate.Order.Fault
import Collate.Order.Item
import Collate.Order.Json
import Collate.Order.Status
import Collate.Path
import Collate.Payload
import Collate.Progress
import Collate.Proofs.Blobs
import Collate.Proofs.Blobs.Confined
import Collate.Proofs.Blobs.Lasting
import Collate.Proofs.Blobs.Names
import Collate.Proofs.Csv.Octets
import Collate.Proofs.Csv.Written
import Collate.Proofs.Dict
import Collate.Proofs.Disk
import Collate.Proofs.Distinct
import Collate.Proofs.Extraction
import Collate.Proofs.Json.Bounds
import Collate.Proofs.Json.Decoded
import Collate.Proofs.Json.Drafted
import Collate.Proofs.Json.Leaves
import Collate.Proofs.Json.Reread
import Collate.Proofs.Json.Sorted
import Collate.Proofs.Json.Unify
import Collate.Proofs.Json.Written
import Collate.Proofs.Mapping.Layers
import Collate.Proofs.Mapping.Section
import Collate.Proofs.Mapping.Selection
import Collate.Proofs.Matching.KeyIndex
import Collate.Proofs.Matching.Rule
import Collate.Proofs.Merge.Chain
import Collate.Proofs.Merge.Concat
import Collate.Proofs.Merge.Join
import Collate.Proofs.Merge.Provenance
import Collate.Proofs.Merge.Reordered
import Collate.Proofs.Merge.Shards
import Collate.Proofs.Merge.Tolerance
import Collate.Proofs.Number.Whole
import Collate.Proofs.Path
import Collate.Proofs.Service.Actions
import Collate.Proofs.Service.Announced
import Collate.Proofs.Service.Broadcast
import Collate.Proofs.Service.Calls
import Collate.Proofs.Service.Examine
import Collate.Proofs.Service.Intake
import Collate.Proofs.Service.Interleaved
import Collate.Proofs.Service.InternalKey
import Collate.Proofs.Service.LateFiles
import Collate.Proofs.Service.MappingHeaders
import Collate.Proofs.Service.Mergeable
import Collate.Proofs.Service.Merging
import Collate.Proofs.Service.Notices
import Collate.Proofs.Service.Operations
import Collate.Proofs.Service.Plans
import Collate.Proofs.Service.Pool
import Collate.Proofs.Service.Procedure
import Collate.Proofs.Service.Processing
import Collate.Proofs.Service.Refusals
import Collate.Proofs.Service.Remerging
import Collate.Proofs.Service.Reports
import Collate.Proofs.Service.Retries
import Collate.Proofs.Service.Rollup
import Collate.Proofs.Service.Sealed
import Collate.Proofs.Service.Seeding
import Collate.Proofs.Service.Served
import Collate.Proofs.Service.Settling
import Collate.Proofs.Service.SideTables
import Collate.Proofs.Service.Stranded
import Collate.Proofs.Service.Stuck
import Collate.Proofs.Service.Tallies
import Collate.Proofs.Service.Triggers
import Collate.Proofs.Service.Untimed
import Collate.Proofs.Settings.Accepted
import Collate.Proofs.Settings.Kept
import Collate.Proofs.Settings.Readable
import Collate.Proofs.Settings.Reload
import Collate.Proofs.Store.Balance
import Collate.Proofs.Store.Catalogue
import Collate.Proofs.Store.Chains
import Collate.Proofs.Store.Change
import Collate.Proofs.Store.Choices
import Collate.Proofs.Store.Counters
import Collate.Proofs.Store.History
import Collate.Proofs.Store.Lasting
import Collate.Proofs.Store.Reached
import Collate.Proofs.Store.Settled
import Collate.Proofs.Store.Slots
import Collate.Proofs.Store.Steady
import Collate.Proofs.Store.Steps
import Collate.Proofs.Store.Tidy
import Collate.Proofs.Table.Columns
import Collate.Proofs.Table.Csv
import Collate.Proofs.Table.Extracted
import Collate.Proofs.Table.Flatten
import Collate.Proofs.Table.Growth
import Collate.Proofs.Table.Renaming
import Collate.Proofs.Table.WellFormed
import Collate.Proofs.Text.Blank
import Collate.Proofs.Text.Utf8
import Collate.Proofs.Workbook.FirstRow
import Collate.Proofs.Workbook.HeaderTexts
import Collate.Proofs.Workbook.Headers
import Collate.Proofs.Workbook.Markup
import Collate.Proofs.Workbook.Nesting
import Collate.Service.Desk
import Collate.Service.Intake
import Collate.Service.Merging
import Collate.Service.Planning
import Collate.Service.Pool
import Collate.Service.Procedure
import Collate.Service.Processing
import Collate.Settings.Basic
import Collate.Settings.Load
import Collate.Settings.Schema
import Collate.Store.Basic
import Collate.Store.Items
import Collate.Store.Mapping
import Collate.Store.Orders
import Collate.Table.Basic
import Collate.Table.Csv
import Collate.Table.File
import Collate.Table.Flatten
import Collate.Table.Json
import Collate.Text.Blank
import Collate.Text.Case
import Collate.Text.CaseTable
import Collate.Text.Unknown
import Collate.Text.Utf8
import Collate.Time.Date
import Collate.Time.Reader
import Collate.Time.Timestamp
import Collate.Workbook.Archive
import Collate.Workbook.Attributes
import Collate.Workbook.FirstRow
import Collate.Workbook.Headers
import Collate.Workbook.Markup
import Collate.Workbook.SharedText
import Collate.Workbook.Sheets
