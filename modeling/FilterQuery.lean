import FilterQuery.Clause
import FilterQuery.Coercion
import FilterQuery.CommandLine
import FilterQuery.Condition
import FilterQuery.Condition.Clause
import FilterQuery.Field
import FilterQuery.Filter
import FilterQuery.Filter.Preview
import FilterQuery.IdSupply
import FilterQuery.Input
import FilterQuery.Intake
import FilterQuery.Issue
import FilterQuery.Json.Reader
import FilterQuery.Json.Writer
import FilterQuery.Logging
import FilterQuery.Main
import FilterQuery.Node
import FilterQuery.Node.Record
import FilterQuery.Notice
import FilterQuery.Number.Binary64
import FilterQuery.Number.Decimal
import FilterQuery.Number.Scientific
import FilterQuery.Number.Shortest
import FilterQuery.Number.Whole
import FilterQuery.Operator
import FilterQuery.Reading
import FilterQuery.Reading.Condition
import FilterQuery.Reading.Node
import FilterQuery.Reading.Settings
import FilterQuery.Reading.Words
import FilterQuery.Relation
import FilterQuery.Rows.Edit
import FilterQuery.Rows.Grouping
import FilterQuery.Session
import FilterQuery.Settings
import FilterQuery.Submission
import FilterQuery.Suggestion
import FilterQuery.Table
import FilterQuery.Table.Cells
import FilterQuery.Table.Csv
import FilterQuery.Table.Header
import FilterQuery.Table.Records
import FilterQuery.Text.Blank
import FilterQuery.Text.Digit
import FilterQuery.Text.Hex
import FilterQuery.Text.Markup
import FilterQuery.Text.Octets
import FilterQuery.Text.Printable
import FilterQuery.Text.Quoted
import FilterQuery.Text.Search
import FilterQuery.Text.Terminal
import FilterQuery.Text.Upper
import FilterQuery.Tree.Edit
import FilterQuery.Tree.Lookup
import FilterQuery.Tree.Normal
import FilterQuery.Update
import FilterQuery.Value
import FilterQuery.Value.Display
import FilterQuery.Node.Clause
import FilterQuery.Proofs.Formula
import FilterQuery.Proofs.Formula.Tree
import FilterQuery.Proofs.Formula.Query
import FilterQuery.Proofs.Meaning
import FilterQuery.Proofs.Formula.Preview
import FilterQuery.Proofs.LockStep
import FilterQuery.Proofs.Formula.Rows
import FilterQuery.Proofs.RightNested
import FilterQuery.Proofs.IdSupply
import FilterQuery.Proofs.Reading
import FilterQuery.Proofs.Tree.Edit
import FilterQuery.Proofs.Tree.Place
import FilterQuery.Proofs.Tree.Perform
import FilterQuery.Proofs.Session
import FilterQuery.Proofs.Formula.Filter
import FilterQuery.Proofs.Formula.Attach
import FilterQuery.Proofs.Canonical
import FilterQuery.Proofs.Limits
import FilterQuery.Proofs.Json.Limits
import FilterQuery.Proofs.Number.Binary64
import FilterQuery.Proofs.Number.Digits
import FilterQuery.Proofs.Number.Nearest
import FilterQuery.Proofs.Number.Layout
import FilterQuery.Proofs.Number.Whole
import FilterQuery.Proofs.Json.Number
import FilterQuery.Proofs.Intake
import FilterQuery.Proofs.Json.RoundTrip
import FilterQuery.Proofs.Filled
import FilterQuery.Proofs.Shown
import FilterQuery.Proofs.Record
import FilterQuery.Proofs.Submission
import FilterQuery.Proofs.Run
import FilterQuery.Proofs.Rows.Update
import FilterQuery.Proofs.Rows.Joined
import FilterQuery.Proofs.Tree.Idle
import FilterQuery.Proofs.Session.Change
import FilterQuery.Proofs.Session.Subscription
import FilterQuery.Proofs.StatedRelation
import FilterQuery.Proofs.DefaultRelation
import FilterQuery.Proofs.Views
import FilterQuery.Proofs.SameViews
import FilterQuery.Proofs.HalfFilled
import FilterQuery.Proofs.Tree.Add
import FilterQuery.Proofs.Tree.Undo
import FilterQuery.Proofs.FullRecord
import FilterQuery.Proofs.Markup
import FilterQuery.Proofs.Identifiers
import FilterQuery.Proofs.CommandLine
import FilterQuery.Proofs.Tree.Restriction
import FilterQuery.Proofs.Tree.LowestGroup
import FilterQuery.Proofs.Tree.Confluence
import FilterQuery.Proofs.Tree.Detach
import FilterQuery.Proofs.Tree.Move
import FilterQuery.Proofs.Tree.Refusal
import FilterQuery.Proofs.UpdatedFields
import FilterQuery.Proofs.UpdatedLeaf
import FilterQuery.Proofs.Tree.Change
import FilterQuery.Proofs.Tree.PointEdit
import FilterQuery.Proofs.UpdateReading
import FilterQuery.Proofs.Account
import FilterQuery.Proofs.ListedValues
import FilterQuery.Proofs.Padding
import FilterQuery.Proofs.Numeral
import FilterQuery.Proofs.CoercedValues
import FilterQuery.Proofs.TypedValues
import FilterQuery.Proofs.Labels
import FilterQuery.Proofs.DistinctTexts
import FilterQuery.Proofs.Suggestion
import FilterQuery.Proofs.Table.Fields
import FilterQuery.Proofs.Table.Smallest
import FilterQuery.Proofs.Rows.Undo
import FilterQuery.Proofs.Rows.Mixed
import FilterQuery.Proofs.Tree.Path
import FilterQuery.Proofs.Suggestion.Calls
import FilterQuery.Proofs.Rows.Shortcut
