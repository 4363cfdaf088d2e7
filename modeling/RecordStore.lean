import RecordStore.AccessError
import RecordStore.Attribute.Basic
import RecordStore.Attribute.Document
import RecordStore.Attribute.Wire
import RecordStore.Bytes.Base64
import RecordStore.Collection.Basic
import RecordStore.Collection.Get
import RecordStore.Collection.Query
import RecordStore.Collection.Write
import RecordStore.Cursor
import RecordStore.EntityIndex
import RecordStore.Expression.Basic
import RecordStore.Expression.Eval
import RecordStore.Expression.Parser
import RecordStore.Expression.Token
import RecordStore.FieldList
import RecordStore.Fields
import RecordStore.Json.Basic
import RecordStore.Json.Printer
import RecordStore.Json.Reading
import RecordStore.Memory.Faults
import RecordStore.Memory.Store
import RecordStore.Number.Binary64
import RecordStore.Number.Numeral
import RecordStore.Number.Scaled
import RecordStore.Number.Shortest
import RecordStore.Paging.Cap
import RecordStore.Paging.Page
import RecordStore.Proofs.Attribute.Document
import RecordStore.Proofs.Attribute.Numbers
import RecordStore.Proofs.Attribute.Rewriting
import RecordStore.Proofs.Attribute.Wire
import RecordStore.Proofs.Bytes.Base64
import RecordStore.Proofs.Collection.Addressing
import RecordStore.Proofs.Collection.Asking
import RecordStore.Proofs.Collection.Carrying
import RecordStore.Proofs.Collection.Collecting
import RecordStore.Proofs.Collection.Deleting
import RecordStore.Proofs.Collection.Expressions
import RecordStore.Proofs.Collection.Finding
import RecordStore.Proofs.Collection.Gathering
import RecordStore.Proofs.Collection.History
import RecordStore.Proofs.Collection.Keeping
import RecordStore.Proofs.Collection.Merging
import RecordStore.Proofs.Collection.Mixing
import RecordStore.Proofs.Collection.Pages
import RecordStore.Proofs.Collection.Refusing
import RecordStore.Proofs.Collection.Requesting
import RecordStore.Proofs.Collection.Requiring
import RecordStore.Proofs.Collection.Saving
import RecordStore.Proofs.Collection.Selecting
import RecordStore.Proofs.Collection.Sharing
import RecordStore.Proofs.Collection.Sparing
import RecordStore.Proofs.Collection.Tightness
import RecordStore.Proofs.Collection.Truncating
import RecordStore.Proofs.Cursor
import RecordStore.Proofs.Expression.Aliases
import RecordStore.Proofs.Expression.Checking
import RecordStore.Proofs.Expression.Confining
import RecordStore.Proofs.Expression.Equality
import RecordStore.Proofs.Expression.Grammar
import RecordStore.Proofs.Expression.Lexing
import RecordStore.Proofs.Expression.Membership
import RecordStore.Proofs.Expression.Parsing
import RecordStore.Proofs.Expression.Printing
import RecordStore.Proofs.Expression.Scanning
import RecordStore.Proofs.Fields
import RecordStore.Proofs.Json.Printing
import RecordStore.Proofs.Memory.Accepting
import RecordStore.Proofs.Memory.Batches
import RecordStore.Proofs.Memory.Failing
import RecordStore.Proofs.Memory.Reading
import RecordStore.Proofs.Memory.Writing
import RecordStore.Proofs.Number.Digits
import RecordStore.Proofs.Number.Exact
import RecordStore.Proofs.Number.Monotone
import RecordStore.Proofs.Number.Rounding
import RecordStore.Proofs.Number.Shortest
import RecordStore.Proofs.Number.Spelling
import RecordStore.Proofs.Paging.Capping
import RecordStore.Proofs.Paging.ExactlyOnce
import RecordStore.Proofs.Paging.Filling
import RecordStore.Proofs.Paging.Narrowing
import RecordStore.Proofs.Paging.Requesting
import RecordStore.Proofs.Paging.Starting
import RecordStore.Proofs.Query.Aliases
import RecordStore.Proofs.Query.Assembling
import RecordStore.Proofs.Query.Binding
import RecordStore.Proofs.Query.Compiling
import RecordStore.Proofs.Query.Drawing
import RecordStore.Proofs.Query.Keying
import RecordStore.Proofs.Query.Meaning
import RecordStore.Proofs.Query.PassingOver
import RecordStore.Proofs.Query.Pinning
import RecordStore.Proofs.Query.Projecting
import RecordStore.Proofs.Query.Refusals
import RecordStore.Proofs.Query.Rendering
import RecordStore.Proofs.Query.Sessions
import RecordStore.Proofs.Query.Shapes
import RecordStore.Proofs.Query.Tightness
import RecordStore.Proofs.Store.Calls
import RecordStore.Proofs.Store.Rules
import RecordStore.Proofs.Table.Contents
import RecordStore.Proofs.Table.Histories
import RecordStore.Proofs.Table.Keys
import RecordStore.Proofs.Table.Numbers
import RecordStore.Proofs.Table.Order
import RecordStore.Proofs.Table.Ordering
import RecordStore.Proofs.Table.Partition
import RecordStore.Proofs.Table.Placing
import RecordStore.Proofs.Table.Reading
import RecordStore.Proofs.Table.Resuming
import RecordStore.Proofs.Table.Returning
import RecordStore.Proofs.Table.Rows
import RecordStore.Proofs.Table.Sound
import RecordStore.Proofs.Text.Bytes
import RecordStore.Proofs.Wire.Message
import RecordStore.Proofs.Wire.Store
import RecordStore.Query.Aliases
import RecordStore.Query.Compiler
import RecordStore.Query.Condition
import RecordStore.Query.Definition
import RecordStore.Query.Operator
import RecordStore.Query.Test
import RecordStore.Settings
import RecordStore.Store.Basic
import RecordStore.Store.Error
import RecordStore.Store.Recorded
import RecordStore.Store.Request
import RecordStore.Store.Script
import RecordStore.Table.Basic
import RecordStore.Table.Read
import RecordStore.Table.Shape
import RecordStore.Table.SortKey
import RecordStore.Text.Blank
import RecordStore.Text.Quoted
import RecordStore.Text.Unprintable
import RecordStore.Wire.Error
import RecordStore.Wire.Message
import RecordStore.Wire.Request
import RecordStore.Wire.Store
