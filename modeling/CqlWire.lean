import CqlWire.Bytes
import CqlWire.Calendar.Date
import CqlWire.Calendar.Reader
import CqlWire.Calendar.TimeOfDay
import CqlWire.Calendar.Writer
import CqlWire.Codec.Basic
import CqlWire.Codec.Built
import CqlWire.Codec.Cache
import CqlWire.Codec.Default
import CqlWire.Codec.Live
import CqlWire.Codec.Reconcilable
import CqlWire.Coding.Basic
import CqlWire.Coding.Collection
import CqlWire.Coding.Enumeration
import CqlWire.Coding.Number
import CqlWire.Coding.Record
import CqlWire.Coding.Temporal
import CqlWire.Coding.Text
import CqlWire.ColumnType.Basic
import CqlWire.ColumnType.Compatible
import CqlWire.ColumnType.Reader
import CqlWire.ColumnType.Text
import CqlWire.Config
import CqlWire.Error
import CqlWire.Fallible
import CqlWire.Frame
import CqlWire.Frame.Buffer
import CqlWire.Inet
import CqlWire.Inspect.Codec
import CqlWire.Inspect.Literal
import CqlWire.Inspect.Value
import CqlWire.Literal.Split
import CqlWire.Literal.Term
import CqlWire.Naming.Declaration
import CqlWire.Naming.Rule
import CqlWire.Naming.Words
import CqlWire.Number.Decimal
import CqlWire.Number.FloatFormat
import CqlWire.Number.Integer
import CqlWire.Number.Rounding
import CqlWire.Number.Shortest
import CqlWire.Paging.Base64
import CqlWire.Paging.Fingerprint
import CqlWire.Paging.Pager
import CqlWire.Paging.Sha256
import CqlWire.Paging.Token
import CqlWire.Proofs.Codec.Absence
import CqlWire.Proofs.Codec.Acceptance
import CqlWire.Proofs.Codec.Boundary
import CqlWire.Proofs.Codec.Cached
import CqlWire.Proofs.Codec.ColumnOrder
import CqlWire.Proofs.Codec.Compatible
import CqlWire.Proofs.Codec.Cut
import CqlWire.Proofs.Codec.DeclaredOrder
import CqlWire.Proofs.Codec.Failure
import CqlWire.Proofs.Codec.Kept
import CqlWire.Proofs.Codec.Literal
import CqlWire.Proofs.Codec.LiveStorage
import CqlWire.Proofs.Codec.Null
import CqlWire.Proofs.Codec.Positions
import CqlWire.Proofs.Codec.Reconcile
import CqlWire.Proofs.Codec.Reread
import CqlWire.Proofs.Codec.Restrict
import CqlWire.Proofs.Codec.Storage
import CqlWire.Proofs.Codec.Wired
import CqlWire.Proofs.Coding.Agree
import CqlWire.Proofs.Coding.Boundary
import CqlWire.Proofs.Coding.Cut
import CqlWire.Proofs.Coding.Failure
import CqlWire.Proofs.Coding.Literal
import CqlWire.Proofs.Coding.Null
import CqlWire.Proofs.Coding.Reading
import CqlWire.Proofs.Coding.Refusal
import CqlWire.Proofs.Coding.Respelled
import CqlWire.Proofs.Coding.Scalar
import CqlWire.Proofs.Coding.Storage
import CqlWire.Proofs.ColumnType.Compatible
import CqlWire.Proofs.ColumnType.Reading
import CqlWire.Proofs.ColumnType.Tokens
import CqlWire.Proofs.Fallible
import CqlWire.Proofs.Frame
import CqlWire.Proofs.Hexadecimal
import CqlWire.Proofs.Literal.Grammar
import CqlWire.Proofs.Literal.Split
import CqlWire.Proofs.Number.Decimal
import CqlWire.Proofs.Number.Digits
import CqlWire.Proofs.Number.TwosComplement
import CqlWire.Proofs.Paging.Base64
import CqlWire.Proofs.Paging.Binding
import CqlWire.Proofs.Paging.Envelope
import CqlWire.Proofs.Paging.Run
import CqlWire.Proofs.Paging.SimpleToken
import CqlWire.Proofs.Paging.Spelling
import CqlWire.Proofs.Paging.Token
import CqlWire.Proofs.Paging.TokenText
import CqlWire.Proofs.Registry.Samples
import CqlWire.Proofs.Registry.Selection
import CqlWire.Proofs.Schema.Nested
import CqlWire.Proofs.SortedMap
import CqlWire.Proofs.SortedMap.History
import CqlWire.Proofs.Text.Null
import CqlWire.Proofs.Text.Quoted
import CqlWire.Proofs.Text.Utf8
import CqlWire.Proofs.Uuid
import CqlWire.Proofs.Value.Listing
import CqlWire.Proofs.Value.Order
import CqlWire.Registry
import CqlWire.Schema.Json
import CqlWire.Schema.Keyspace
import CqlWire.SortedMap
import CqlWire.Text.Ascii
import CqlWire.Text.Blank
import CqlWire.Text.Case
import CqlWire.Text.CaseTables
import CqlWire.Text.Printable
import CqlWire.Text.Quoted
import CqlWire.Text.Utf8
import CqlWire.Toml.Reader
import CqlWire.Toml.Scalar
import CqlWire.Toml.Table
import CqlWire.Toml.Text
import CqlWire.Uuid
import CqlWire.Value.Basic
import CqlWire.Value.Order
import CqlWire.Value.Type
import CqlWire.Value.TypeName
import CqlWire.Value.Typing
import CqlWire.Proofs.ColumnType.Spelling
import CqlWire.Proofs.Coding.Verbatim
import CqlWire.Proofs.Codec.Exact
import CqlWire.Proofs.Codec.Containers
import CqlWire.Proofs.Coding.RecordLiteral
import CqlWire.Proofs.Codec.RecordLiteral
import CqlWire.Proofs.SortedMap.Reversed
import CqlWire.Proofs.Text.Trim
import CqlWire.Proofs.Literal.Reading
import CqlWire.Proofs.Literal.Layout
import CqlWire.Proofs.Literal.Resplit
import CqlWire.Proofs.Literal.Quotation
import CqlWire.Proofs.ColumnType.Bare
import CqlWire.Proofs.Schema.Table
import CqlWire.Proofs.Coding.Decimal
import CqlWire.Proofs.Number.Representable
import CqlWire.Proofs.Coding.Representable
import CqlWire.Proofs.Calendar.Days
import CqlWire.Proofs.Calendar.Parts
import CqlWire.Proofs.Calendar.Numeral
import CqlWire.Proofs.Calendar.Fraction
import CqlWire.Proofs.Calendar.ClockLiteral
import CqlWire.Proofs.Calendar.InstantLiteral
import CqlWire.Proofs.Calendar.Writing
import CqlWire.Proofs.Coding.Temporal
import CqlWire.Proofs.Calendar.PlainText
import CqlWire.Proofs.Coding.DateAndTime
import CqlWire.Proofs.Coding.Blob
import CqlWire.Proofs.Codec.Timeuuid
import CqlWire.Proofs.Coding.Enumeration
import CqlWire.Proofs.Coding.Varint
import CqlWire.Proofs.Frame.Sequence
import CqlWire.Proofs.Naming.Words
