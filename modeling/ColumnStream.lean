import ColumnStream.Column.Value
import ColumnStream.Column.Builder
import ColumnStream.Stream.Writer
import ColumnStream.Stream.AsyncWriter
import ColumnStream.Stream.Reader
import ColumnStream.Stream.AsyncReader
import ColumnStream.Transport.Script
import ColumnStream.Report.Tables
import ColumnStream.Proofs.Result
import ColumnStream.Proofs.Bits
import ColumnStream.Proofs.Column.Offsets
import ColumnStream.Proofs.Column.WellFormed
import ColumnStream.Proofs.Column.Slice
import ColumnStream.Proofs.Column.Content
import ColumnStream.Proofs.Column.Reachable
import ColumnStream.Proofs.Batch.Pack
import ColumnStream.Proofs.Batch.Packed
import ColumnStream.Proofs.Batch.Unpack
import ColumnStream.Proofs.Batch.Reachable
import ColumnStream.Proofs.Metadata.RoundTrip
import ColumnStream.Proofs.Batch.RoundTrip
import ColumnStream.Proofs.Batch.Stable
import ColumnStream.Proofs.Transport.Sink
import ColumnStream.Proofs.Transport.Source
import ColumnStream.Proofs.Message
import ColumnStream.Proofs.Stream.Writer
import ColumnStream.Proofs.Stream.Reader
import ColumnStream.Proofs.Stream.RoundTrip
import ColumnStream.Proofs.Stream.EndMarker
import ColumnStream.Proofs.Stream.Copy
import ColumnStream.Proofs.Stream.Torn
import ColumnStream.Proofs.Metadata.Parsing
import ColumnStream.Proofs.Metadata.Canonical
import ColumnStream.Proofs.Column.Total
import ColumnStream.Proofs.Batch.Total
import ColumnStream.Proofs.Batch.Invariant
import ColumnStream.Proofs.Stream.Truncation
import ColumnStream.Proofs.Framing
import ColumnStream.Proofs.Stream.Overflow
import ColumnStream.Proofs.Stream.Lifecycle
import ColumnStream.Proofs.Stream.Neighbours
import ColumnStream.Proofs.Transport.Awaiting
import ColumnStream.Proofs.Stream.AsyncWriter
import ColumnStream.Proofs.Stream.AsyncReader
import ColumnStream.Proofs.Stream.Frames
import ColumnStream.Proofs.Column.Equality
import ColumnStream.Proofs.Column.Fits
import ColumnStream.Proofs.Batch.Layout
import ColumnStream.Proofs.Batch.Slice
import ColumnStream.Proofs.Column.Build
import ColumnStream.Proofs.Column.Padding
import ColumnStream.Proofs.Batch.Padding
import ColumnStream.Proofs.Metadata.Progress
import ColumnStream.Proofs.Batch.Walk
import ColumnStream.Proofs.Report
