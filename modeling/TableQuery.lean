import TableQuery.Postgres.Exchange
import TableQuery.Session
import TableQuery.Settings.Text
import TableQuery.Sql.Assembly
import TableQuery.Sql.RowWindow
import TableQuery.Sqlite.Table
import TableQuery.Proofs.Cursor.Progress
import TableQuery.Proofs.Cursor.Drain
import TableQuery.Proofs.Storage.Serving
import TableQuery.Proofs.Pagination
import TableQuery.Proofs.Accounting
import TableQuery.Proofs.Cancellation
import TableQuery.Proofs.PositionalBinding
import TableQuery.Proofs.Rendering
import TableQuery.Proofs.ValueIndependence
import TableQuery.Proofs.RawOverride
import TableQuery.Proofs.WellFormed
import TableQuery.Proofs.LifeCycle
import TableQuery.Proofs.SameRows
import TableQuery.Proofs.KeyHelpers
import TableQuery.Proofs.Dispatch
import TableQuery.Proofs.UnknownField
import TableQuery.Proofs.Transport
import TableQuery.Proofs.Postgres.Parameters
import TableQuery.Proofs.Course
import TableQuery.Proofs.Cursor.Reading
import TableQuery.Proofs.SingleRow
import TableQuery.Proofs.OneCall
import TableQuery.Proofs.Sqlite.Streaming
import TableQuery.Proofs.Resumption
import TableQuery.Proofs.ChunkOffsets
import TableQuery.Proofs.Compilation
import TableQuery.Proofs.Patterns
import TableQuery.Proofs.TextMatching
import TableQuery.Proofs.ComparisonSpacing
import TableQuery.Proofs.RankedOrder
import TableQuery.Proofs.StoredDates
import TableQuery.Proofs.SingleSplit
import TableQuery.Proofs.Accumulation
import TableQuery.Proofs.StoredOrder
import TableQuery.Proofs.Independence
import TableQuery.Proofs.BoundsHistory
import TableQuery.Proofs.Keywords
import TableQuery.Proofs.Hydration
import TableQuery.Proofs.Composition
