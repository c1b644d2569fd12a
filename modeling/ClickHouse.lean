import ClickHouse.BignumString
import ClickHouse.Brackets
import ClickHouse.Client.Connections
import ClickHouse.Client.Delivery
import ClickHouse.Client.Events
import ClickHouse.Client.Identifiers
import ClickHouse.Client.InStep
import ClickHouse.Client.Refusals
import ClickHouse.Client.RetryBounds
import ClickHouse.Columns.Dates
import ClickHouse.Columns.Decimal
import ClickHouse.Columns.DistinctKeys
import ClickHouse.Columns.Enum
import ClickHouse.Columns.SliceBounds
import ClickHouse.Columns.SliceRows
import ClickHouse.Columns.Truncation
import ClickHouse.Columns.TypedRows
import ClickHouse.CreatedSizes
import ClickHouse.FrameMemory
import ClickHouse.StringLiterals
import ClickHouse.TypeCache
import ClickHouse.TypeEquality
import ClickHouse.Unambiguous
import ClickHouse.UnknownTypes
import ClickHouse.WrappedColumns
