import LakehouseEngine.Pushdown.AggregateMerge
import LakehouseEngine.Pushdown.Format.DeltaPruning
import LakehouseEngine.Pushdown.Format.IcebergPruning
import LakehouseEngine.Pushdown.Joins.BroadcastWindow
import LakehouseEngine.Pushdown.TimestampPrecision
import LakehouseEngine.Scan.AccessPlan
import LakehouseEngine.Scan.DeletePositions
import LakehouseEngine.Scan.StoreRouter
import LakehouseEngine.Pushdown.ScanResolution
import LakehouseEngine.Adapter.StatementStates
import LakehouseEngine.Scan.ColumnBinding
import LakehouseEngine.Pushdown.BinaryPruning
import LakehouseEngine.Scan.ExactResults
import LakehouseEngine.Adapter.SchemaFold
import LakehouseEngine.Scan.Admission
import LakehouseEngine.Scan.PartitionColumns
import LakehouseEngine.Pushdown.Format.DeltaHistory
import LakehouseEngine.Adapter.Sharding
import LakehouseEngine.Pushdown.Format.DeltaReplay
import LakehouseEngine.Scan.PuffinReads
import LakehouseEngine.Adapter.ScopedRefresh
import LakehouseEngine.Pushdown.Format.PartitionPruning
import LakehouseEngine.Catalog.Retry
import LakehouseEngine.Expression.DecimalText
import LakehouseEngine.Scan.MapKeys
import LakehouseEngine.Scan.DeleteMemory
import LakehouseEngine.Pushdown.Joins.Attribution
