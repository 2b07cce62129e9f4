import LakehouseEngine.Data.OrderedMap

/-!
# The files of a scan

What a scan reads of a data file: its path and size, what deletes rows of it, and the values of
its partition columns.
-/

namespace LakehouseEngine

inductive DeltaDeletionVectorStorage where
  | uuidRelative
  | inline
  | absolutePath

inductive DeleteMechanism where
  | icebergPositionalDelete (path : String) (size : UInt64)
  | icebergEqualityDelete (path : String) (size : UInt64)
  | icebergPuffinDeletionVector (path : String)
      (size contentOffset contentSizeInBytes recordCount : UInt64)
  | deltaDeletionVector (storage : DeltaDeletionVectorStorage) (pathOrInlineDv : String)
      (offset : Option Int32) (sizeInBytes : Int32) (cardinality : Int64)

structure FileEntry where
  path : String
  size : UInt64
  deletes : List DeleteMechanism
  partitionValues : OrderedMap.StringMap (Option String)

end LakehouseEngine
