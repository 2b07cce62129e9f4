import LakehouseEngine.Expression.Node

/-!
# Column types of a request

The map from a request's columns to their declared Exasol types.  A join qualifies
each entry with its leg's alias, a single-table scan leaves them bare.
-/

namespace LakehouseEngine

/-- A column of a relation, or of the only relation there is. -/
structure ColumnRef where
  relation : Option String
  name : String
  deriving DecidableEq

/-- How the scan reads a binary column's raw bytes. -/
inductive BinaryLayout where
  | variable
  /-- A fixed-length column carries its byte width. -/
  | fixed (width : Int)
  deriving DecidableEq

/-- One column's Exasol type and, for a column the scan reads as bytes, its layout. -/
structure ColumnType where
  exaType : ExasolType
  binary : Option BinaryLayout := none
  deriving DecidableEq

abbrev ColumnTypes := List (ColumnRef × ColumnType)

variable [Unicode]

/-- The (relation alias, column) pair a `column` node names. -/
def ColumnNode.ref (column : ColumnNode) : ColumnRef :=
  ⟨column.tableAlias, column.upperName⟩

/-- `column_node_ref`. -/
def columnNodeRef : Node → Option ColumnRef
  | .column col => some col.ref
  | _ => none

/-- An entry with a relation alias binds only its own relation's column, one without
binds by name alone. -/
def bindsColumn (entry column : ColumnRef) : Bool :=
  entry.name == column.name && (entry.relation.isNone || entry.relation == column.relation)

namespace ColumnTypes

def entry (types : ColumnTypes) (column : ColumnRef) : Option (ColumnRef × ColumnType) :=
  types.find? fun (entry, _) => bindsColumn entry column

/-- The type of the column `column` binds. -/
def get (types : ColumnTypes) (column : ColumnRef) : Option ColumnType :=
  (types.entry column).map Prod.snd

def resolve (types : ColumnTypes) (node : Node) : Option (ColumnRef × ColumnType) := do
  types.entry (← columnNodeRef node)

end ColumnTypes

def columnExaType (node : Node) (types : ColumnTypes) : Option ExasolType :=
  (types.resolve node).map fun (_, columnType) => columnType.exaType

end LakehouseEngine
