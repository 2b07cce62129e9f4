import LakehouseEngine.Data.Ranking
import LakehouseEngine.Pushdown.ColumnTypes
import LakehouseEngine.Types.Mapping
import Mathlib.Data.Prod.Lex
import Mathlib.Data.Sum.Order
import Mathlib.Data.List.Lex
import Mathlib.Algebra.Order.Floor.Defs
import Mathlib.Data.Rat.Floor

/-!
# Sort orders of the scan and of Exasol

A shard ranks the values of its files, Exasol ranks the values the shard emits.  The
two differ on the empty text and on NaN, which arrive as NULL, on the two zeros, which
the scan's total order tells apart, and on timestamps, which are emitted at the
declared precision.
-/

namespace LakehouseEngine

/-- One `ORDER BY` element. -/
structure SortKey where
  column : ColumnRef
  ascending : Bool
  nullsLast : Bool
  deriving DecidableEq

/-- A projected column, or a rendered SQL expression. -/
inductive ProjectionItem where
  | expr (expr : String)
  | column (column : ColumnRef)
  deriving DecidableEq

/-- A projected item with the type its `EMITS` column declares. -/
structure ProjectedColumn where
  item : ProjectionItem
  exaType : ExasolType
  deriving DecidableEq

def projectionItems (projection : List ProjectedColumn) : List ProjectionItem :=
  projection.map ProjectedColumn.item

/-! ## Values of a scan -/

/-- A floating-point value of a file. -/
inductive FloatCell where
  | nan (negative : Bool) (payload : ℕ)
  | infinite (positive : Bool)
  | negativeZero
  | finite (value : ℚ)
  deriving DecidableEq

namespace FloatCell

/-- The position in the total order of floating-point values, by class and then by
value. -/
def rank : FloatCell → ℕ ×ₗ ℚ
  | .nan true payload => toLex (0, -(payload : ℚ))
  | .infinite false => toLex (1, 0)
  | .finite value => if value < 0 then toLex (2, value) else toLex (4, value)
  | .negativeZero => toLex (3, 0)
  | .infinite true => toLex (5, 0)
  | .nan false payload => toLex (6, (payload : ℚ))

/-- What Exasol receives, which knows no NaN and one zero. -/
def emitted : FloatCell → Value
  | .nan _ _ => .null
  | .infinite positive => .infinite positive
  | .negativeZero => .num 0
  | .finite value => .num value

/-- The value at a position. -/
def ofRank (position : ℕ ×ₗ ℚ) : FloatCell :=
  match (ofLex position).1 with
  | 0 => .nan true (-(ofLex position).2).num.toNat
  | 1 => .infinite false
  | 3 => .negativeZero
  | 5 => .infinite true
  | 6 => .nan false (ofLex position).2.num.toNat
  | _ => .finite (ofLex position).2

theorem ofRank_rank (cell : FloatCell) : ofRank cell.rank = cell := by
  cases cell with
  | nan negative payload => cases negative <;> simp [rank, ofRank]
  | infinite positive => cases positive <;> rfl
  | negativeZero => rfl
  | finite value =>
      simp only [rank]
      split <;> rfl

theorem rank_injective : Function.Injective rank :=
  Function.LeftInverse.injective ofRank_rank

end FloatCell

/-- A value as the scan's `SELECT` computes it.  A column the scan renders as text, such
as a binary or a nested one, is that text. -/
inductive Cell where
  | null
  | bool (value : Bool)
  | num (value : ℚ)
  | float (value : FloatCell)
  | text (value : String)
  | date (days : ℤ)
  | timestamp (seconds : ℚ)
  deriving DecidableEq

/-- The cast to a coarser unit divides and drops the remainder. -/
def truncateTo (digits : ℕ) (seconds : ℚ) : ℚ :=
  (if 0 ≤ seconds then ⌊seconds * 10 ^ digits⌋ else ⌈seconds * 10 ^ digits⌉ : ℤ) / 10 ^ digits

namespace Cell

/-- `coerce_batch_to_exa_types` and `emit_batch`: the value Exasol receives for a column
declared with this type. -/
def emitted (declared : ExasolType) : Cell → Value
  | .null => .null
  | .bool value => .bool value
  | .num value => .num value
  | .float value => value.emitted
  | .text value => if value = "" then .null else .text value
  | .date days => .date days
  | .timestamp seconds =>
      match declared with
      | .timestamp precision =>
          .timestamp
            (truncateTo (TimestampPrecision.fromDeclaredDigits precision).arrowUnit.digits seconds)
      | _ => .timestamp seconds

/-- The scan's order of the values of a column, which are all of one kind. -/
abbrev Rank := Bool ⊕ₗ ℚ ⊕ₗ (ℕ ×ₗ ℚ) ⊕ₗ String ⊕ₗ ℤ ⊕ₗ ℚ

def rank : Cell → Option Rank
  | .null => none
  | .bool value => some (Sum.inlₗ value)
  | .num value => some (Sum.inrₗ (Sum.inlₗ value))
  | .float value => some (Sum.inrₗ (Sum.inrₗ (Sum.inlₗ value.rank)))
  | .text value => some (Sum.inrₗ (Sum.inrₗ (Sum.inrₗ (Sum.inlₗ value))))
  | .date days => some (Sum.inrₗ (Sum.inrₗ (Sum.inrₗ (Sum.inrₗ (Sum.inlₗ days)))))
  | .timestamp seconds => some (Sum.inrₗ (Sum.inrₗ (Sum.inrₗ (Sum.inrₗ (Sum.inrₗ seconds)))))

theorem rank_injective : Function.Injective rank := by
  intro left right same
  cases left <;> cases right <;>
    simp_all [rank, Sum.inlₗ, Sum.inrₗ, FloatCell.rank_injective.eq_iff]

end Cell

namespace Value

/-- Exasol's order of the values of a column, which are all of one kind. -/
abbrev Rank := Bool ⊕ₗ (ℕ ×ₗ ℚ) ⊕ₗ String ⊕ₗ ℤ ⊕ₗ ℚ ⊕ₗ List ℕ

def rank : Value → Option Rank
  | .null => none
  | .bool value => some (Sum.inlₗ value)
  | .num value => some (Sum.inrₗ (Sum.inlₗ (toLex (1, value))))
  | .infinite positive => some (Sum.inrₗ (Sum.inlₗ (toLex (if positive then 2 else 0, 0))))
  | .text value => some (Sum.inrₗ (Sum.inrₗ (Sum.inlₗ value)))
  | .date days => some (Sum.inrₗ (Sum.inrₗ (Sum.inrₗ (Sum.inlₗ days))))
  | .timestamp seconds => some (Sum.inrₗ (Sum.inrₗ (Sum.inrₗ (Sum.inrₗ (Sum.inlₗ seconds)))))
  | .bytes value => some (Sum.inrₗ (Sum.inrₗ (Sum.inrₗ (Sum.inrₗ (Sum.inrₗ value)))))

theorem rank_injective : Function.Injective rank := by
  intro left right same
  cases left <;> cases right <;> simp_all [rank, Sum.inlₗ, Sum.inrₗ]
  case num.infinite value positive => cases positive <;> simp at same
  case infinite.num positive value => cases positive <;> simp at same
  case infinite.infinite left right => cases left <;> cases right <;> simp_all

end Value

/-! ## `ORDER BY` -/

section OrderBy

variable {α ρ : Type*} [LinearOrder ρ]

/-- `ORDER BY keys`, where `value` is what an element ranks a row by. -/
def orderByKeys (value : SortKey → α → Option ρ) (keys : List SortKey) : α → α → Ordering :=
  Ranking.lexicographic (keys.map fun key first second =>
    Ranking.nullable key.ascending key.nullsLast compare (value key first) (value key second))

instance orderByKeys_transCmp (value : SortKey → α → Option ρ) (keys : List SortKey) :
    Std.TransCmp (orderByKeys value keys) := by
  apply Ranking.lexicographic_transCmp
  intro cmp member
  obtain ⟨key, -, rfl⟩ := List.mem_map.mp member
  have keyOrder := Ranking.nullable_transCmp key.ascending key.nullsLast (compare (α := ρ))
  exact { eq_swap := keyOrder.eq_swap, isLE_trans := keyOrder.isLE_trans }

theorem orderByKeys_eq (value : SortKey → α → Option ρ) (keys : List SortKey)
    (first second : α) :
    orderByKeys value keys first second = .eq ↔
      ∀ key ∈ keys, value key first = value key second := by
  simp [orderByKeys, Ranking.lexicographic_eq, Ranking.nullable_eq]

end OrderBy

/-- What a scan computes for each item of its projection. -/
abbrev ScannedRow := ProjectionItem → Cell

/-- The type the `EMITS` clause declares a column with. -/
def declaredType (projection : List ProjectedColumn) (column : ColumnRef) : ExasolType :=
  ((projection.find? fun projected => projected.item == .column column).map
    ProjectedColumn.exaType).getD .widestVarchar

namespace SortKey

def cell (key : SortKey) (row : ScannedRow) : Cell := row (.column key.column)

def emitted (projection : List ProjectedColumn) (key : SortKey) (row : ScannedRow) : Value :=
  (key.cell row).emitted (declaredType projection key.column)

end SortKey

/-- A shard's sort of its rows. -/
def scanOrder (keys : List SortKey) : ScannedRow → ScannedRow → Ordering :=
  orderByKeys (fun key row => (key.cell row).rank) keys

/-- Exasol's sort of the rows it receives. -/
def emittedOrder (projection : List ProjectedColumn) (keys : List SortKey) :
    ScannedRow → ScannedRow → Ordering :=
  orderByKeys (fun key row => (key.emitted projection row).rank) keys

/-- The sort-key values of a row in Exasol. -/
def keyValues (projection : List ProjectedColumn) (keys : List SortKey) (row : ScannedRow) :
    List Value :=
  keys.map fun key => key.emitted projection row

instance scanOrder_transCmp (keys : List SortKey) : Std.TransCmp (scanOrder keys) :=
  orderByKeys_transCmp _ keys

instance emittedOrder_transCmp (projection : List ProjectedColumn) (keys : List SortKey) :
    Std.TransCmp (emittedOrder projection keys) :=
  orderByKeys_transCmp _ keys

/-- Rows tie in Exasol exactly when their sort-key values are the same. -/
theorem emittedOrder_eq (projection : List ProjectedColumn) (keys : List SortKey)
    (first second : ScannedRow) :
    emittedOrder projection keys first second = .eq ↔
      keyValues projection keys first = keyValues projection keys second := by
  rw [emittedOrder, orderByKeys_eq, keyValues, keyValues, List.map_inj_left]
  simp only [Value.rank_injective.eq_iff]

theorem emittedOrder_eq_of_scanOrder_eq (projection : List ProjectedColumn) {keys : List SortKey}
    (first second : ScannedRow) (tied : scanOrder keys first second = .eq) :
    emittedOrder projection keys first second = .eq := by
  rw [scanOrder, orderByKeys_eq] at tied
  rw [emittedOrder, orderByKeys_eq]
  intro key member
  have same : key.cell first = key.cell second := Cell.rank_injective (tied key member)
  simp only [SortKey.emitted, same]

end LakehouseEngine
