import LakehouseEngine.Logic.Kleene

/-!
# Exasol SQL types

The types a request's `dataType` object can name, with the SQL spelling the adapter
renders them in.  A `DECIMAL` carries the proof that Exasol accepts its pair, so no
consumer can hold one that Exasol rejects.
-/

namespace LakehouseEngine

/-- The widest `VARCHAR` Exasol accepts. -/
def maxVarcharSize : Nat := 2000000

/-- Exasol rejects `DECIMAL(37,0)` and wider. -/
def maxDecimalPrecision : Nat := 36

/-- A `DECIMAL(p,s)` inside Exasol's domain. -/
structure Decimal where
  precision : Nat
  scale : Nat
  valid : 1 ≤ precision ∧ precision ≤ maxDecimalPrecision ∧ scale ≤ precision
  deriving DecidableEq

/-- `none` for a pair Exasol rejects. -/
def Decimal.new (precision scale : Nat) : Option Decimal :=
  if valid : 1 ≤ precision ∧ precision ≤ maxDecimalPrecision ∧ scale ≤ precision then
    some ⟨precision, scale, valid⟩
  else
    none

/-- Every Exasol type a column, an `EMITS` item, a select-list item or a `CAST`
target can carry. -/
inductive ExasolType where
  | boolean
  | decimal (decimal : Decimal)
  | doublePrecision
  | date
  | timestamp (precision : Nat)
  | timestampWithLocalTimeZone (precision : Nat)
  | char (size : Nat) (ascii : Bool)
  | varchar (size : Nat) (ascii : Bool)
  | intervalYearToMonth (precision : Nat)
  | intervalDayToSecond (precision fraction : Nat)
  | geometry (srid : Nat)
  | hashtype (bytes : Nat)
  deriving DecidableEq

namespace ExasolType

/-- `VARCHAR(2000000)`, the declaration of an unbounded string column. -/
def widestVarchar : ExasolType := .varchar maxVarcharSize false

def isCharacter : ExasolType → Bool
  | .char _ _ | .varchar _ _ => true
  | _ => false

/-- The fractional-second digits a plain `TIMESTAMP` holds. -/
def fractionalDigits : ExasolType → Option Nat
  | .timestamp precision => some precision
  | _ => none

/-- The fractional digits of Exasol's bare `TIMESTAMP`. -/
def bareTimestampPrecision : Nat := 3

end ExasolType

end LakehouseEngine
