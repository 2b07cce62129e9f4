import LakehouseEngine.Expression.Semantics

/-!
# Operands of a filter node

The accessors the file-pruning translators share: a comparison is read with its column
on the left, and an empty list or an empty string constrains nothing.
-/

namespace LakehouseEngine

/-- The name of a `column` node. -/
def columnName : Node → Option String
  | .column col => some col.name
  | _ => none

/-- Exasol reads `''` as NULL, so an empty string constrains nothing. -/
def nonEmptyStr : JsonScalar → Option String
  | .string text => if text = "" then none else some text
  | _ => none

/-- The comparison normalized to read with the column on the left. -/
def comparisonOperands (left right : Node) (comparison : Comparison) :
    Option (String × Node × Comparison) :=
  match columnName left with
  | some column => some (column, right, comparison)
  | none => do
      let column ← columnName right
      return (column, left, comparison.withOperandsSwapped)

/-- A list, unless it is empty: an empty `OR` or `IN` would prune every file. -/
def nonEmpty (items : List Node) : Option (List Node) :=
  if items.isEmpty then none else some items

/-- The bytes of a `literal_binary`. -/
def literalBinaryBytes (lit : Literal) : Option (List Nat) := do
  let hex ← lit.value.asStr
  Text.hexDecode hex.toList

/-- The value of a literal node. -/
def literalValue (reading : Reading) : Node → Value
  | .literal lit => reading.literal lit
  | _ => .null

theorem nonEmpty_eq_some {items listed : List Node} (found : nonEmpty items = some listed) :
    items = listed := by
  unfold nonEmpty at found
  split at found
  · simp at found
  · exact Option.some.inj found

theorem nonEmptyStr_eq_some {value : JsonScalar} {text : String}
    (found : nonEmptyStr value = some text) : value = .string text := by
  cases value with
  | string inner =>
      simp only [nonEmptyStr] at found
      split at found
      · simp at found
      · simpa using found
  | _ => simp [nonEmptyStr] at found

section Literals

variable {reading : Reading} {lit : Literal}

/-- A readable boolean literal spells its truth value. -/
theorem bool_literal (kind : lit.kind = .bool) (notNull : lit.value ≠ .null)
    (readable : lit.isNull = false → reading.literal lit ≠ .null) :
    ∃ flag, lit.value.asBool = some flag ∧ lit.isNull = false ∧
      reading.literal lit = .bool flag := by
  obtain ⟨kindOf, value, width⟩ := lit
  cases kind
  have present : (⟨.bool, value, width⟩ : Literal).isNull = false := by
    simpa [Literal.isNull] using notNull
  have read : reading.literal ⟨.bool, value, width⟩ =
      (value.asBool.map Value.bool).getD .null := by
    simp [Reading.literal, present]
  cases spelled : value.asBool with
  | none => exact absurd (by rw [read, spelled]; rfl) (readable present)
  | some flag =>
      refine ⟨flag, rfl, present, ?_⟩
      rw [read, spelled]
      rfl

theorem string_literal (reading : Reading) {text : String} (kind : lit.kind = .string)
    (string : lit.value.asStr = some text) :
    lit.isNull = false ∧ reading.literal lit = .text text := by
  obtain ⟨kindOf, value, width⟩ := lit
  cases kind
  cases value with
  | string value =>
      cases string
      simp [Reading.literal, Literal.isNull, JsonScalar.toText]
  | _ => simp [JsonScalar.asStr] at string

theorem date_literal {text : String} {days : ℤ} (kind : lit.kind = .date)
    (string : lit.value.asStr = some text)
    (readable : lit.isNull = false → reading.literal lit ≠ .null)
    (parsed : ∀ exact, reading.date text.toList = some exact → days = exact) :
    lit.isNull = false ∧ reading.literal lit = .date days := by
  obtain ⟨kindOf, value, width⟩ := lit
  cases kind
  cases value with
  | string value =>
      cases string
      have value : reading.literal ⟨.date, .string text, width⟩ =
          ((reading.date text.toList).map Value.date).getD .null := by
        simp [Reading.literal, Literal.isNull, JsonScalar.toText]
      cases read : reading.date text.toList with
      | none => exact absurd (by rw [value, read]; rfl) (readable rfl)
      | some exact =>
          rw [value, read, parsed exact read]
          exact ⟨rfl, rfl⟩
  | _ => simp [JsonScalar.asStr] at string

theorem binary_literal (reading : Reading) {bytes : List Nat} (kind : lit.kind = .binary)
    (decoded : literalBinaryBytes lit = some bytes) :
    lit.isNull = false ∧ reading.literal lit = .bytes bytes := by
  obtain ⟨kindOf, value, width⟩ := lit
  cases kind
  cases value with
  | string text =>
      have read : Text.hexDecode text.toList = some bytes := decoded
      simp [Reading.literal, Literal.isNull, JsonScalar.toText, read]
  | _ => simp [literalBinaryBytes, JsonScalar.asStr] at decoded

end Literals

theorem columnName_eq_some {node : Node} {name : String} (found : columnName node = some name) :
    ∃ col, node = .column col ∧ col.name = name := by
  cases node with
  | column col => exact ⟨col, rfl, by simpa [columnName] using found⟩
  | _ => simp [columnName] at found

end LakehouseEngine
