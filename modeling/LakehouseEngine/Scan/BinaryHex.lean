import LakehouseEngine.Data.Fallible
import LakehouseEngine.Text.Hex
import LakehouseEngine.Types.ExasolType

/-!
# Binary columns read as hexadecimal text

The scan renders a binary column as the lower-case hexadecimal text of its bytes, and exposes
the bytes themselves under a second name.
-/

namespace LakehouseEngine

/-- The name under which the scan exposes a binary column's raw bytes. -/
def rawBytesAlias (column : String) : String := "_LH_BYTES_" ++ column

/-- The text or NULL of one value; `rendered` decides which. -/
def hexString (rendered : List ℕ → Except String Bool) :
    Option (List ℕ) → Except String (Option String)
  | some bytes => do
      if ← rendered bytes then
        return some (String.ofList (Text.hexEncode bytes))
      else
        return none
  | none => return none

def hexStrings (array : List (Option (List ℕ))) (rendered : List ℕ → Except String Bool) :
    Except String (List (Option String)) :=
  array.mapM (hexString rendered)

/-- The text Exasol reads for a value: NULL for an empty one. -/
def hexText : Option (List ℕ) → Option String
  | some [] | none => none
  | some bytes => some (String.ofList (Text.hexEncode bytes))

end LakehouseEngine
