import Mathlib.Data.List.Basic
import Mathlib.Order.Lattice

/-!
# JSON values

The values, how deep they nest, and the contract of the library that writes and reads their
text: what it writes it reads back, up to the depth at which its reader gives up.
-/

namespace LakehouseEngine

inductive Json where
  | null
  | bool (value : Bool)
  | integer (value : ℤ)
  | float (text : String)
  | string (text : String)
  | array (items : List Json)
  | object (entries : List (String × Json))

namespace Json

def get (key : String) : Json → Option Json
  | object entries => entries.lookup key
  | _ => none

def isNull : Json → Bool
  | null => true
  | _ => false

def asStr : Json → Option String
  | string text => some text
  | _ => none

def asArray : Json → Option (List Json)
  | array items => some items
  | _ => none

mutual

/-- The number of arrays and objects around the innermost value. -/
def depth : Json → ℕ
  | null | bool _ | integer _ | float _ | string _ => 0
  | array items => depthItems items + 1
  | object entries => depthEntries entries + 1

def depthItems : List Json → ℕ
  | [] => 0
  | item :: items => max item.depth (depthItems items)

def depthEntries : List (String × Json) → ℕ
  | [] => 0
  | (_, value) :: entries => max value.depth (depthEntries entries)

end

/-- Induction on a value, with one hypothesis for each item and each entry. -/
theorem inductOnParts {motive : Json → Prop} (null : motive .null)
    (bool : ∀ value, motive (.bool value))
    (integer : ∀ value, motive (.integer value)) (float : ∀ text, motive (.float text))
    (string : ∀ text, motive (.string text))
    (array : ∀ items, (∀ item ∈ items, motive item) → motive (.array items))
    (object : ∀ entries, (∀ entry ∈ entries, motive entry.2) → motive (.object entries))
    (json : Json) : motive json := by
  refine Json.rec (motive_1 := motive) (motive_2 := fun items => ∀ item ∈ items, motive item)
    (motive_3 := fun entries => ∀ entry ∈ entries, motive entry.2)
      (motive_4 := fun entry => motive entry.2)
    null bool integer float string array object ?_ ?_ ?_ ?_ ?_ json
  · exact List.forall_mem_nil _
  · exact fun item items first rest => List.forall_mem_cons.mpr ⟨first, rest⟩
  · exact List.forall_mem_nil _
  · exact fun entry entries first rest => List.forall_mem_cons.mpr ⟨first, rest⟩
  · exact fun key value holds => holds

/-- One step down from an object or an array. -/
inductive Step where
  | key (name : String)
  | item (index : ℕ)

/-- What a value holds at the end of a path. -/
def At : Json → List Step → Json → Prop
  | json, [], found => found = json
  | object entries, .key name :: path, found => ∃ value, (name, value) ∈ entries ∧
      value.At path found
  | array items, .item index :: path, found => ∃ item, items[index]? = some item ∧
      item.At path found
  | _, _ :: _, _ => False

end Json

/-- The library's texts of JSON values; its reader reads a value that nests up to 127 times. -/
structure JsonText (τ : Type*) where
  write : Json → τ
  read : τ → Option Json
  within : ∀ value, value.depth ≤ 127 → read (write value) = some value

/-- A library whose texts are the values themselves. -/
def JsonText.ideal : JsonText Json where
  write value := value
  read value := if value.depth ≤ 127 then some value else none
  within _ bounded := if_pos bounded

end LakehouseEngine
