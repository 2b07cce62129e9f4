import LakehouseEngine.Data.OrderedMap
import LakehouseEngine.Text.Json
import Mathlib.Algebra.BigOperators.Group.List.Basic
import Mathlib.Algebra.GroupWithZero.Nat
import Mathlib.Data.List.Perm.Basic

/-!
# The compact text of a JSON value

Arrays and objects are written without white space, their parts separated by commas.  How long
a text is, in bytes, is the sum over its parts and does not depend on the order of an object's
entries.
-/

namespace LakehouseEngine.Json

/-- The length of a text in UTF-8. -/
def byteLen (text : List Char) : ℕ := (text.map Char.utf8Size).sum

/-- The letter after the backslash of a short escape. -/
def escapeLetter (c : Char) : Option Char :=
  match c.toNat with
  | 0x08 => some 'b'
  | 0x09 => some 't'
  | 0x0A => some 'n'
  | 0x0C => some 'f'
  | 0x0D => some 'r'
  | 0x22 => some '"'
  | 0x5C => some '\\'
  | _ => none

def escapeChar (c : Char) : List Char :=
  match escapeLetter c with
  | some letter => ['\\', letter]
  | none =>
      if c.toNat < 0x20 then
        ['\\', 'u', '0', '0', Nat.digitChar (c.toNat / 16), Nat.digitChar (c.toNat % 16)]
      else [c]

def quote (text : String) : List Char := '"' :: (text.toList.flatMap escapeChar ++ ['"'])

mutual

def compact : Json → List Char
  | null => "null".toList
  | bool true => "true".toList
  | bool false => "false".toList
  | integer value => (toString value).toList
  | float text => text.toList
  | string text => quote text
  | array items => '[' :: ([','].intercalate (compactItems items) ++ [']'])
  | object entries => '\x7b' :: ([','].intercalate (compactEntries entries) ++ ['\x7d'])

def compactItems : List Json → List (List Char)
  | [] => []
  | item :: items => item.compact :: compactItems items

def compactEntries : List (String × Json) → List (List Char)
  | [] => []
  | (key, value) :: entries => (quote key ++ ':' :: value.compact) :: compactEntries entries

end

/-- The length of a value's text. -/
def size (json : Json) : ℕ := byteLen json.compact

/-- A character that is written as itself, in one byte. -/
def Plain (c : Char) : Prop := escapeChar c = [c] ∧ c.utf8Size = 1

end LakehouseEngine.Json
