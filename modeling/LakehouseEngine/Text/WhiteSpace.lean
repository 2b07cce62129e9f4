import Mathlib.Data.List.TakeWhile

/-!
# White space

The characters with the Unicode property `White_Space`, which `trim` and `trim_start` of a
text remove.
-/

namespace LakehouseEngine.WhiteSpace

/-- The code points that are white space. -/
def codePoints : List ℕ :=
  [0x09, 0x0A, 0x0B, 0x0C, 0x0D, 0x20, 0x85, 0xA0, 0x1680, 0x2000, 0x2001, 0x2002, 0x2003, 0x2004,
    0x2005, 0x2006, 0x2007, 0x2008, 0x2009, 0x200A, 0x2028, 0x2029, 0x202F, 0x205F, 0x3000]

def isWhiteSpace (c : Char) : Bool := codePoints.contains c.toNat

def trimStart (text : List Char) : List Char := text.dropWhile isWhiteSpace

def trimEnd (text : List Char) : List Char := (text.reverse.dropWhile isWhiteSpace).reverse

def trim (text : List Char) : List Char := trimEnd (trimStart text)

theorem trim_eq_self {text : List Char} (solid : ∀ c ∈ text, isWhiteSpace c = false) :
    trim text = text := by
  have keep (chars : List Char) (each : ∀ c ∈ chars, isWhiteSpace c = false) :
      chars.dropWhile isWhiteSpace = chars :=
    List.dropWhile_eq_self_iff.mpr fun nonempty => by
      simp [each _ (List.getElem_mem nonempty)]
  rw [trim, trimStart, trimEnd, keep text solid,
    keep _ fun c member => solid c (by simpa using member), List.reverse_reverse]

end LakehouseEngine.WhiteSpace
