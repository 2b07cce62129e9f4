import LakehouseEngine.Scan.ObjectLocation

/-!
# Routing requests between the stores of a join

Both sides of a join may share a bucket while each holds a credential of its own.  The
router serves a path from the store of the side that owns it: the first side enumerating
the path, else the side with the longest matching table root.
-/

namespace LakehouseEngine

/-! ## The first maximum of a list -/

section FirstMaximum

variable {α : Type*} (measure : α → Option Nat)

/-- Scan for the greatest measure; a later item has to exceed the best one so far. -/
def firstMaximum : List α → Nat → Option (Nat × Nat) → Option (Nat × Nat)
  | [], _, longest => longest
  | item :: rest, index, longest =>
      firstMaximum rest (index + 1) <|
        match measure item with
        | none => longest
        | some matched =>
            if longest.all fun best => best.2 < matched then some (index, matched) else longest

/-- `index` is the earliest place of the greatest measure. -/
def IsFirstMaximum (items : List α) (index greatest : Nat) : Prop :=
  items[index]?.bind measure = some greatest ∧
    ∀ other value : Nat, items[other]?.bind measure = some value →
      value ≤ greatest ∧ (value = greatest → index ≤ other)

/-- What a scan knows once it has passed `items`. -/
def Scanned (items : List α) : Option (Nat × Nat) → Prop
  | none => ∀ other : Nat, items[other]?.bind measure = none
  | some (index, greatest) => IsFirstMaximum measure items index greatest

variable {measure}

theorem IsFirstMaximum.unique {items : List α} {index other greatest value : Nat}
    (first : IsFirstMaximum measure items index greatest)
    (second : IsFirstMaximum measure items other value) : index = other := by
  obtain ⟨forward, forwardTie⟩ := first.2 other value second.1
  obtain ⟨backward, backwardTie⟩ := second.2 index greatest first.1
  have same : value = greatest := by omega
  have := forwardTie same
  have := backwardTie same.symm
  omega

theorem measure_append {items : List α} {item : α} {other value : Nat}
    (found : (items ++ [item])[other]?.bind measure = some value) :
    items[other]?.bind measure = some value ∨ other = items.length ∧ measure item = some value := by
  rcases Nat.lt_trichotomy other items.length with before | rfl | behind
  · rw [List.getElem?_append_left before] at found
    exact .inl found
  · rw [List.getElem?_append_right (le_refl _)] at found
    exact .inr ⟨rfl, by simpa using found⟩
  · rw [List.getElem?_eq_none (by simp; omega)] at found
    cases found

theorem Scanned.step {items : List α} {longest : Option (Nat × Nat)}
    (scanned : Scanned measure items longest) (item : α) :
    Scanned measure (items ++ [item])
      (match measure item with
      | none => longest
      | some matched =>
          if longest.all fun best => best.2 < matched then some (items.length, matched)
          else longest) := by
  have kept {index : Nat} {greatest : Nat} (found : items[index]?.bind measure = some greatest) :
      (items ++ [item])[index]?.bind measure = some greatest := by
    have before : index < items.length := by
      by_contra behind
      rw [List.getElem?_eq_none (by omega)] at found
      cases found
    rwa [List.getElem?_append_left before]
  cases read : measure item with
  | none =>
      cases longest with
      | none =>
          intro other
          cases found : (items ++ [item])[other]?.bind measure with
          | none => rfl
          | some value =>
              rcases measure_append found with early | ⟨-, late⟩
              · rw [scanned other] at early
                cases early
              · rw [read] at late
                cases late
      | some best =>
          refine ⟨kept scanned.1, ?_⟩
          intro other value found
          rcases measure_append found with early | ⟨-, late⟩
          · exact scanned.2 other value early
          · rw [read] at late
            cases late
  | some matched =>
      have last : (items ++ [item])[items.length]?.bind measure = some matched := by
        simp [read]
      cases longest with
      | none =>
          refine ⟨last, ?_⟩
          intro other value found
          rcases measure_append found with early | ⟨rfl, late⟩
          · rw [scanned other] at early
            cases early
          · rw [read, Option.some.injEq] at late
            exact ⟨late.ge, fun _ => le_refl _⟩
      | some best =>
          obtain ⟨index, greatest⟩ := best
          by_cases longer : greatest < matched
          · simp only [Option.all_some, longer, decide_true, if_true]
            refine ⟨last, ?_⟩
            intro other value found
            rcases measure_append found with early | ⟨rfl, late⟩
            · have := (scanned.2 other value early).1
              exact ⟨by omega, fun same => by omega⟩
            · rw [read, Option.some.injEq] at late
              exact ⟨late.ge, fun _ => le_refl _⟩
          · simp only [Option.all_some, longer, decide_false, Bool.false_eq_true, if_false]
            refine ⟨kept scanned.1, ?_⟩
            intro other value found
            rcases measure_append found with early | ⟨rfl, late⟩
            · exact scanned.2 other value early
            · rw [read, Option.some.injEq] at late
              have inside : index < items.length := by
                by_contra behind
                have empty := scanned.1
                rw [List.getElem?_eq_none (by omega)] at empty
                cases empty
              exact ⟨by omega, fun _ => by omega⟩

end FirstMaximum

/-! ## Sides -/

variable {Store : Type}

structure RoutedSide (Store : Type) where
  label : String
  owned : List StorePath
  root : Option StorePath
  store : Store

/-! ## Routing -/

inductive RouteError where
  /-- No side owns the path; the sides tried, with their roots. -/
  | unownedPath (path : StorePath) (tried : List (String × Option StorePath))
  | unprefixedListing (tried : List (String × Option StorePath))
  | differentSides (operation : String) (source target : StorePath) (labels : String × String)
  deriving DecidableEq

def describeSides (sides : List (RoutedSide Store)) : List (String × Option StorePath) :=
  sides.map fun side => (side.label, side.root)

/-- The byte length of a side's root, if it is a root of the path. -/
def RoutedSide.matched (path : StorePath) (side : RoutedSide Store) : Option Nat :=
  (side.root.filter path.prefixMatches).map fun root => (utf8Bytes root.raw).length

/-- The first side enumerating the path, else the side with the longest matching root. -/
def owningSide (sides : List (RoutedSide Store)) (path : StorePath) : Except RouteError Nat :=
  match sides.findIdx? fun side => path ∈ side.owned with
  | some index => .ok index
  | none =>
      match firstMaximum (RoutedSide.matched path) sides 0 none with
      | some (index, _) => .ok index
      | none => .error (.unownedPath path (describeSides sides))

/-- A listing without a path belongs to no side. -/
def routeListing (sides : List (RoutedSide Store)) (base : Option StorePath) :
    Except RouteError Nat :=
  match base with
  | none => .error (.unprefixedListing (describeSides sides))
  | some base => owningSide sides base

def labelAt (sides : List (RoutedSide Store)) (index : Nat) : String :=
  (sides[index]?.map RoutedSide.label).getD ""

/-- One side has to own both paths. -/
def routePair (sides : List (RoutedSide Store)) (operation : String) (source target : StorePath) :
    Except RouteError Nat := do
  let sourceSide ← owningSide sides source
  let targetSide ← owningSide sides target
  if sourceSide ≠ targetSide then
    .error (.differentSides operation source target
      (labelAt sides sourceSide, labelAt sides targetSide))
  else return sourceSide

/-! ## The store's operations -/

/-- A request to an object store, with the paths it names. -/
inductive StoreRequest where
  | putOpts (location : StorePath)
  | putMultipartOpts (location : StorePath)
  | getOpts (location : StorePath)
  | getRanges (location : StorePath)
  | delete (location : StorePath)
  | list (base : Option StorePath)
  | listWithOffset (base : Option StorePath) (offset : StorePath)
  | listWithDelimiter (base : Option StorePath)
  | copyOpts (source target : StorePath)
  | renameOpts (source target : StorePath)
  deriving DecidableEq

namespace StoreRequest

/-- The paths a request is about.  An offset only says where a listing resumes. -/
def paths : StoreRequest → List StorePath
  | .putOpts location | .putMultipartOpts location | .getOpts location | .getRanges location
  | .delete location => [location]
  | .list base | .listWithOffset base _ | .listWithDelimiter base => base.toList
  | .copyOpts source target | .renameOpts source target => [source, target]

/-- The side whose store the router hands a request to. -/
def route (sides : List (RoutedSide Store)) : StoreRequest → Except RouteError Nat
  | .putOpts location | .putMultipartOpts location | .getOpts location | .getRanges location
  | .delete location => owningSide sides location
  | .list base | .listWithOffset base _ | .listWithDelimiter base => routeListing sides base
  | .copyOpts source target => routePair sides "copy" source target
  | .renameOpts source target => routePair sides "rename" source target

end StoreRequest

/-- The requests that are handed to a store, each with the index of the side and its store.  A
stream of deletes is one request for each of its locations. -/
def reached (sides : List (RoutedSide Store)) (requests : List StoreRequest) :
    List (Nat × Store × StoreRequest) :=
  requests.filterMap fun request => do
    let index ← (request.route sides).toOption
    let side ← sides[index]?
    return (index, side.store, request)

/-! ## Roots of one path -/

variable {sides : List (RoutedSide Store)} {path : StorePath}

/-- The path of a text that is one. -/
def StorePath.literal (text : String) : StorePath :=
  ((StorePath.parse text.toList).toOption).getD .storeRoot

end LakehouseEngine
