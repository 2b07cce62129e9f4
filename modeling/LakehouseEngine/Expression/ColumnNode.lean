import LakehouseEngine.Data.Fallible
import LakehouseEngine.Data.OrderedMap
import LakehouseEngine.Expression.Node
import LakehouseEngine.Text.Json

/-!
# Column nodes of a request

The trees of a request are JSON values, and a column node is an object of its own type at any
depth.  `rewrite_table_aliases` copies a tree and sets the aliases of its column nodes; the
lemmas say what it leaves and what it sets, place by place.
-/

namespace LakehouseEngine

def tableNameKey : String := "tableName"

def tableAliasKey : String := "tableAlias"

/-- The column an object is, if it is a `column` node with a name. -/
def ColumnNode.fromMap (map : List (String × Json)) : Option ColumnNode :=
  let text := fun key => (map.lookup key).bind Json.asStr
  if text "type" = some "column" then
    (text "name").map fun name => ⟨name, text tableNameKey, text tableAliasKey⟩
  else none

section Rewrite

variable {ε : Type}

mutual

/-- Copies a tree and sets each column's alias to the answer for it, if there is one. -/
def rewriteTableAliases (answer : ColumnNode → Except ε (Option String)) : Json → Except ε Json
  | .object map => do
      let out ← rewriteEntries answer map
      match ColumnNode.fromMap map with
      | none => return .object out
      | some column =>
          match ← answer column with
          | none => return .object out
          | some name => return .object (OrderedMap.insert tableAliasKey (.string name) out)
  | .array items => do
      let out ← rewriteItems answer items
      return .array out
  | other => return other

def rewriteItems (answer : ColumnNode → Except ε (Option String)) : List Json → Except ε (List Json)
  | [] => return []
  | item :: items => do
      let first ← rewriteTableAliases answer item
      let rest ← rewriteItems answer items
      return first :: rest

def rewriteEntries (answer : ColumnNode → Except ε (Option String)) :
    List (String × Json) → Except ε (List (String × Json))
  | [] => return []
  | (key, value) :: entries => do
      let first ← rewriteTableAliases answer value
      let rest ← rewriteEntries answer entries
      return (key, first) :: rest

end

mutual

/-- The tree without the aliases of its column nodes. -/
def Json.unaliased : Json → Json
  | .object map =>
      match ColumnNode.fromMap map with
      | none => .object (unaliasedEntries map)
      | some _ => .object (OrderedMap.erase tableAliasKey (unaliasedEntries map))
  | .array items => .array (unaliasedItems items)
  | other => other

def Json.unaliasedItems : List Json → List Json
  | [] => []
  | item :: items => item.unaliased :: unaliasedItems items

def Json.unaliasedEntries : List (String × Json) → List (String × Json)
  | [] => []
  | (key, value) :: entries => (key, value.unaliased) :: unaliasedEntries entries

end

/-- A column node at the end of a path. -/
def Json.ColumnAt (json : Json) (path : List Json.Step) (column : ColumnNode) : Prop :=
  ∃ map, json.At path (.object map) ∧ ColumnNode.fromMap map = some column

/-- The path leads into what a column node has for an alias, which is no tree of the request. -/
def Json.UnderAlias (json : Json) (path : List Json.Step) : Prop :=
  ∃ front rest column, path = front ++ .key tableAliasKey :: rest ∧ json.ColumnAt front column

/-- The column with the answer for an alias, if there is one. -/
def ColumnNode.answered (column : ColumnNode) : Option String → ColumnNode
  | none => column
  | some name => { column with tableAlias := some name }

variable {answer : ColumnNode → Except ε (Option String)}

/-! ## One level -/

theorem rewriteItems_eq_mapM (items : List Json) :
    rewriteItems answer items = items.mapM (rewriteTableAliases answer) := by
  induction items with
  | nil => rfl
  | cons item items ih => rw [rewriteItems, ih, List.mapM_cons]

theorem rewriteEntries_eq_mapM (entries : List (String × Json)) :
    rewriteEntries answer entries =
      entries.mapM fun entry => (rewriteTableAliases answer entry.2).map (entry.1, ·) := by
  induction entries with
  | nil => rfl
  | cons entry entries ih =>
      obtain ⟨key, value⟩ := entry
      rw [rewriteEntries, ih, List.mapM_cons]
      cases rewriteTableAliases answer value <;> rfl

theorem unaliasedItems_eq_map (items : List Json) :
    Json.unaliasedItems items = items.map Json.unaliased := by
  induction items with
  | nil => rfl
  | cons item items ih => rw [Json.unaliasedItems, ih, List.map_cons]

theorem unaliasedEntries_eq_map (entries : List (String × Json)) :
    Json.unaliasedEntries entries = entries.map fun entry => (entry.1, entry.2.unaliased) := by
  induction entries with
  | nil => rfl
  | cons entry entries ih => rw [Json.unaliasedEntries, ih, List.map_cons]

/-- The rewrite of one entry. -/
def EntryRewritten (answer : ColumnNode → Except ε (Option String)) (before after : String × Json) :
    Prop :=
  after.1 = before.1 ∧ rewriteTableAliases answer before.2 = .ok after.2

variable {out map : List (String × Json)} {column : ColumnNode}

theorem rewriteEntries_eq_ok {entries : List (String × Json)} :
    rewriteEntries answer entries = .ok out ↔ List.Forall₂ (EntryRewritten answer) entries out := by
  have entry : ∀ before after : String × Json,
      (rewriteTableAliases answer before.2).map (before.1, ·) = .ok after ↔
        EntryRewritten answer before after := by
    intro before after
    obtain ⟨key, value⟩ := after
    cases rewritten : rewriteTableAliases answer before.2 with
    | error error => simp [EntryRewritten, rewritten, Except.map]
    | ok found => simp [EntryRewritten, rewritten, Except.map, eq_comm]
  rw [rewriteEntries_eq_mapM, mapM_eq_ok_iff]
  simp only [entry]

theorem rewrite_array {items : List Json} {out : Json} :
    rewriteTableAliases answer (.array items) = .ok out ↔
      ∃ found, List.Forall₂ (fun item image => rewriteTableAliases answer item = .ok image)
        items found ∧
        out = .array found := by
  rw [rewriteTableAliases, rewriteItems_eq_mapM]
  simp only [← mapM_eq_ok_iff]
  cases items.mapM (rewriteTableAliases answer) with
  | error error => simp [bind, Except.bind]
  | ok found => simp [bind, Except.bind, pure, Except.pure, eq_comm]

/-- The object with the alias that was answered. -/
def withAnswer (out : List (String × Json)) : Option String → Json
  | none => .object out
  | some name => .object (OrderedMap.insert tableAliasKey (.string name) out)

theorem rewrite_object {out : Json} :
    rewriteTableAliases answer (.object map) = .ok out ↔
      ∃ found, List.Forall₂ (EntryRewritten answer) map found ∧
        ((ColumnNode.fromMap map = none ∧ out = .object found) ∨
          ∃ column answered, ColumnNode.fromMap map = some column ∧ answer column = .ok answered ∧
            out = withAnswer found answered) := by
  rw [rewriteTableAliases]
  simp only [← rewriteEntries_eq_ok]
  cases rewriteEntries answer map with
  | error error => simp [bind, Except.bind]
  | ok found =>
      cases ColumnNode.fromMap map with
      | none => simp [bind, Except.bind, pure, Except.pure, eq_comm]
      | some column =>
          cases answered : answer column with
          | error error => simp [bind, Except.bind, answered]
          | ok name =>
              cases name <;> simp [bind, Except.bind, pure, Except.pure, answered,
                withAnswer, eq_comm]

/-! ## Column nodes after the rewrite -/

/-- A text is its own rewrite, and nothing else becomes a text. -/
theorem asStr_of_rewrite {json out : Json} (rewritten : rewriteTableAliases answer json = .ok out) :
    out.asStr = json.asStr := by
  cases json with
  | array items =>
      obtain ⟨found, -, rfl⟩ := rewrite_array.mp rewritten
      rfl
  | object map =>
      obtain ⟨found, -, ⟨-, rfl⟩ | ⟨column, answered, -, -, rfl⟩⟩ := rewrite_object.mp rewritten
      · rfl
      · cases answered <;> rfl
  | null | bool _ | integer _ | float _ | string _ =>
      cases rewritten
      rfl

theorem text_of_rewritten
    (rewritten : List.Forall₂ (EntryRewritten answer) map out) (key : String) :
    (out.lookup key).bind Json.asStr = (map.lookup key).bind Json.asStr := by
  induction rewritten with
  | nil => rfl
  | @cons before after map out entry rest ih =>
      obtain ⟨name, value⟩ := before
      obtain ⟨name', value'⟩ := after
      obtain ⟨rfl, image⟩ := entry
      rw [OrderedMap.lookup_cons, OrderedMap.lookup_cons]
      split
      · exact asStr_of_rewrite image
      · exact ih

theorem fromMap_of_rewritten (rewritten : List.Forall₂ (EntryRewritten answer) map out) :
    ColumnNode.fromMap out = ColumnNode.fromMap map := by
  simp only [ColumnNode.fromMap, text_of_rewritten rewritten]

theorem fromMap_insert (name : String)
    (parsed : ColumnNode.fromMap map = some column) :
    ColumnNode.fromMap (OrderedMap.insert tableAliasKey (.string name) map) =
      some { column with tableAlias := some name } := by
  have others : ∀ key ≠ tableAliasKey,
      (OrderedMap.insert tableAliasKey (.string name) map).lookup key = map.lookup key := by
    intro key different
    rw [OrderedMap.lookup_insert, if_neg (by simpa using different)]
  have own : (OrderedMap.insert tableAliasKey (.string name) map).lookup tableAliasKey =
      some (.string name) := by
    rw [OrderedMap.lookup_insert, if_pos (beq_self_eq_true _)]
  rw [ColumnNode.fromMap] at parsed ⊢
  simp only [others "type" (by decide), others "name" (by decide),
    others tableNameKey (by decide), own] at parsed ⊢
  split at parsed
  · next typed =>
      obtain ⟨text, named, rfl⟩ := Option.map_eq_some_iff.mp parsed
      rw [if_pos typed, named]
      rfl
  · cases parsed

/-- What a column node becomes is the column with the answer for it. -/
theorem exists_withAnswer (rewritten : List.Forall₂ (EntryRewritten answer) map out)
    (parsed : ColumnNode.fromMap map = some column) (answered : Option String) :
    ∃ found, withAnswer out answered = .object found ∧
      ColumnNode.fromMap found = some (column.answered answered) := by
  have kept : ColumnNode.fromMap out = some column := (fromMap_of_rewritten rewritten).trans parsed
  cases answered with
  | none => exact ⟨out, rfl, kept⟩
  | some name => exact ⟨_, rfl, fromMap_insert name kept⟩

/-! ## The same tree -/

theorem unaliased_withAnswer
    (parsed : ColumnNode.fromMap out = some column) (answered : Option String) :
    (withAnswer out answered).unaliased =
      .object (OrderedMap.erase tableAliasKey (Json.unaliasedEntries out)) := by
  cases answered with
  | none => simp only [withAnswer, Json.unaliased, parsed]
  | some name =>
      simp only [withAnswer, Json.unaliased, fromMap_insert name parsed, unaliasedEntries_eq_map,
        OrderedMap.erase_map, OrderedMap.erase_insert]

/-- The rewrite changes nothing but the aliases of column nodes. -/
theorem unaliased_of_rewrite {json out : Json}
    (rewritten : rewriteTableAliases answer json = .ok out) :
    out.unaliased = json.unaliased := by
  induction json using Json.inductOnParts generalizing out with
  | null | bool _ | integer _ | float _ | string _ =>
      cases rewritten
      rfl
  | array items ih =>
      obtain ⟨found, each, rfl⟩ := rewrite_array.mp rewritten
      rw [Json.unaliased, Json.unaliased, unaliasedItems_eq_map, unaliasedItems_eq_map,
        map_eq_of_forall₂ each fun item member image => ih item member]
  | object map ih =>
      obtain ⟨found, each, outcome⟩ := rewrite_object.mp rewritten
      have entries : Json.unaliasedEntries found = Json.unaliasedEntries map := by
        rw [unaliasedEntries_eq_map, unaliasedEntries_eq_map]
        refine map_eq_of_forall₂ each fun entry member image rewritten => ?_
        rw [rewritten.1, ih entry member rewritten.2]
      have kept := fromMap_of_rewritten each
      rcases outcome with ⟨parsed, rfl⟩ | ⟨column, answered, parsed, -, rfl⟩
      · rw [parsed] at kept
        simp only [Json.unaliased, kept, parsed, entries]
      · rw [unaliased_withAnswer (kept.trans parsed), entries]
        simp only [Json.unaliased, parsed]

/-! ## Place by place -/

theorem columnAt_object {path : List Json.Step} :
    (Json.object map).ColumnAt path column ↔ (path = [] ∧ ColumnNode.fromMap map = some column) ∨
      ∃ name value rest, path = .key name :: rest ∧ (name, value) ∈ map ∧
        value.ColumnAt rest column := by
  cases path with
  | nil => simp [Json.ColumnAt, Json.At]
  | cons step path =>
      cases step with
      | item index => simp [Json.ColumnAt, Json.At]
      | key name =>
          simp only [Json.ColumnAt, Json.At]
          grind

theorem columnAt_array {items : List Json} {path : List Json.Step} :
    (Json.array items).ColumnAt path column ↔
      ∃ index item rest, path = .item index :: rest ∧ items[index]? = some item ∧
        item.ColumnAt rest column := by
  cases path with
  | nil => simp [Json.ColumnAt, Json.At]
  | cons step path =>
      cases step with
      | key name => simp [Json.ColumnAt, Json.At]
      | item index =>
          simp only [Json.ColumnAt, Json.At]
          grind

/-- The rewrite goes through exactly when every column node has an answer. -/
theorem rewrite_succeeds_iff {json : Json} :
    (∃ out, rewriteTableAliases answer json = .ok out) ↔
      ∀ path column, json.ColumnAt path column → ∃ answered, answer column = .ok answered := by
  induction json using Json.inductOnParts with
  | null | bool _ | integer _ | float _ | string _ =>
      refine ⟨fun _ path column found => ?_, fun _ => ⟨_, rfl⟩⟩
      obtain ⟨map, found, -⟩ := found
      cases path with
      | nil => cases found
      | cons step path => cases step <;> cases found
  | array items ih =>
      constructor
      · intro succeeds path column found
        obtain ⟨out, rewritten⟩ := succeeds
        obtain ⟨images, each, rfl⟩ := rewrite_array.mp rewritten
        obtain ⟨index, item, rest, rfl, inside, found⟩ := columnAt_array.mp found
        obtain ⟨image, -, rewritten⟩ := exists_getElem?_of_forall₂ each inside
        exact (ih item (List.mem_of_getElem? inside)).mp ⟨image, rewritten⟩ rest column found
      · intro all
        have each : ∀ item ∈ items, ∃ image, rewriteTableAliases answer item = .ok image := by
          intro item member
          obtain ⟨index, inside⟩ := List.getElem?_of_mem member
          refine (ih item member).mpr fun path column found => ?_
          exact all (.item index :: path) column
            (columnAt_array.mpr ⟨index, item, path, rfl, inside, found⟩)
        obtain ⟨images, each⟩ := exists_forall₂ each
        exact ⟨_, rewrite_array.mpr ⟨images, each, rfl⟩⟩
  | object map ih =>
      constructor
      · intro succeeds path column found
        obtain ⟨out, rewritten⟩ := succeeds
        obtain ⟨images, each, outcome⟩ := rewrite_object.mp rewritten
        rcases columnAt_object.mp found with ⟨rfl, parsed⟩ | ⟨name, value, rest, rfl, member, found⟩
        · rcases outcome with ⟨plain, -⟩ | ⟨other, answered, parsed', answers, -⟩
          · rw [parsed] at plain
            cases plain
          · rw [parsed] at parsed'
            cases parsed'
            exact ⟨answered, answers⟩
        · obtain ⟨image, -, rewritten⟩ := exists_image_of_mem each member
          exact (ih _ member).mp ⟨image.2, rewritten.2⟩ rest column found
      · intro all
        have each : ∀ entry ∈ map, ∃ image, EntryRewritten answer entry image := by
          intro entry member
          have succeeds := (ih entry member).mpr fun path column found =>
            all (.key entry.1 :: path) column
            (columnAt_object.mpr (.inr ⟨entry.1, entry.2, path, rfl, member, found⟩))
          obtain ⟨image, rewritten⟩ := succeeds
          exact ⟨(entry.1, image), rfl, rewritten⟩
        obtain ⟨images, each⟩ := exists_forall₂ each
        cases parsed : ColumnNode.fromMap map with
        | none => exact ⟨_, rewrite_object.mpr ⟨images, each, .inl ⟨parsed, rfl⟩⟩⟩
        | some column =>
            obtain ⟨answered, answers⟩ := all [] column (columnAt_object.mpr (.inl ⟨rfl, parsed⟩))
            exact ⟨_, rewrite_object.mpr ⟨images, each,
              .inr ⟨column, answered, parsed, answers, rfl⟩⟩⟩

/-- A column node stays where it is, with the answer for it. -/
theorem columnAt_of_rewrite {json out : Json}
    (rewritten : rewriteTableAliases answer json = .ok out)
    {path : List Json.Step} (found : json.ColumnAt path column)
    (outside : ¬ json.UnderAlias path) :
    ∃ answered, answer column = .ok answered ∧ out.ColumnAt path (column.answered answered) := by
  induction path generalizing json out with
  | nil =>
      obtain ⟨map, rfl, parsed⟩ := found
      obtain ⟨images, each, ⟨plain, -⟩ | ⟨other, answered, parsed', answers, rfl⟩⟩ :=
        rewrite_object.mp rewritten
      · rw [parsed] at plain
        cases plain
      · rw [parsed] at parsed'
        cases parsed'
        obtain ⟨map', made, answered'⟩ := exists_withAnswer each parsed answered
        exact ⟨answered, answers, map', made.symm, answered'⟩
  | cons step path ih =>
      cases json with
      | null | bool _ | integer _ | float _ | string _ =>
          obtain ⟨map, found, -⟩ := found
          cases step <;> cases found
      | array items =>
          obtain ⟨index, item, rest, same, inside, found⟩ := columnAt_array.mp found
          cases same
          obtain ⟨images, each, rfl⟩ := rewrite_array.mp rewritten
          obtain ⟨image, inImages, rewritten⟩ := exists_getElem?_of_forall₂ each inside
          have below : ¬ item.UnderAlias path := by
            intro under
            obtain ⟨front, rest, other, rfl, above⟩ := under
            exact outside ⟨.item index :: front, rest, other, rfl,
              columnAt_array.mpr ⟨index, item, front, rfl, inside, above⟩⟩
          obtain ⟨answered, answers, placed⟩ := ih rewritten found below
          exact ⟨answered, answers, columnAt_array.mpr ⟨index, image, path, rfl, inImages, placed⟩⟩
      | object map =>
          rcases columnAt_object.mp found with ⟨same, -⟩ | ⟨name, value, rest, same, member, inner⟩
          · cases same
          · cases same
            obtain ⟨images, each, outcome⟩ := rewrite_object.mp rewritten
            obtain ⟨⟨name', image⟩, inImages, rfl, rewritten⟩ := exists_image_of_mem each member
            have below : ¬ value.UnderAlias path := by
              intro under
              obtain ⟨front, rest, other, rfl, above⟩ := under
              exact outside ⟨.key name' :: front, rest, other, rfl,
                columnAt_object.mpr (.inr ⟨name', value, front, rfl, member, above⟩)⟩
            obtain ⟨answered, answers, placed⟩ := ih rewritten inner below
            refine ⟨answered, answers, ?_⟩
            rcases outcome with ⟨-, rfl⟩ | ⟨other, chosen, parsed, -, rfl⟩
            · exact columnAt_object.mpr (.inr ⟨name', image, path, rfl, inImages, placed⟩)
            · cases chosen with
              | none => exact columnAt_object.mpr (.inr ⟨name', image, path, rfl, inImages, placed⟩)
              | some text =>
                  have different : (tableAliasKey == name') = false := by
                    rw [beq_eq_false_iff_ne]
                    rintro rfl
                    exact outside ⟨[], path, other, rfl, columnAt_object.mpr (.inl ⟨rfl, parsed⟩)⟩
                  exact columnAt_object.mpr (.inr ⟨name', image, path, rfl,
                    OrderedMap.mem_insert_of_mem different inImages, placed⟩)

end Rewrite

end LakehouseEngine
