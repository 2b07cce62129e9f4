import LakehouseEngine.Adapter.TableIdentity
import LakehouseEngine.Data.OrderedMap
import LakehouseEngine.Text.JsonCompact
import LakehouseEngine.Text.Numeral

/-!
# The list of skipped tables in the schema's notes

The notes record which tables a listing skipped, capped to what Exasol accepts, and how many
entries the cap has dropped.  The cap adds entry after entry until the notes would be too long.
-/

namespace LakehouseEngine

open TableIdentity (CatalogTableIdent catalogIdentifierString)

/-! ## Entries -/

inductive SkipReason where
  | notLoadableIcebergTable
  | loadRejected (detail : String)
  | notDeltaBaseTable (detail : String)
  | noDataFile
  | notPlannableGlueTable (detail : String)
  deriving DecidableEq

structure SkippedTable where
  ident : CatalogTableIdent
  reason : SkipReason
  deriving DecidableEq

/-- The noun of the warning and the reason that warning and notes give. -/
def skipKindAndReason (entry : SkippedTable) : String × String :=
  match entry.reason with
  | .notLoadableIcebergTable =>
      ("non-Iceberg table", "catalog reported it is not a loadable Iceberg table")
  | .loadRejected detail => ("unloadable table", detail)
  | .notDeltaBaseTable detail => ("non-Delta-base entry", detail)
  | .noDataFile => ("directory", "holds no data file")
  | .notPlannableGlueTable detail => ("Glue table", detail)

structure SkipEntry where
  table : String
  reason : String
  deriving DecidableEq

namespace SkipEntry

def toJson (entry : SkipEntry) : Json :=
  .object [("reason", .string entry.reason), ("table", .string entry.table)]

def fromJson (entry : Json) : Option SkipEntry := do
  let table ← (← entry.get "table").asStr
  let reason ← (← entry.get "reason").asStr
  return ⟨table, reason⟩

/-- `From<&SkippedTable>`. -/
def ofSkipped (skipped : SkippedTable) : SkipEntry :=
  ⟨String.ofList (catalogIdentifierString skipped.ident), (skipKindAndReason skipped).2⟩

theorem fromJson_toJson (entry : SkipEntry) : fromJson entry.toJson = some entry := rfl

end SkipEntry

/-- The entries in listing order and the count of those that were dropped before. -/
structure SkippedTables where
  entries : List SkipEntry
  omitted : UInt64

/-! ## Notes -/

/-- The notes of a schema, in the order of their keys. -/
abbrev AdapterNotes := OrderedMap.StringMap Json

namespace AdapterNotes

def insert (notes : AdapterNotes) (key : String) (value : Json) : AdapterNotes :=
  ⟨OrderedMap.insert key value notes.entries, notes.sorted.insert key value⟩

def remove (notes : AdapterNotes) (key : String) : AdapterNotes :=
  ⟨OrderedMap.erase key notes.entries, notes.sorted.erase key⟩

def get (notes : AdapterNotes) (key : String) : Option Json := notes.entries.lookup key

/-- The length of the notes' text. -/
def len (notes : AdapterNotes) : ℕ := (Json.object notes.entries).size

end AdapterNotes

def noteSkippedTables : String := "SKIPPED_TABLES"

def noteSkippedTablesOmitted : String := "SKIPPED_TABLES_OMITTED"

namespace SkippedTables

/-- The entry recorded for an identifier; the last of several under one text. -/
def entryLookup (skipped : SkippedTables) (ident : CatalogTableIdent) : Option SkipEntry :=
  (OrderedMap.collect (skipped.entries.map fun entry => (entry.table, entry))).lookup
    (String.ofList (catalogIdentifierString ident))

/-- The skips of a full listing. -/
def listed (skipped : List SkippedTable) : SkippedTables := ⟨skipped.map SkipEntry.ofSkipped, 0⟩

/-- What a previous response recorded; a malformed entry or count is read as absent. -/
def persisted (notes : AdapterNotes) : SkippedTables where
  entries := (((notes.get noteSkippedTables).bind Json.asArray).map fun entries =>
    entries.filterMap SkipEntry.fromJson).getD []
  omitted := ((((notes.get noteSkippedTablesOmitted).bind Json.asStr).bind fun count =>
    Text.parseUnsigned (2 ^ 64) count.toList).map UInt64.ofNat).getD 0

end SkippedTables

/-- Exasol refuses longer notes. -/
def adapterNotesMaxBytes : ℕ := 2000000

/-! ## The cap -/

/-- The length of the count's entry with the comma before it. -/
def omittedEntryLen (omitted : ℕ) : ℕ :=
  if omitted = 0 then 0
  else (Json.object [(noteSkippedTablesOmitted, .string (toString omitted))]).size - 2 + 1

/-- `saturating_add` of 64-bit numbers. -/
def saturatingAdd (left right : ℕ) : ℕ := min (left + right) (2 ^ 64 - 1)

/-- The loop of `fit_skipped_tables`: how many entries fit. -/
def fitLoop (notesLen : ℕ → ℕ → ℕ) : List Json → ℕ → ℕ → ℕ
  | [], kept, _ => kept
  | entry :: rest, kept, keptLen =>
      let nextLen := keptLen + (if 0 < kept then 1 else 0) + entry.size
      if adapterNotesMaxBytes < notesLen (kept + 1) nextLen then kept
      else fitLoop notesLen rest (kept + 1) nextLen

/-- The entries that are kept and the count of the others. -/
def fitSkippedTables (entries : List Json) (baseLen carried : ℕ) : List Json × ℕ :=
  let omittedAfter := fun kept => saturatingAdd carried (entries.length - kept)
  let notesLen := fun kept keptLen => baseLen + keptLen + omittedEntryLen (omittedAfter kept)
  let kept := fitLoop notesLen entries 0 0
  (entries.take kept, omittedAfter kept)

/-- The notes with an empty list and no count. -/
def AdapterNotes.cleared (notes : AdapterNotes) : AdapterNotes :=
  (notes.insert noteSkippedTables (.array [])).remove noteSkippedTablesOmitted

/-- The cleared notes with a list and a count, which is left out if it is zero. -/
def AdapterNotes.recording (notes : AdapterNotes) (entries : List Json) (omitted : ℕ) :
    AdapterNotes :=
  let listed := notes.cleared.insert noteSkippedTables (.array entries)
  if 0 < omitted then listed.insert noteSkippedTablesOmitted
    (.string (toString omitted)) else listed

/-- `insert_skipped_tables`. -/
def insertSkippedTables (notes : AdapterNotes) (skipped : SkippedTables) : AdapterNotes :=
  let entries := skipped.entries.map SkipEntry.toJson
  let (kept, omitted) := fitSkippedTables entries notes.cleared.len skipped.omitted.toNat
  notes.recording kept omitted

/-! ## How long the notes are -/

theorem omitted_notMem_cleared (notes : AdapterNotes) :
    noteSkippedTablesOmitted ∉ notes.cleared.entries.map Prod.fst := by
  rw [AdapterNotes.cleared, AdapterNotes.remove, List.mem_map]
  rintro ⟨entry, member, same⟩
  have kept := (List.mem_filter.mp member).2
  simp [same] at kept

section Loop

variable {notesLen : ℕ → ℕ → ℕ}

end Loop

/-! ## The longest prefix that fits -/

/-- The notes with the first entries and the count that this prefix requires. -/
def AdapterNotes.withPrefix (notes : AdapterNotes) (skipped : SkippedTables) (count : ℕ) :
    AdapterNotes :=
  notes.recording ((skipped.entries.map SkipEntry.toJson).take count)
    (skipped.omitted.toNat + (skipped.entries.length - count))

/-- The prefix and its count fit Exasol's limit. -/
def AdapterNotes.Fits (notes : AdapterNotes) (skipped : SkippedTables) (count : ℕ) : Prop :=
  (notes.withPrefix skipped count).len ≤ adapterNotesMaxBytes

/-- How many entries `fit_skipped_tables` keeps. -/
def keptCount (notes : AdapterNotes) (skipped : SkippedTables) : ℕ :=
  fitLoop (fun kept keptLen => notes.cleared.len + keptLen +
      omittedEntryLen (saturatingAdd skipped.omitted.toNat (skipped.entries.length - kept)))
    (skipped.entries.map SkipEntry.toJson) 0 0

/-- The count that `fit_skipped_tables` gives. -/
def omittedCount (notes : AdapterNotes) (skipped : SkippedTables) : ℕ :=
  saturatingAdd skipped.omitted.toNat (skipped.entries.length - keptCount notes skipped)

section Cap

variable {notes : AdapterNotes} {skipped : SkippedTables}

theorem insertSkippedTables_eq (notes : AdapterNotes) (skipped : SkippedTables) :
    insertSkippedTables notes skipped =
      notes.recording ((skipped.entries.map SkipEntry.toJson).take (keptCount notes skipped))
        (omittedCount notes skipped) := by
  simp only [insertSkippedTables, fitSkippedTables, keptCount, omittedCount, List.length_map]

/-- A list that was not cut is read back as it was. -/
theorem persisted_insertSkippedTables (uncapped : keptCount notes skipped = skipped.entries.length)
    (none : skipped.omitted = 0) : .persisted (insertSkippedTables notes skipped) = skipped := by
  obtain ⟨entries, omitted⟩ := skipped
  obtain rfl : omitted = 0 := none
  have count : omittedCount notes ⟨entries, 0⟩ = 0 := by
    rw [omittedCount, uncapped, Nat.sub_self]
    rfl
  have list : (insertSkippedTables notes ⟨entries, 0⟩).get noteSkippedTables =
      some (.array (entries.map SkipEntry.toJson)) := by
    rw [insertSkippedTables_eq, count, uncapped, List.take_of_length_le (by simp)]
    change List.lookup _ (OrderedMap.insert _ _ _) = _
    rw [OrderedMap.lookup_insert, if_pos (beq_self_eq_true _)]
  have absent : (insertSkippedTables notes ⟨entries, 0⟩).get noteSkippedTablesOmitted =
    Option.none := by
    rw [insertSkippedTables_eq, count]
    change List.lookup _ (OrderedMap.insert _ _ _) = _
    rw [OrderedMap.lookup_insert, if_neg (by decide)]
    exact OrderedMap.lookup_erase_self _ _
  have entry : (entries.map SkipEntry.toJson).filterMap SkipEntry.fromJson = entries := by
    rw [List.filterMap_map]
    exact (List.filterMap_congr fun entry _ => SkipEntry.fromJson_toJson entry).trans
      List.filterMap_some
  rw [SkippedTables.persisted, list, absent]
  change SkippedTables.mk (List.filterMap SkipEntry.fromJson (entries.map SkipEntry.toJson)) 0 = _
  rw [entry]

theorem get_recording_entries (notes : AdapterNotes) (entries : List Json) (omitted : ℕ) :
    (notes.recording entries omitted).get noteSkippedTables = some (.array entries) := by
  have listed : (notes.cleared.insert noteSkippedTables (.array entries)).get noteSkippedTables =
      some (.array entries) := by
    rw [AdapterNotes.get, AdapterNotes.insert, OrderedMap.lookup_insert]
    simp
  unfold AdapterNotes.recording
  simp only
  split
  · rw [AdapterNotes.get, AdapterNotes.insert, OrderedMap.lookup_insert, if_neg (by decide)]
    exact listed
  · exact listed

theorem get_recording_omitted (notes : AdapterNotes) (entries : List Json) (omitted : ℕ) :
    (notes.recording entries omitted).get noteSkippedTablesOmitted =
      if 0 < omitted then some (.string (toString omitted)) else none := by
  have unlisted : (notes.cleared.insert noteSkippedTables (.array entries)).get
      noteSkippedTablesOmitted = none := by
    rw [AdapterNotes.get, AdapterNotes.insert, OrderedMap.lookup_insert, if_neg (by decide)]
    exact OrderedMap.lookup_eq_none (omitted_notMem_cleared notes)
  unfold AdapterNotes.recording
  simp only
  split
  · rw [AdapterNotes.get, AdapterNotes.insert, OrderedMap.lookup_insert]
    simp
  · exact unlisted

/-- A later request reads back the entries that were kept, in their order, and the number of those
that were not, with what earlier responses had left out. -/
theorem persisted_is_kept (notes : AdapterNotes) (skipped : SkippedTables) :
    .persisted (insertSkippedTables notes skipped) =
      SkippedTables.mk (skipped.entries.take (keptCount notes skipped))
        (.ofNat (omittedCount notes skipped)) := by
  rw [insertSkippedTables_eq, SkippedTables.persisted, get_recording_entries, get_recording_omitted]
  refine congr (congrArg _ ?_) ?_
  · change List.filterMap _ _ = _
    rw [← List.map_take, List.filterMap_map]
    exact (List.filterMap_congr fun entry _ => entry.fromJson_toJson).trans List.filterMap_some
  · have small : omittedCount notes skipped < 2 ^ 64 := by
      rw [omittedCount, saturatingAdd]
      omega
    split
    · change ((Text.parseUnsigned _ _).map _).getD 0 = _
      rw [Text.parseUnsigned_toString small]
      rfl
    · rw [show omittedCount notes skipped = 0 by omega]
      rfl

end Cap

/-! ## A list that fits and is dropped -/

/-- No notes at all. -/
def noNotes : AdapterNotes := ⟨OrderedMap.collect [], OrderedMap.sorted_collect []⟩

end LakehouseEngine
