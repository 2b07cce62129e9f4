import LakehouseEngine.Data.Fallible
import LakehouseEngine.Scan.FieldIdProjection

/-!
# Columns are bound by the first rule that applies

The rules are tried in order, each over all columns.  What the renamed schema carries is
compared with the rules; the schema of a table has distinct names, ids and physical names.
-/

namespace LakehouseEngine

namespace FieldIdProjection

structure LogicalSchema where
  fields : List LogicalField
  names : (fields.map (·.name)).Nodup
  ids : (fields.filterMap (·.fieldId)).Nodup
  physicalNames : (fields.filterMap (·.physicalName)).Nodup

namespace LogicalSchema

def columns (schema : LogicalSchema) : List BindingKeys := schema.fields.map (·.keys)

end LogicalSchema

/-! ## The rules -/

inductive Rule where
  | embeddedId
  | physicalName
  | mappedId
  | exactName

namespace Rule

def applies (physical : PhysicalKeys) (column : BindingKeys) : Rule → Bool
  | embeddedId => physical.embeddedId.isSome && column.fieldId = physical.embeddedId
  | physicalName => column.physicalName = some physical.name
  | mappedId => physical.mappedFieldId.isSome && column.fieldId = physical.mappedFieldId
  | exactName => column.bindsByIdentity && column.name = physical.name

/-- The first rule that applies to any column applies to this one. -/
def First (physical : PhysicalKeys) (columns : List BindingKeys) (column : BindingKeys) :
    List Rule → Prop
  | [] => False
  | rule :: later => rule.applies physical column = true ∨
      (∀ other ∈ columns, rule.applies physical other = false) ∧ First physical columns column later

def order : List Rule := [embeddedId, physicalName, mappedId, exactName]

end Rule

section Claimants

variable (schema : LogicalSchema) (file : List Field) (mapping : List NameMappingEntry)

/-- The keys of a field; the name mapping counts only in a file without any id. -/
def physicalKeys (field : Field) : PhysicalKeys where
  name := field.name
  embeddedId := fieldIdOf field
  mappedFieldId :=
    if carriesFieldIds file then none
    else ((mappingByPhysicalName mapping).lookup field.name).map (·.fieldId)

/-- The field at `i` claims the column at `j` by one of the four exact rules. -/
def ClaimsExactly (i j : ℕ) : Prop :=
  ∃ field column, file[i]? = some field ∧ schema.columns[j]? = some column ∧
    Rule.First (physicalKeys file mapping field) schema.columns column Rule.order

variable [Unicode]

/-- A field that no exact rule binds, under its folded name. -/
def Contends (i : ℕ) (key : String) : Prop :=
  (∀ j, ¬ClaimsExactly schema file mapping i j) ∧
    ∃ field, file[i]? = some field ∧ upper field.name = key

/-- A column without id and physical name that no exact rule binds, under its folded name. -/
def Awaits (j : ℕ) (key : String) : Prop :=
  (∀ i, ¬ClaimsExactly schema file mapping i j) ∧
    ∃ column, schema.columns[j]? = some column ∧ column.bindsByIdentity = true ∧
      upper column.name = key

/-- One field and one column with this folded name. -/
structure Alone (i j : ℕ) (key : String) : Prop where
  field : ∀ other, Contends schema file mapping other key → other = i
  column : ∀ other, Awaits schema file mapping other key → other = j

def ClaimsByFold (i j : ℕ) : Prop :=
  ∃ key, Contends schema file mapping i key ∧ Awaits schema file mapping j key ∧
    Alone schema file mapping i j key

def Claims (i j : ℕ) : Prop :=
  ClaimsExactly schema file mapping i j ∨ ClaimsByFold schema file mapping i j

/-- A folded name with both a field and a column, and several on one side. -/
def Ambiguous : Prop :=
  ∃ key i j, Contends schema file mapping i key ∧ Awaits schema file mapping j key ∧
    ¬Alone schema file mapping i j key

/-- The binding of a file of the table. -/
def boundFile : ColumnBinding :=
  bindColumns (buildLogicalArrowSchema schema.fields) file (.forLogicalSchema schema.fields mapping)

def openFile (tableRoot : String) : Except String (List Field) :=
  create tableRoot (buildLogicalArrowSchema schema.fields) file
    (.forLogicalSchema schema.fields mapping)

end Claimants

/-! ## The keys of the columns -/

section Keys

theorem collectPairs_eq {β : Type} {pairs : List (String × β)}
    (distinct : (pairs.map (·.1)).Nodup) :
    collectPairs pairs = pairs.reverse := by
  have general (map : List (String × β)) (apart : ∀ pair ∈ pairs, ∀ other ∈ map, other.1 ≠ pair.1) :
      pairs.foldl (fun map pair => pair :: map.filter (·.1 ≠ pair.1)) map =
        pairs.reverse ++ map := by
    induction pairs generalizing map with
    | nil => rfl
    | cons pair pairs ih =>
        rw [List.map_cons, List.nodup_cons] at distinct
        have kept : map.filter (·.1 ≠ pair.1) = map := by
          rw [List.filter_eq_self]
          intro other member
          simpa using apart pair (by simp) other member
        rw [List.foldl_cons, kept, ih distinct.2]
        · simp
        · intro later member other known
          rcases List.mem_cons.mp known with rfl | known
          · intro same
            exact distinct.1 (same ▸ List.mem_map_of_mem member)
          · exact apart later (List.mem_cons_of_mem _ member) other known
  rw [collectPairs, general [] (by simp), List.append_nil]

variable (schema : LogicalSchema)

/-- The physical name of a column with the name of the column, if it declares one. -/
def declaredPair (field : LogicalField) : Option (String × String) :=
  field.physicalName.map fun physical => (physical, field.name)

theorem declaredPair_eq_some {field : LogicalField} {physical logical : String} :
    declaredPair field = some (physical, logical) ↔
      field.physicalName = some physical ∧ field.name = logical := by
  cases declared : field.physicalName <;> simp [declaredPair, declared]

theorem declared_physical_nodup : ((schema.fields.filterMap declaredPair).map (·.1)).Nodup := by
  have same : (schema.fields.filterMap declaredPair).map (·.1) =
      schema.fields.filterMap (·.physicalName) := by
    rw [List.map_filterMap]
    congr 1
    funext field
    cases declared : field.physicalName <;> simp [declaredPair, declared]
  rw [same]
  exact schema.physicalNames

theorem declared_logical_nodup : ((schema.fields.filterMap declaredPair).map (·.2)).Nodup := by
  refine List.Nodup.sublist ?_ schema.names
  induction schema.fields with
  | nil => exact .slnil
  | cons field fields ih =>
      cases declared : field.physicalName with
      | none =>
          rw [List.filterMap_cons_none (by simp [declaredPair, declared])]
          exact ih.cons _
      | some physical =>
          rw [List.filterMap_cons_some (declaredPair_eq_some.mpr ⟨declared, rfl⟩)]
          exact ih.cons_cons _

/-- The declared names, found under the name of their column. -/
theorem lookup_declaredPhysicalName (mapping : List NameMappingEntry) {field : LogicalField}
    (member : field ∈ schema.fields) :
    (collectPairs
      ((FieldIdResolution.forLogicalSchema schema.fields mapping).declaredPhysicalNames.map
      fun (physical, logical) => (logical, physical))).lookup field.name = field.physicalName := by
  have collected :
    (FieldIdResolution.forLogicalSchema schema.fields mapping).declaredPhysicalNames =
      (schema.fields.filterMap declaredPair).reverse :=
    collectPairs_eq (declared_physical_nodup schema)
  have keys : (((schema.fields.filterMap declaredPair).map
      fun (physical, logical) => (logical, physical)).map (·.1)).Nodup := by
    rw [List.map_map]
    exact declared_logical_nodup schema
  rw [collected, List.map_reverse, collectPairs_eq (by rwa [List.map_reverse, List.nodup_reverse]),
    List.reverse_reverse]
  apply Option.ext
  intro physical
  rw [lookup_eq_some_iff_mem keys, List.mem_map]
  constructor
  · rintro ⟨⟨declaredName, logicalName⟩, inPairs, same⟩
    obtain ⟨other, inFields, declared⟩ := List.mem_filterMap.mp inPairs
    obtain ⟨own, name⟩ := declaredPair_eq_some.mp declared
    cases same
    rwa [List.inj_on_of_nodup_map schema.names member inFields name.symm]
  · intro own
    exact ⟨(physical, field.name),
      List.mem_filterMap.mpr ⟨field, member, declaredPair_eq_some.mpr ⟨own, rfl⟩⟩, rfl⟩

theorem bindingKeys_eq (mapping : List NameMappingEntry) :
    bindingKeys (buildLogicalArrowSchema schema.fields)
      (.forLogicalSchema schema.fields mapping) = schema.columns := by
  rw [bindingKeys, buildLogicalArrowSchema, List.map_map, LogicalSchema.columns]
  apply List.map_congr_left
  intro field member
  have id : fieldIdOf (.plain ⟨field.name, field.nullable, field.fieldId.map FieldId.toText⟩
      field.arrowType) = field.fieldId := by
    cases own : field.fieldId with
    | none => rfl
    | some id => exact id.parse_toText
  have declared := lookup_declaredPhysicalName schema mapping member
  simp only [Function.comp_apply, id]
  exact congrArg (BindingKeys.mk field.name field.fieldId) declared

theorem columns_names : schema.columns.map (·.name) = schema.fields.map (·.name) := by
  rw [LogicalSchema.columns, List.map_map]
  rfl

theorem columns_names_nodup :
    (schema.columns.filterMap fun column => some column.name).Nodup := by
  rw [List.filterMap_eq_map', columns_names]
  exact schema.names

end Keys

/-! ## Exact claims -/

section Exact

theorem claimLogical_eq (physical : PhysicalKeys) (columns : List BindingKeys) :
    claimLogical physical columns =
      Rule.order.findSome? fun rule => columns.findIdx? fun column =>
        rule.applies physical column := by
  have byId (wanted : Option FieldId) :
      (wanted.bind fun id => columns.findIdx? fun keys => keys.fieldId = some id) =
        columns.findIdx? fun keys => wanted.isSome && keys.fieldId = wanted := by
    cases wanted with
    | none => exact (List.findIdx?_eq_none_iff.mpr fun _ _ => rfl).symm
    | some id => simp
  have four (a b c d : Option ℕ) : a.orElse (fun _ => b.orElse fun _ => c.orElse fun _ => d) =
      [a, b, c, d].findSome? id := by
    cases a <;> cases b <;> cases c <;> cases d <;> rfl
  rw [claimLogical, byId, byId, four]
  rfl

/-- A rule applies to one column at most. -/
theorem applies_unique (schema : LogicalSchema) (rule : Rule) (physical : PhysicalKeys) {i j : ℕ}
    {first second : BindingKeys} (atFirst : schema.columns[i]? = some first)
    (atSecond : schema.columns[j]? = some second) (ofFirst : rule.applies physical first = true)
    (ofSecond : rule.applies physical second = true) : i = j := by
  have ids : (schema.columns.filterMap (·.fieldId)).Nodup := by
    rw [LogicalSchema.columns, List.filterMap_map]
    exact schema.ids
  have physicalNames : (schema.columns.filterMap (·.physicalName)).Nodup := by
    rw [LogicalSchema.columns, List.filterMap_map]
    exact schema.physicalNames
  have byId {wanted : Option FieldId} {column : BindingKeys}
      (applies : (wanted.isSome && decide (column.fieldId = wanted)) = true) :
      ∃ id, wanted = some id ∧ column.fieldId = some id := by
    rw [Bool.and_eq_true, Option.isSome_iff_exists, decide_eq_true_eq] at applies
    obtain ⟨⟨id, rfl⟩, same⟩ := applies
    exact ⟨id, rfl, same⟩
  cases rule with
  | embeddedId =>
      obtain ⟨id, wanted, ofFirst⟩ := byId ofFirst
      obtain ⟨other, same, ofSecond⟩ := byId ofSecond
      cases wanted.symm.trans same
      exact position_unique ids atFirst atSecond ofFirst ofSecond
  | physicalName =>
      exact position_unique physicalNames atFirst atSecond (of_decide_eq_true ofFirst)
        (of_decide_eq_true ofSecond)
  | mappedId =>
      obtain ⟨id, wanted, ofFirst⟩ := byId ofFirst
      obtain ⟨other, same, ofSecond⟩ := byId ofSecond
      cases wanted.symm.trans same
      exact position_unique ids atFirst atSecond ofFirst ofSecond
  | exactName =>
      simp only [Rule.applies, Bool.and_eq_true, decide_eq_true_eq] at ofFirst ofSecond
      exact position_unique (columns_names_nodup schema) atFirst atSecond (congrArg some ofFirst.2)
        (congrArg some ofSecond.2)

theorem findSome?_eq_some_iff (schema : LogicalSchema) (physical : PhysicalKeys) (rules : List Rule)
    {j : ℕ} :
    (rules.findSome? fun rule =>
      schema.columns.findIdx? fun column => rule.applies physical column) = some j ↔
      ∃ column, schema.columns[j]? = some column ∧
        Rule.First physical schema.columns column rules := by
  induction rules with
  | nil => simp [Rule.First]
  | cons rule rules ih =>
      have unique := @findIdx?_eq_some_iff_of_unique _ (rule.applies physical) schema.columns
        (applies_unique schema rule physical)
      rw [List.findSome?_cons]
      cases found : schema.columns.findIdx? fun column => rule.applies physical column with
      | some position =>
          obtain ⟨column, here, holds⟩ := unique.mp found
          constructor
          · intro same
            cases same
            exact ⟨column, here, .inl holds⟩
          · rintro ⟨other, there, applies | ⟨none, -⟩⟩
            · rw [applies_unique schema rule physical here there holds applies]
            · rw [none column (List.mem_of_getElem? here)] at holds
              cases holds
      | none =>
          rw [List.findIdx?_eq_none_iff] at found
          simp only [ih, Rule.First]
          constructor
          · rintro ⟨column, here, first⟩
            exact ⟨column, here, .inr ⟨found, first⟩⟩
          · rintro ⟨column, here, applies | ⟨-, first⟩⟩
            · rw [found column (List.mem_of_getElem? here)] at applies
              cases applies
            · exact ⟨column, here, first⟩

variable (schema : LogicalSchema) (file : List Field) (mapping : List NameMappingEntry)

/-- The claims that a file makes by the exact rules. -/
def fileClaims : List (Option ℕ) :=
  file.map fun field => claimLogical (physicalKeys file mapping field) schema.columns

theorem exactClaims_eq : exactClaims schema.columns (mappingByPhysicalName
    (appliedMapping file (.forLogicalSchema schema.fields mapping))) file =
      fileClaims schema file mapping := by
  unfold exactClaims fileClaims physicalKeys appliedMapping
  by_cases carries : carriesFieldIds file = true
  · simp [carries, mappingByPhysicalName, collectPairs]
  · simp [carries, FieldIdResolution.forLogicalSchema]

variable {schema file mapping} {i j : ℕ}

theorem fileClaims_eq_some :
    (fileClaims schema file mapping)[i]? = some (some j) ↔
      ClaimsExactly schema file mapping i j := by
  rw [fileClaims, List.getElem?_map, Option.map_eq_some_iff]
  constructor
  · rintro ⟨field, here, claims⟩
    rw [claimLogical_eq, findSome?_eq_some_iff] at claims
    obtain ⟨column, there, first⟩ := claims
    exact ⟨field, column, here, there, first⟩
  · rintro ⟨field, column, here, there, first⟩
    refine ⟨field, here, ?_⟩
    rw [claimLogical_eq, findSome?_eq_some_iff]
    exact ⟨column, there, first⟩

theorem fileClaims_eq_none :
    (fileClaims schema file mapping)[i]? = some none ↔
      i < file.length ∧ ∀ j, ¬ClaimsExactly schema file mapping i j := by
  have length : (fileClaims schema file mapping).length = file.length := List.length_map _
  constructor
  · intro none
    refine ⟨length ▸ (List.getElem?_eq_some_iff.mp none).1, ?_⟩
    intro j claims
    rw [fileClaims_eq_some.mpr claims] at none
    cases none
  · rintro ⟨inRange, none⟩
    cases found : (fileClaims schema file mapping)[i]? with
    | none =>
        rw [List.getElem?_eq_none_iff] at found
        omega
    | some claimed =>
        cases claimed with
        | none => rfl
        | some j => exact absurd (fileClaims_eq_some.mp found) (none j)

theorem mem_fileClaims : some j ∈ fileClaims schema file mapping ↔
    ∃ i, ClaimsExactly schema file mapping i j := by
  rw [List.mem_iff_getElem?]
  exact exists_congr fun i => fileClaims_eq_some

end Exact

/-! ## Folded claims -/

section Settle

variable {names : List String} {columns : List BindingKeys}
  {settled : List (Option ℕ) × List AmbiguousFold} {group : List ℕ × List ℕ}

theorem settleGroup_cases (names : List String) (columns : List BindingKeys)
    (settled : List (Option ℕ) × List AmbiguousFold) (group : List ℕ × List ℕ) :
    (∃ field column, group = ([field], [column]) ∧ settleGroup names columns settled group =
      (settled.1.set field (some column), settled.2)) ∨
    ((group.1 = [] ∨ group.2 = []) ∧ settleGroup names columns settled group = settled) ∨
    (group.1 ≠ [] ∧ group.2 ≠ [] ∧ (∀ field column, group ≠ ([field], [column])) ∧
      ∃ fold, settleGroup names columns settled group = (settled.1, settled.2 ++ [fold])) := by
  unfold settleGroup
  split
  · exact .inr (.inl ⟨.inl rfl, rfl⟩)
  · exact .inr (.inl ⟨.inr rfl, rfl⟩)
  case h_3 field column => exact .inl ⟨field, column, rfl, rfl⟩
  case h_4 fields others noField noColumn notSingle =>
    refine .inr (.inr ⟨?_, ?_, ?_, _, rfl⟩)
    · rintro rfl
      exact noField rfl
    · rintro rfl
      exact noColumn rfl
    · rintro field column same
      cases same
      exact notSingle field column rfl rfl

theorem settled_length (groups : List (List ℕ × List ℕ)) :
    (groups.foldl (settleGroup names columns) settled).1.length = settled.1.length := by
  induction groups generalizing settled with
  | nil => rfl
  | cons group groups ih =>
      rw [List.foldl_cons, ih]
      obtain ⟨field, column, -, step⟩ | ⟨-, step⟩ | ⟨-, -, -, fold, step⟩ :=
        settleGroup_cases names columns settled group
      · rw [step, List.length_set]
      · rw [step]
      · rw [step]

theorem settled_claims {groups : List (List ℕ × List ℕ)}
    (unique : ∀ field first second, ([field], [first]) ∈ groups → ([field], [second]) ∈ groups →
      first = second) {i j : ℕ} :
    (groups.foldl (settleGroup names columns) settled).1[i]? = some (some j) ↔
      i < settled.1.length ∧ ([i], [j]) ∈ groups ∨
        (∀ column, ([i], [column]) ∉ groups) ∧ settled.1[i]? = some (some j) := by
  induction groups generalizing settled with
  | nil => simp
  | cons group groups ih =>
      have later := @ih (settleGroup names columns settled group)
        fun field first second inFirst inSecond =>
          unique field first second (List.mem_cons_of_mem _ inFirst)
            (List.mem_cons_of_mem _ inSecond)
      rw [List.foldl_cons, later]
      -- a group that does not bind `i` changes nothing about it
      have skipped (other : ∀ column, group ≠ ([i], [column]))
          (same : (settleGroup names columns settled group).1[i]? = settled.1[i]?)
          (length : (settleGroup names columns settled group).1.length = settled.1.length) :
          i < (settleGroup names columns settled group).1.length ∧ ([i], [j]) ∈ groups ∨
            (∀ column, ([i], [column]) ∉ groups) ∧
              (settleGroup names columns settled group).1[i]? = some (some j) ↔
          i < settled.1.length ∧ ([i], [j]) ∈ group :: groups ∨
            (∀ column, ([i], [column]) ∉ group :: groups) ∧ settled.1[i]? = some (some j) := by
        simp [same, length, fun column => Ne.symm (other column)]
      obtain ⟨field, column, rfl, step⟩ | ⟨empty, step⟩ | ⟨-, -, notSingle, fold, step⟩ :=
        settleGroup_cases names columns settled group
      · by_cases here : field = i
        · subst here
          rw [step, List.length_set, List.getElem?_set_self']
          constructor
          · rintro (⟨inRange, member⟩ | ⟨-, bound⟩)
            · exact .inl ⟨inRange, List.mem_cons_of_mem _ member⟩
            · obtain ⟨claimed, before, same⟩ := Option.map_eq_some_iff.mp bound
              cases same
              exact .inl ⟨(List.getElem?_eq_some_iff.mp before).1, List.mem_cons_self⟩
          · rintro (⟨inRange, member⟩ | ⟨absent, -⟩)
            · have same : j = column := unique field j column member List.mem_cons_self
              subst same
              by_cases again : ∃ other, ([field], [other]) ∈ groups
              · obtain ⟨other, again⟩ := again
                have equal := unique field j other member (List.mem_cons_of_mem _ again)
                exact .inl ⟨inRange, equal ▸ again⟩
              · refine .inr ⟨fun other member => again ⟨other, member⟩, ?_⟩
                rw [List.getElem?_eq_getElem inRange]
                rfl
            · exact absurd List.mem_cons_self (absent column)
        · refine skipped (fun other same => here ?_) ?_ ?_
          · cases same
            rfl
          · rw [step, List.getElem?_set_ne here]
          · rw [step, List.length_set]
      · refine skipped (fun other same => ?_) (by rw [step]) (by rw [step])
        subst same
        simp at empty
      · exact skipped (notSingle i) (by rw [step]) (by rw [step])

/-- The groups are settled without ambiguity if each has one field and one column, or one side
only. -/
theorem settled_ambiguous {groups : List (List ℕ × List ℕ)} :
    (groups.foldl (settleGroup names columns) settled).2 = [] ↔ settled.2 = [] ∧
      ∀ group ∈ groups, group.1 = [] ∨ group.2 = [] ∨
        ∃ field column, group = ([field], [column]) := by
  induction groups generalizing settled with
  | nil => simp
  | cons group groups ih =>
      rw [List.foldl_cons, ih, List.forall_mem_cons]
      obtain ⟨field, column, rfl, step⟩ | ⟨empty, step⟩ | ⟨fields, others, notSingle, fold, step⟩ :=
        settleGroup_cases names columns settled group
      · simp [step]
      · rw [step]
        have fine : group.1 = [] ∨ group.2 = [] ∨ ∃ field column, group = ([field], [column]) := by
          rcases empty with empty | empty
          · exact .inl empty
          · exact .inr (.inl empty)
        simp only [fine, true_and]
      · simp [step, fields, others, notSingle]

end Settle

section Groups

variable {physical logical side : List (String × ℕ)} {key : String} {i j : ℕ}

theorem mem_indicesUnder : i ∈ indicesUnder side key ↔ (key, i) ∈ side := by
  rw [indicesUnder, List.mem_map]
  constructor
  · rintro ⟨⟨other, index⟩, member, rfl⟩
    obtain ⟨inSide, same⟩ := List.mem_filter.mp member
    cases of_decide_eq_true same
    exact inSide
  · intro member
    exact ⟨(key, i), List.mem_filter.mpr ⟨member, by simp⟩, rfl⟩

/-- The one index under a key. -/
theorem indicesUnder_eq_singleton (distinct : (side.map (·.2)).Nodup) :
    indicesUnder side key = [i] ↔ (key, i) ∈ side ∧ ∀ other, (key, other) ∈ side → other = i := by
  constructor
  · intro single
    refine ⟨mem_indicesUnder.mp (by simp [single]), ?_⟩
    intro other member
    rw [← mem_indicesUnder, single] at member
    exact List.mem_singleton.mp member
  · rintro ⟨member, only⟩
    apply eq_singleton_of_nodup
    · exact distinct.sublist (List.filter_sublist.map _)
    · exact mem_indicesUnder.mpr member
    · intro other known
      exact only other (mem_indicesUnder.mp known)

theorem mem_foldGroups {group : List ℕ × List ℕ} : group ∈ foldGroups physical logical ↔
    ∃ key, (∃ index, (key, index) ∈ physical ∨ (key, index) ∈ logical) ∧
      (indicesUnder physical key, indicesUnder logical key) = group := by
  rw [foldGroups, List.mem_map]
  apply exists_congr
  intro key
  rw [List.mem_insertionSort, List.mem_dedup, List.mem_map]
  apply and_congr_left
  intro _
  constructor
  · rintro ⟨⟨other, index⟩, member, rfl⟩
    exact ⟨index, List.mem_append.mp member⟩
  · rintro ⟨index, member⟩
    exact ⟨(key, index), List.mem_append.mpr member, rfl⟩

variable (fields : (physical.map (·.2)).Nodup) (columns : (logical.map (·.2)).Nodup)

include fields columns

theorem single_mem_foldGroups : ([i], [j]) ∈ foldGroups physical logical ↔
    ∃ key, ((key, i) ∈ physical ∧ (key, j) ∈ logical) ∧
      (∀ other, (key, other) ∈ physical → other = i) ∧
      ∀ other, (key, other) ∈ logical → other = j := by
  rw [mem_foldGroups]
  apply exists_congr
  intro key
  rw [Prod.mk.injEq, indicesUnder_eq_singleton fields, indicesUnder_eq_singleton columns]
  constructor
  · rintro ⟨-, ⟨inFields, onlyField⟩, inColumns, onlyColumn⟩
    exact ⟨⟨inFields, inColumns⟩, onlyField, onlyColumn⟩
  · rintro ⟨⟨inFields, inColumns⟩, onlyField, onlyColumn⟩
    exact ⟨⟨i, .inl inFields⟩, ⟨inFields, onlyField⟩, inColumns, onlyColumn⟩

theorem foldGroups_settle : (∀ group ∈ foldGroups physical logical,
    group.1 = [] ∨ group.2 = [] ∨ ∃ field column, group = ([field], [column])) ↔
      ∀ key i j, (key, i) ∈ physical → (key, j) ∈ logical →
        (∀ other, (key, other) ∈ physical → other = i) ∧
        ∀ other, (key, other) ∈ logical → other = j := by
  constructor
  · intro settle key i j inFields inColumns
    have member : (indicesUnder physical key, indicesUnder logical key) ∈
        foldGroups physical logical := mem_foldGroups.mpr ⟨key, ⟨i, .inl inFields⟩, rfl⟩
    obtain empty | empty | ⟨field, column, single⟩ := settle _ member
    · simp only at empty
      rw [← mem_indicesUnder, empty] at inFields
      cases inFields
    · simp only at empty
      rw [← mem_indicesUnder, empty] at inColumns
      cases inColumns
    · rw [Prod.mk.injEq, indicesUnder_eq_singleton fields,
        indicesUnder_eq_singleton columns] at single
      obtain ⟨⟨-, onlyField⟩, -, onlyColumn⟩ := single
      cases onlyField i inFields
      cases onlyColumn j inColumns
      exact ⟨onlyField, onlyColumn⟩
  · intro settle group member
    obtain ⟨key, -, rfl⟩ := mem_foldGroups.mp member
    cases fieldsHere : indicesUnder physical key with
    | nil => exact .inl rfl
    | cons i others =>
        cases columnsHere : indicesUnder logical key with
        | nil => exact .inr (.inl rfl)
        | cons j rest =>
            have inFields : (key, i) ∈ physical := mem_indicesUnder.mp (by simp [fieldsHere])
            have inColumns : (key, j) ∈ logical := mem_indicesUnder.mp (by simp [columnsHere])
            obtain ⟨onlyField, onlyColumn⟩ := settle key i j inFields inColumns
            rw [← fieldsHere, ← columnsHere,
              (indicesUnder_eq_singleton fields).mpr ⟨inFields, onlyField⟩,
              (indicesUnder_eq_singleton columns).mpr ⟨inColumns, onlyColumn⟩]
            exact .inr (.inr ⟨i, j, rfl⟩)

end Groups

theorem filtered_positions_nodup {α : Type} (items : List α) (condition : α × ℕ → Bool) :
    ((items.zipIdx.filter condition).map (·.2)).Nodup := by
  have positions : (items.zipIdx.map (·.2)).Nodup := by
    rw [List.zipIdx_map_snd]
    exact List.nodup_range'
  exact positions.sublist (List.filter_sublist.map _)

section Fold

variable [Unicode] {schema : LogicalSchema} {file : List Field} {mapping : List NameMappingEntry}
  {i j : ℕ} {key : String}

theorem mem_unclaimedFields : (key, i) ∈ unclaimedFields (file.map (·.name))
    (fileClaims schema file mapping) ↔ Contends schema file mapping i key := by
  rw [unclaimedFields, List.mem_map]
  constructor
  · rintro ⟨⟨name, index⟩, member, same⟩
    cases same
    obtain ⟨here, unclaimed⟩ := List.mem_filter.mp member
    rw [List.mk_mem_zipIdx_iff_getElem?, List.getElem?_map, Option.map_eq_some_iff] at here
    obtain ⟨field, here, rfl⟩ := here
    exact ⟨(fileClaims_eq_none.mp (of_decide_eq_true unclaimed)).2, field, here, rfl⟩
  · rintro ⟨unclaimed, field, here, rfl⟩
    refine ⟨(field.name, i), List.mem_filter.mpr ⟨?_, ?_⟩, rfl⟩
    · rw [List.mk_mem_zipIdx_iff_getElem?, List.getElem?_map, here]
      rfl
    · exact decide_eq_true
        (fileClaims_eq_none.mpr ⟨(List.getElem?_eq_some_iff.mp here).1, unclaimed⟩)

theorem mem_unclaimedColumns : (key, j) ∈ unclaimedColumns schema.columns
    (fileClaims schema file mapping) ↔ Awaits schema file mapping j key := by
  have absent : (!(fileClaims schema file mapping).contains (some j)) = true ↔
      ∀ i, ¬ClaimsExactly schema file mapping i j := by
    rw [Bool.not_eq_true', ← Bool.not_eq_true, List.contains_iff_mem, mem_fileClaims, not_exists]
  rw [unclaimedColumns, List.mem_map]
  constructor
  · rintro ⟨⟨column, index⟩, member, same⟩
    cases same
    obtain ⟨here, unclaimed⟩ := List.mem_filter.mp member
    rw [List.mk_mem_zipIdx_iff_getElem?] at here
    obtain ⟨identity, unclaimed⟩ := Bool.and_eq_true_iff.mp unclaimed
    exact ⟨absent.mp unclaimed, column, here, identity, rfl⟩
  · rintro ⟨unclaimed, column, here, identity, rfl⟩
    refine ⟨(column, j), List.mem_filter.mpr ⟨List.mk_mem_zipIdx_iff_getElem?.mpr here, ?_⟩, rfl⟩
    exact Bool.and_eq_true_iff.mpr ⟨identity, absent.mpr unclaimed⟩

theorem unclaimedFields_nodup (names : List String) (exact : List (Option ℕ)) :
    ((unclaimedFields names exact).map (·.2)).Nodup := by
  rw [unclaimedFields, List.map_map]
  exact filtered_positions_nodup names _

theorem unclaimedColumns_nodup (columns : List BindingKeys) (exact : List (Option ℕ)) :
    ((unclaimedColumns columns exact).map (·.2)).Nodup := by
  rw [unclaimedColumns, List.map_map]
  exact filtered_positions_nodup columns _

/-- Without an unclaimed field, or without an identity column, there is nothing to fold. -/
theorem not_contends_or_not_awaits (skips : ((fileClaims schema file mapping).all (·.isSome) ||
      !schema.columns.any (·.bindsByIdentity)) = true)
    (contends : Contends schema file mapping i key) (awaits : Awaits schema file mapping j key) :
    False := by
  rcases (Bool.or_eq_true _ _).mp skips with all | none
  · obtain ⟨unclaimed, field, here, -⟩ := contends
    have absent := fileClaims_eq_none.mpr ⟨(List.getElem?_eq_some_iff.mp here).1, unclaimed⟩
    have present := List.all_eq_true.mp all none (List.mem_of_getElem? absent)
    cases present
  · obtain ⟨-, column, here, identity, -⟩ := awaits
    have present : schema.columns.any (·.bindsByIdentity) = true :=
      List.any_eq_true.mpr ⟨column, List.mem_of_getElem? here, identity⟩
    rw [present] at none
    cases none

/-- The claims after the fold are those of the rules. -/
theorem claimByCaseFold_claims :
    (claimByCaseFold (file.map (·.name)) schema.columns (fileClaims schema file mapping)).1[i]? =
      some (some j) ↔ Claims schema file mapping i j := by
  unfold claimByCaseFold Claims
  split
  case isTrue skips =>
    rw [fileClaims_eq_some]
    refine ⟨.inl, ?_⟩
    rintro (exactly | ⟨key, contends, awaits, -⟩)
    · exact exactly
    · exact (not_contends_or_not_awaits skips contends awaits).elim
  case isFalse =>
    have single (field column : ℕ) : ([field], [column]) ∈ foldGroups
        (unclaimedFields (file.map (·.name)) (fileClaims schema file mapping))
        (unclaimedColumns schema.columns (fileClaims schema file mapping)) ↔
          ClaimsByFold schema file mapping field column := by
      rw [single_mem_foldGroups (unclaimedFields_nodup _ _) (unclaimedColumns_nodup _ _)]
      simp only [mem_unclaimedFields, mem_unclaimedColumns]
      constructor
      · rintro ⟨key, ⟨contends, awaits⟩, onlyField, onlyColumn⟩
        exact ⟨key, contends, awaits, onlyField, onlyColumn⟩
      · rintro ⟨key, contends, awaits, onlyField, onlyColumn⟩
        exact ⟨key, ⟨contends, awaits⟩, onlyField, onlyColumn⟩
    rw [settled_claims]
    · simp only [single, fileClaims_eq_some]
      constructor
      · rintro (⟨-, folds⟩ | ⟨-, exactly⟩)
        · exact .inr folds
        · exact .inl exactly
      · rintro (exactly | folds)
        · refine .inr ⟨?_, exactly⟩
          rintro column ⟨key, ⟨unclaimed, -⟩, -⟩
          exact unclaimed j exactly
        · refine .inl ⟨?_, folds⟩
          obtain ⟨key, ⟨-, field, here, -⟩, -⟩ := folds
          rw [fileClaims, List.length_map]
          exact (List.getElem?_eq_some_iff.mp here).1
    · intro field first second ofFirst ofSecond
      obtain ⟨key, ⟨-, own, here, rfl⟩, awaits, -⟩ := (single field first).mp ofFirst
      obtain ⟨other, ⟨-, same, there, rfl⟩, -, -, onlyColumn⟩ := (single field second).mp ofSecond
      rw [here] at there
      cases there
      exact onlyColumn first awaits

theorem claimByCaseFold_ambiguous :
    (claimByCaseFold (file.map (·.name)) schema.columns (fileClaims schema file mapping)).2 = [] ↔
      ¬Ambiguous schema file mapping := by
  unfold claimByCaseFold
  split
  case isTrue skips =>
    refine ⟨fun _ => ?_, fun _ => rfl⟩
    rintro ⟨key, i, j, contends, awaits, -⟩
    exact not_contends_or_not_awaits skips contends awaits
  case isFalse =>
    rw [settled_ambiguous,
      foldGroups_settle (unclaimedFields_nodup _ _) (unclaimedColumns_nodup _ _)]
    simp only [mem_unclaimedFields, mem_unclaimedColumns, true_and]
    constructor
    · rintro settle ⟨key, i, j, contends, awaits, several⟩
      obtain ⟨onlyField, onlyColumn⟩ := settle key i j contends awaits
      exact several ⟨onlyField, onlyColumn⟩
    · intro unambiguous key i j contends awaits
      by_contra several
      exact unambiguous ⟨key, i, j, contends, awaits, fun alone =>
        several ⟨alone.field, alone.column⟩⟩

theorem length_claimByCaseFold :
    (claimByCaseFold (file.map (·.name)) schema.columns (fileClaims schema file mapping)).1.length =
      file.length := by
  have length : (fileClaims schema file mapping).length = file.length := List.length_map _
  unfold claimByCaseFold
  split
  · exact length
  · rw [settled_length]
    exact length

end Fold

/-! ## The renamed schema -/

section Renamed

variable {schema : LogicalSchema} {file : List Field} {mapping : List NameMappingEntry} {i j : ℕ}

theorem renamed_claimed {column : BindingKeys} (there : schema.columns[j]? = some column)
    (field : Field) : (renamed schema.columns field (some j)).name = column.name := by
  simp only [renamed, Option.bind_some, there]
  split_ifs with same
  · exact same.symm
  · exact field.name_withName column.name

theorem renamed_unclaimed (field : Field) : (renamed schema.columns field none).name =
    if field.name ∈ schema.fields.map (·.name) then unboundPrefix ++
      field.name else field.name := by
  have listed : schema.columns.any (·.name = field.name) = true ↔
      field.name ∈ schema.fields.map (·.name) := by
    rw [← columns_names, List.any_eq_true, List.mem_map]
    simp
  simp only [renamed, Option.bind_none, listed]
  split_ifs
  · exact field.name_withName _
  · rfl

variable [Unicode]

/-- An unclaimed field whose name, moved out of the way, is the name of another column. -/
def Misnamed (schema : LogicalSchema) (file : List Field) (mapping : List NameMappingEntry)
    (i j : ℕ) : Prop :=
  (∀ column, ¬Claims schema file mapping i column) ∧ ∃ field column, file[i]? = some field ∧
    schema.columns[j]? = some column ∧ field.name ∈ schema.fields.map (·.name) ∧
      unboundPrefix ++ field.name = column.name

theorem boundFile_eq : (boundFile schema file mapping).renamedPhysical =
    (file.zip (claimByCaseFold (file.map (·.name)) schema.columns
      (fileClaims schema file mapping)).1).map fun (field, claimed) =>
        renamed schema.columns field claimed := by
  unfold boundFile bindColumns
  simp only [bindingKeys_eq, exactClaims_eq]

theorem boundFile_ambiguous : (boundFile schema file mapping).ambiguousFolds = [] ↔
    ¬Ambiguous schema file mapping := by
  rw [← claimByCaseFold_ambiguous]
  unfold boundFile bindColumns
  simp only [bindingKeys_eq, exactClaims_eq]

/-- A field carries the name of a column if it claims the column, or is moved onto its name. -/
theorem carries_name {field : Field} (here : (boundFile schema file mapping).renamedPhysical[i]? =
    some field) {column : BindingKeys} (there : schema.columns[j]? = some column) :
    field.name = column.name ↔ Claims schema file mapping i j ∨
      Misnamed schema file mapping i j := by
  rw [boundFile_eq, List.getElem?_map, Option.map_eq_some_iff] at here
  obtain ⟨⟨own, claimed⟩, paired, rfl⟩ := here
  obtain ⟨own_eq, claimed_eq⟩ := List.getElem?_zip_eq_some.mp paired
  have claims (k : ℕ) : claimed = some k ↔ Claims schema file mapping i k := by
    rw [← claimByCaseFold_claims, claimed_eq, Option.some.injEq]
  cases claimed with
  | none =>
      have unclaimed : ∀ k, ¬Claims schema file mapping i k := by
        intro k claimed
        cases (claims k).mpr claimed
      rw [renamed_unclaimed]
      constructor
      · intro same
        have listed : column.name ∈ schema.fields.map (·.name) := by
          rw [← columns_names]
          exact List.mem_map_of_mem (List.mem_of_getElem? there)
        split_ifs at same with own_listed
        · exact .inr ⟨unclaimed, own, column, own_eq, there, own_listed, same⟩
        · exact absurd (same ▸ listed) own_listed
      · rintro (claimed | ⟨-, other, target, other_eq, target_eq, listed, same⟩)
        · exact absurd claimed (unclaimed j)
        · rw [own_eq] at other_eq
          rw [there] at target_eq
          cases other_eq
          cases target_eq
          rw [if_pos listed]
          exact same
  | some k =>
      have own_claim : Claims schema file mapping i k := (claims k).mp rfl
      have notMisnamed : ¬Misnamed schema file mapping i j := fun misnamed => misnamed.1 k own_claim
      obtain ⟨target, target_eq⟩ : ∃ target, schema.columns[k]? = some target := by
        rcases own_claim with ⟨-, target, -, target_eq, -⟩ | ⟨-, -, ⟨-, target, target_eq, -⟩, -⟩
        · exact ⟨target, target_eq⟩
        · exact ⟨target, target_eq⟩
      rw [renamed_claimed target_eq, or_iff_left notMisnamed, ← claims j, Option.some.injEq]
      constructor
      · intro same
        exact position_unique (columns_names_nodup schema) target_eq there rfl
          (congrArg some same.symm)
      · rintro rfl
        rw [target_eq] at there
        cases there
        rfl

theorem length_renamedPhysical :
    (boundFile schema file mapping).renamedPhysical.length = file.length := by
  rw [boundFile_eq, List.length_map, List.length_zip, length_claimByCaseFold, Nat.min_self]

theorem exists_renamed (inRange : i < file.length) :
    ∃ field, (boundFile schema file mapping).renamedPhysical[i]? = some field :=
  ⟨_, List.getElem?_eq_getElem (length_renamedPhysical.symm ▸ inRange)⟩

/-- Two fields that claim one column claim it by exact rules. -/
theorem claims_injective (exactly : ∀ i other j, ClaimsExactly schema file mapping i j →
    ClaimsExactly schema file mapping other j → i = other) {other : ℕ}
    (claims : Claims schema file mapping i j) (claimsToo : Claims schema file mapping other j) :
    i = other := by
  rcases claims with claims | ⟨key, contends, ⟨unclaimed, column, there, -, rfl⟩, -⟩
  · rcases claimsToo with claimsToo | ⟨-, -, ⟨unclaimed, -⟩, -⟩
    · exact exactly i other j claims claimsToo
    · exact absurd claims (unclaimed i)
  · rcases claimsToo with claimsToo | ⟨key, -, ⟨-, same, here, -, rfl⟩, alone⟩
    · exact absurd claimsToo (unclaimed other)
    · rw [there] at here
      cases here
      exact alone.field i contends

/-- What is asked of the binding of a file. -/
structure BoundByFirstRule (schema : LogicalSchema) (file : List Field)
    (mapping : List NameMappingEntry) (tableRoot : String) : Prop where
  carried : ∀ (i j : ℕ) (field : Field) (column : BindingKeys),
    (boundFile schema file mapping).renamedPhysical[i]? = some field →
    schema.columns[j]? = some column →
    (field.name = column.name ↔ Claims schema file mapping i j)
  unmapped : carriesFieldIds file = true →
    boundFile schema file mapping = boundFile schema file []
  ambiguous : Ambiguous schema file mapping → ∃ error, openFile schema file mapping tableRoot =
    .error error
  read : ∀ physical, openFile schema file mapping tableRoot = .ok physical →
    physical.map (·.name) = (boundFile schema file mapping).renamedPhysical.map (·.name)
  single : ∀ (i other : ℕ) (field second : Field) (j : ℕ) (column : BindingKeys),
    (boundFile schema file mapping).renamedPhysical[i]? = some field →
    (boundFile schema file mapping).renamedPhysical[other]? = some second →
    schema.columns[j]? = some column → field.name = column.name →
      second.name = column.name → i = other

theorem boundFile_of_ids (carries : carriesFieldIds file = true) :
    boundFile schema file mapping = boundFile schema file [] := by
  unfold boundFile bindColumns
  simp only [bindingKeys_eq, appliedMapping, carries, if_true]
  rfl

theorem openFile_of_ambiguous (tableRoot : String) (ambiguous : Ambiguous schema file mapping) :
    ∃ error, openFile schema file mapping tableRoot = .error error := by
  have folds : (boundFile schema file mapping).ambiguousFolds ≠ [] := by
    rw [Ne, boundFile_ambiguous, not_not]
    exact ambiguous
  obtain ⟨error, refused⟩ : ∃ error,
      (boundFile schema file mapping).ensureUnambiguous tableRoot = .error error := by
    unfold ColumnBinding.ensureUnambiguous
    split
    case h_1 none => exact absurd none folds
    · exact ⟨_, rfl⟩
  refine ⟨error, ?_⟩
  change (boundFile schema file mapping).ensureUnambiguous tableRoot >>= _ = _
  rw [refused]
  rfl

theorem openFile_names {tableRoot : String} {physical : List Field}
    (opened : openFile schema file mapping tableRoot = .ok physical) :
    physical.map (·.name) = (boundFile schema file mapping).renamedPhysical.map (·.name) := by
  obtain ⟨⟨⟩, -, result⟩ := exists_of_bind_ok opened
  cases result
  have kept : (boundFile schema file mapping).renamedPhysical.map (·.name) =
      (boundFile schema file mapping).renamedPhysical.zipIdx.map (·.1.name) := by
    rw [← List.zipIdx_map_fst 0 (boundFile schema file mapping).renamedPhysical, List.map_map,
      List.zipIdx_map_fst]
    rfl
  rw [kept, ColumnBinding.delegatePhysicalSchema, List.map_map]
  apply List.map_congr_left
  rintro ⟨field, index⟩ -
  simp only [Function.comp_apply]
  split
  · exact field.name_withDataType _
  · rfl

/-- A file is bound by the first rule that applies exactly when no two of its fields claim one
column by an exact rule, and no unclaimed field is moved onto the name of a column. -/
theorem bound_iff_claims_apart (schema : LogicalSchema) (file : List Field)
    (mapping : List NameMappingEntry) (tableRoot : String) :
    BoundByFirstRule schema file mapping tableRoot ↔
      (∀ i other j, ClaimsExactly schema file mapping i j →
        ClaimsExactly schema file mapping other j → i = other) ∧
      ∀ i j, ¬Misnamed schema file mapping i j := by
  constructor
  · intro bound
    have position {i j : ℕ} (claims : ClaimsExactly schema file mapping i j) :
        ∃ field column, (boundFile schema file mapping).renamedPhysical[i]? = some field ∧
          schema.columns[j]? = some column ∧ field.name = column.name := by
      obtain ⟨own, column, here, there, -⟩ := id claims
      obtain ⟨field, moved⟩ := exists_renamed (List.getElem?_eq_some_iff.mp here).1
      exact ⟨field, column, moved, there, (bound.carried i j field column moved there).mpr
        (.inl claims)⟩
    constructor
    · intro i other j claims claimsToo
      obtain ⟨field, column, moved, there, same⟩ := position claims
      obtain ⟨second, target, movedToo, thereToo, sameToo⟩ := position claimsToo
      rw [there] at thereToo
      cases thereToo
      exact bound.single i other field second j column moved movedToo there same sameToo
    · intro i j misnamed
      obtain ⟨unclaimed, own, column, here, there, -⟩ := id misnamed
      obtain ⟨field, moved⟩ := exists_renamed (List.getElem?_eq_some_iff.mp here).1
      have same := (carries_name moved there).mpr (.inr misnamed)
      exact unclaimed j ((bound.carried i j field column moved there).mp same)
  · rintro ⟨exactly, named⟩
    have carried {i j : ℕ} {field : Field} {column : BindingKeys}
        (moved : (boundFile schema file mapping).renamedPhysical[i]? = some field)
        (there : schema.columns[j]? = some column) :
        field.name = column.name ↔ Claims schema file mapping i j := by
      rw [carries_name moved there, or_iff_left (named i j)]
    refine ⟨fun i j field column => carried, boundFile_of_ids, openFile_of_ambiguous tableRoot,
      fun physical => openFile_names, ?_⟩
    intro i other field second j column moved movedToo there same sameToo
    exact claims_injective exactly ((carried moved there).mp same)
      ((carried movedToo there).mp sameToo)

end Renamed

/-- Two names of one mapping entry, both in the file, are both renamed to its column. -/
theorem mapped_names_share_column :
    let schema : LogicalSchema :=
      ⟨[⟨"x", some ⟨1, by decide⟩, .utf8, true, none, none⟩], by decide, by decide, by decide⟩
    let file : List Field := [.plain ⟨"a", true, none⟩ .utf8, .plain ⟨"b", true, none⟩ .utf8]
    let mapping : List NameMappingEntry := [.mk ["a", "b"] ⟨1, by decide⟩ []]
    letI : Unicode := .ascii
    (boundFile schema file mapping).renamedPhysical.map (·.name) = ["x", "x"] ∧
      ¬BoundByFirstRule schema file mapping "" := by
  intro schema file mapping
  let : Unicode := .ascii
  have names : (boundFile schema file mapping).renamedPhysical.map (·.name) = ["x", "x"] := by
    decide +kernel
  refine ⟨names, ?_⟩
  intro bound
  have named (i : ℕ) (inRange : ["x", "x"][i]? = some "x") : ∃ field,
      (boundFile schema file mapping).renamedPhysical[i]? = some field ∧ field.name = "x" := by
    rw [← names, List.getElem?_map, Option.map_eq_some_iff] at inRange
    exact inRange
  obtain ⟨first, atFirst, firstName⟩ := named 0 rfl
  obtain ⟨second, atSecond, secondName⟩ := named 1 rfl
  cases bound.single 0 1 first second 0 _ atFirst atSecond rfl firstName secondName

end FieldIdProjection

end LakehouseEngine
