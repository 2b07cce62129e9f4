import LakehouseEngine.Scan.BinaryHex
import LakehouseEngine.Scan.NestedResolution
import LakehouseEngine.Text.Url
import LakehouseEngine.Types.Mapping

/-!
# Map keys as JSON object names

A nested column is rendered as JSON text.  An object name is a string while a map key may be of
any type, so the keys of every map are replaced by their texts before the encoder runs: bytes
by their hexadecimal text, a nested key by its own JSON document, the rest by the library's cast.
-/

namespace LakehouseEngine.JsonRender

open FieldIdProjection

/-! ## What the library does -/

/-- Arrow's constructors, cast to text and JSON encoder, with their messages.  The cast and the
encoder may refuse an array; of one they accept, the texts and the documents are those of its
values, one by one. -/
structure JsonLibrary extends ArrowLibrary Value where
  display : Field → String
  canCastToUtf8 : ArrowType → Bool
  castText : ArrowType → Value → String
  cast : ArrowType → List (Option Value) → Except String (List (Option String))
  cast_eq : ∀ type values texts, cast type values = .ok texts →
    texts = values.map (Option.map (castText type))
  document : Field → RowValue Value → List UInt8
  makeEncoder : Field → ArrowArray Value → Except String (ℕ → List UInt8)
  encode_eq : ∀ field array encode, makeEncoder field array = .ok encode →
    ∀ row < array.length, array.isNull row = false →
      encode row = document field (array.valueAt row)
  utf8Error : List UInt8 → String

variable (library : JsonLibrary)

/-! ## The source's functions -/

def isTextField : Field → Bool
  | .plain _ type => type.isText
  | _ => false

mutual

def mapKeysNeedStringifying : Field → Bool
  | .plain _ _ => false
  | .struct _ fields => anyKeysNeedStringifying fields
  | .list _ _ element => mapKeysNeedStringifying element
  | .map _ (.struct _ [key, value]) _ => !isTextField key || mapKeysNeedStringifying value
  | .map _ _ _ => false

def anyKeysNeedStringifying : List Field → Bool
  | [] => false
  | field :: fields => mapKeysNeedStringifying field || anyKeysNeedStringifying fields

end

def retyped (field : Field) (array : ArrowArray Value) : Field := field.withDataType array.dataType

def textArray (texts : List (Option String)) : ArrowArray Value :=
  .plain .utf8 (texts.map (Option.map .text))

/-- `binary_values`: an array of a binary type holds bytes. -/
def binaryValue (type : ArrowType) : Option Value → Except String (Option (List ℕ))
  | none => .ok none
  | some (.bytes bytes) => .ok (some bytes)
  | some _ => .error ("a binary value was expected, not " ++
      library.display (.plain ⟨"", true, none⟩ type))

/-- An empty key stays empty, unlike an empty value of a column. -/
def hexMapKeys (type : ArrowType) (keys : List (Option Value)) :
    Except String (ArrowArray Value) := do
  let values ← keys.mapM (binaryValue library type)
  let texts ← hexStrings values fun _ => .ok true
  return textArray texts

def encodeDocument (encode : ℕ → List UInt8) (array : ArrowArray Value) (row : ℕ) :
    Except String (Option String) :=
  if array.isNull row then .ok none
  else
    let buffer := encode row
    match fromUtf8 buffer with
    | some document => .ok (some (String.ofList document))
    | none => .error ("the JSON rendering of a " ++ library.display array.dataType ++
        " value is not valid UTF-8: " ++ library.utf8Error buffer)

def encodeDocuments (array : ArrowArray Value) : Except String (List (Option String)) :=
  match library.makeEncoder (array.typeUnder ⟨"value", true, none⟩) array with
  | .error error => .error ("a column of type " ++ library.display array.dataType ++
      " could not be prepared for JSON rendering: " ++ error)
  | .ok encode => (List.range array.length).mapM (encodeDocument library encode array)

/-- `stringified` is the rewrite of the array's map keys. -/
def renderNestedColumnAsJson (array : ArrowArray Value)
    (stringified : Except String (ArrowArray Value)) : Except String (List (Option String)) :=
  if array.dataType.needsNestedJsonRendering then do
    encodeDocuments library (← stringified)
  else .error ("JSON rendering was attempted for a column of type " ++
    library.display array.dataType ++
      ", which is not one of the nested Arrow types this encoder " ++
    "owns (list, large_list, fixed_size_list, struct, map)")

/-- The keys of a map; `stringified` is the rewrite of the array itself, read where it is nested. -/
def stringifiedKeys (keys : ArrowArray Value) (stringified : Except String (ArrowArray Value)) :
    Except String (ArrowArray Value) :=
  match keys with
  | .plain type values =>
      if type.isText then .ok keys
      else if type.isBinary then hexMapKeys library type values
      else if library.canCastToUtf8 type then
        match library.cast type values with
        | .ok texts => .ok (textArray texts)
        | .error error => .error ("a map key of type " ++ library.display keys.dataType ++
            " could not be stringified into a JSON object name: " ++ error)
      else .error ("a map key of type " ++ library.display keys.dataType ++
        " cannot be rendered as a JSON object name: an object name must be a string and Arrow " ++
        "offers no cast from " ++ library.display keys.dataType ++ " to utf8")
  | nested => (renderNestedColumnAsJson library nested stringified).map textArray

mutual

def withStringifiedMapKeys : ArrowArray Value → Except String (ArrowArray Value)
  | .plain type values => .ok (.plain type values)
  | .struct fields columns nulls length =>
      if anyKeysNeedStringifying fields then do
        let children ← withStringifiedColumns columns
        library.structTryNew (List.zipWith retyped fields children) children nulls length
      else .ok (.struct fields columns nulls length)
  | .list large element offsets values nulls =>
      if mapKeysNeedStringifying element then do
        let rewritten ← withStringifiedMapKeys values
        library.listTryNew large (retyped element rewritten) offsets rewritten nulls
      else .ok (.list large element offsets values nulls)
  | .fixedSizeList element size values nulls length =>
      if mapKeysNeedStringifying element then do
        let rewritten ← withStringifiedMapKeys values
        library.fixedSizeListTryNew (retyped element rewritten) size rewritten nulls
      else .ok (.fixedSizeList element size values nulls length)
  | .map (.struct label [declaredKey, declaredValue]) sorted offsets key value entryNulls
      entryLength nulls =>
      if !isTextField declaredKey || mapKeysNeedStringifying declaredValue then do
        let keys ← stringifiedKeys library key (withStringifiedMapKeys key)
        let values ← withStringifiedMapKeys value
        let pair := [retyped declaredKey keys, retyped declaredValue values]
        let rebuilt ← library.structTryNew pair [keys, values] entryNulls entryLength
        library.mapTryNew (.struct label pair) offsets rebuilt nulls sorted
      else
        .ok (.map (.struct label [declaredKey, declaredValue]) sorted offsets key value entryNulls
          entryLength nulls)
  | .map entries sorted offsets key value entryNulls entryLength nulls =>
      .ok (.map entries sorted offsets key value entryNulls entryLength nulls)

def withStringifiedColumns : List (ArrowArray Value) → Except String (List (ArrowArray Value))
  | [] => .ok []
  | column :: columns => do
      let child ← withStringifiedMapKeys column
      return child :: (← withStringifiedColumns columns)

end

/-! ## What the result is -/

/-- The type of a map's keys once they are texts. -/
def textKey : Field → Field
  | .plain label type => .plain label (if type.isText then type else .utf8)
  | .struct label _ | .list label _ _ | .map label _ _ => .plain label .utf8

mutual

def stringifiedType : Field → Field
  | .plain label type => .plain label type
  | .struct label fields => .struct label (stringifiedTypes fields)
  | .list label kind element => .list label kind (stringifiedType element)
  | .map label (.struct entries [key, value]) sorted =>
      .map label (.struct entries [textKey key, stringifiedType value]) sorted
  | .map label entries sorted => .map label entries sorted

def stringifiedTypes : List Field → List Field
  | [] => []
  | field :: fields => stringifiedType field :: stringifiedTypes fields

end

mutual

/-- No map at any depth has a key that is not a text. -/
def StringKeyed : Field → Prop
  | .plain _ _ => True
  | .struct _ fields => AllStringKeyed fields
  | .list _ _ element => StringKeyed element
  | .map _ (.struct _ [key, value]) _ => isTextField key = true ∧ StringKeyed value
  | .map _ _ _ => False

def AllStringKeyed : List Field → Prop
  | [] => True
  | field :: fields => StringKeyed field ∧ AllStringKeyed fields

end

/-- The text of a key: itself, the hexadecimal text of bytes, the document of a nested key with
its own keys replaced as `same` says, or the text the library casts to. -/
def KeyText (key : Field) (same : RowValue Value → RowValue Value → Prop)
    (row text : RowValue Value) :
    Prop :=
  (row = .null ∧ text = .null) ∨ row ≠ .null ∧
    match key with
    | .plain _ type =>
        if type.isText then text = row
        else if type.isBinary then ∃ bytes, row = .leaf (.bytes bytes) ∧
          text = .leaf (.text (String.ofList (Text.hexEncode bytes)))
        else ∃ value, row = .leaf value ∧ text = .leaf (.text (library.castText type value))
    | nested => ∃ inner document, same row inner ∧
        library.document (stringifiedType (nested.relabel ⟨"value", true, none⟩)) inner =
          utf8Bytes document ∧ text = .leaf (.text (String.ofList document))

mutual

/-- Two rows of a type that differ in the keys of their maps alone, the second having the texts. -/
def SameButKeys : Field → RowValue Value → RowValue Value → Prop
  | _, .null, .null => True
  | .plain _ _, .leaf value, .leaf value' => value = value'
  | .struct _ fields, .struct members, .struct members' => SameMembers fields members members'
  | .list _ _ element, .list items, .list items' => List.Forall₂ (SameButKeys element) items items'
  | .map _ (.struct _ [key, value]) _, .map entries, .map entries' =>
      List.Forall₂ (fun entry entry' => KeyText library key (SameButKeys key) entry.1 entry'.1 ∧
        SameButKeys value entry.2 entry'.2) entries entries'
  | _, _, _ => False

def SameMembers : List Field → List (String × RowValue Value) →
    List (String × RowValue Value) → Prop
  | [], [], [] => True
  | field :: fields, member :: members, member' :: members' =>
      member.1 = member'.1 ∧ SameButKeys field member.2 member'.2 ∧
        SameMembers fields members members'
  | _, _, _ => False

end

/-! ## When the keys can be rendered -/

/-- The encoder accepts an array and writes texts. -/
def Encodes (array : ArrowArray Value) : Prop :=
  ∃ encode, library.makeEncoder (array.typeUnder ⟨"value", true, none⟩) array = .ok encode ∧
    ∀ row < array.length, array.isNull row = false → ∃ document, encode row = utf8Bytes document

/-- The keys of a map are texts, bytes, of a type and with values that the library casts to text,
or nested ones of which `inside` holds and whose rewrite is encoded. -/
def KeyRenderable (inside : Prop) (stringified : Except String (ArrowArray Value)) :
    ArrowArray Value → Prop
  | .plain type values =>
      if type.isText then True
      else if type.isBinary then
        ∀ value, some value ∈ values → ∃ bytes, value = .bytes bytes
      else library.canCastToUtf8 type = true ∧ ∃ texts, library.cast type values = .ok texts
  | _ => inside ∧ ∀ inner, stringified = .ok inner → Encodes library inner

mutual

/-- Every map whose keys, or those within its values, have to be replaced, has a key that is
required and can be rendered. -/
def Renderable : ArrowArray Value → Prop
  | .plain _ _ => True
  | .struct fields columns _ _ => anyKeysNeedStringifying fields = true → AllRenderable columns
  | .list _ element _ values _ => mapKeysNeedStringifying element = true → Renderable values
  | .fixedSizeList element _ values _ _ =>
      mapKeysNeedStringifying element = true → Renderable values
  | .map (.struct _ [first, second]) _ _ key value _ _ _ =>
      (!isTextField first || mapKeysNeedStringifying second) = true →
        first.label.nullable = false ∧
        KeyRenderable library (Renderable key) (withStringifiedMapKeys library key) key ∧
        Renderable value
  | .map _ _ _ _ _ _ _ _ => True

def AllRenderable : List (ArrowArray Value) → Prop
  | [] => True
  | column :: columns => Renderable column ∧ AllRenderable columns

end

/-! ## One container at a time -/

/-- An array and its rewrite: the type is converted, and the rows are related one by one. -/
structure Rewritten (convert : Field → Field)
    (same : Field → RowValue Value → RowValue Value → Prop) (array result : ArrowArray Value) :
    Prop where
  valid : result.Valid
  typed : ∀ label, result.typeUnder label = convert (array.typeUnder label)
  sized : result.length = array.length
  nulls : ∀ row < array.length, result.isNull row = array.isNull row
  values : ∀ row < array.length, ∀ label,
    same (array.typeUnder label) (array.valueAt row) (result.valueAt row)

abbrev Stringified : ArrowArray Value → ArrowArray Value → Prop :=
  Rewritten stringifiedType (SameButKeys library)

abbrev KeysStringified : ArrowArray Value → ArrowArray Value → Prop :=
  Rewritten textKey fun field => KeyText library field (SameButKeys library field)

section Containers

variable {library} {convert : Field → Field} {same : Field → RowValue Value → RowValue Value → Prop}
variable {nulls : NullBuffer}

theorem retyped_eq (field : Field) (array : ArrowArray Value) :
    retyped field array = array.typeUnder field.label :=
  typeUnder_relabel _ _ array

@[simp] theorem label_typeUnder (label : FieldLabel) (array : ArrowArray Value) :
    (array.typeUnder label).label = label := by
  cases array <;> rfl

theorem ofType_retyped (field : Field) (array : ArrowArray Value) :
    array.OfType (retyped field array) := by
  rw [retyped_eq, ArrowArray.OfType, label_typeUnder]

theorem label_retyped (field : Field) (array : ArrowArray Value) :
    (retyped field array).label = field.label := by
  rw [retyped_eq, label_typeUnder]

theorem retyped_of_ofType {field : Field} {array : ArrowArray Value} (typed : array.OfType field) :
    retyped field array = field := by
  rw [retyped_eq, typed]

/-- The rewritten array under a field's label has the converted type of the field. -/
theorem Rewritten.retyped_eq {array result : ArrowArray Value}
    (rewritten : Rewritten convert same array result)
    {field : Field} (typed : array.OfType field) : retyped field result = convert field := by
  rw [JsonRender.retyped_eq, rewritten.typed, typed]

theorem Rewritten.row {array result : ArrowArray Value}
    (rewritten : Rewritten convert same array result)
    {field : Field} (typed : array.OfType field) {row : ℕ} (within : row < array.length) :
    same field (array.valueAt row) (result.valueAt row) := by
  have rows := rewritten.values row within field.label
  rwa [typed] at rows

theorem Rewritten.columnFits {column result : ArrowArray Value}
    (rewritten : Rewritten convert same column result) {length : ℕ} {field : Field}
    (fits : ArrowArray.ColumnFits nulls length field column) :
    ArrowArray.ColumnFits nulls length (retyped field result) result := by
  obtain ⟨-, sized, masked⟩ := fits
  refine ⟨ofType_retyped field result, rewritten.sized.trans sized, ?_⟩
  rw [label_retyped]
  refine masked.imp_right ?_
  intro masked row within null
  rw [rewritten.nulls row (sized ▸ within)] at null
  exact masked row within null

/-- The items at some positions are related one by one. -/
theorem Rewritten.forall₂_items {values result : ArrowArray Value}
    (rewritten : Rewritten convert same values result) {field : Field} (typed : values.OfType field)
    {positions : List ℕ} (inside : ∀ position ∈ positions, position < values.length) :
    List.Forall₂ (same field) (positions.map values.valueAt) (positions.map result.valueAt) := by
  rw [List.forall₂_map_left_iff, List.forall₂_map_right_iff, List.forall₂_same]
  intro position member
  exact rewritten.row typed (inside position member)

theorem Rewritten.listFits {values result : ArrowArray Value}
    (rewritten : Rewritten convert same values result) {element : Field} {offsets : OffsetBuffer}
    (fits : ArrowArray.ListFits element offsets values nulls) :
    ArrowArray.ListFits (retyped element result) offsets result nulls := by
  obtain ⟨-, bound, rows, present⟩ := fits
  refine ⟨ofType_retyped element result, rewritten.sized ▸ bound, rows, ?_⟩
  rw [label_retyped, rewritten.sized]
  refine present.imp_right ?_
  intro present position within
  rw [rewritten.nulls position within]
  exact present position within

theorem Stringified.list {values result : ArrowArray Value}
    (items : Stringified library values result)
    (large : Bool) {element : Field} {offsets : OffsetBuffer}
    (fits : ArrowArray.ListFits element offsets values nulls) :
    Stringified library (.list large element offsets values nulls)
      (.list large (retyped element result) offsets result nulls) where
  valid := .list (items.listFits fits) items.valid
  typed label := by
    simp only [ArrowArray.typeUnder, stringifiedType, items.retyped_eq fits.1]
  sized := rfl
  nulls _ _ := rfl
  values row _ label := by
    by_cases null : nulls.isNull row = true
    · simp only [ArrowArray.valueAt, ArrowArray.typeUnder, if_pos null, SameButKeys]
    · simp only [ArrowArray.valueAt, ArrowArray.typeUnder, if_neg null, SameButKeys]
      exact items.forall₂_items fits.1 fun position member =>
        (offsets.lt_last_of_mem_window member).trans_le fits.2.1

theorem Rewritten.fixedSizeListFits {values result : ArrowArray Value}
    (rewritten : Rewritten convert same values result) {element : Field} {size : ℤ}
    (fits : ArrowArray.FixedSizeListFits element size values nulls) :
    ArrowArray.FixedSizeListFits (retyped element result) size result nulls := by
  obtain ⟨positive, -, rows, present⟩ := fits
  refine ⟨positive, ofType_retyped element result, rewritten.sized ▸ rows, ?_⟩
  rw [label_retyped, rewritten.sized]
  refine present.imp_right ?_
  intro present position within
  rw [rewritten.nulls position within]
  exact present position within

theorem Stringified.fixedSizeList {values result : ArrowArray Value}
    (items : Stringified library values result) {element : Field} {size : ℤ}
    (fits : ArrowArray.FixedSizeListFits element size values nulls) :
    Stringified library (.fixedSizeList element size values nulls (values.length / size.toNat))
      (.fixedSizeList (retyped element result) size result nulls (result.length / size.toNat)) where
  valid := .fixedSizeList (items.fixedSizeListFits fits) items.valid
  typed label := by
    simp only [ArrowArray.typeUnder, stringifiedType, items.retyped_eq fits.2.1]
  sized := congrArg (· / size.toNat) items.sized
  nulls _ _ := rfl
  values row within label := by
    simp only [ArrowArray.valueAt, ArrowArray.typeUnder]
    split
    · simp only [SameButKeys]
    · simp only [SameButKeys]
      exact items.forall₂_items fits.2.1 fun position member => lt_of_mem_span within member

/-- The members of a row. -/
theorem sameMembers_columns {fields : List Field} {columns results : List (ArrowArray Value)}
    {length : ℕ}
    (fits : List.Forall₂ (ArrowArray.ColumnFits nulls length) fields columns)
    (each : List.Forall₂ (Stringified library) columns results) {row : ℕ} (within : row < length) :
    SameMembers library fields ((fields.map (·.name)).zip
      (columns.map fun column => column.valueAt row))
      (((List.zipWith retyped fields results).map (·.name)).zip
        (results.map fun column => column.valueAt row)) := by
  induction fits generalizing results with
  | nil =>
      cases each
      simp [SameMembers]
  | @cons field column fields columns here _ ih =>
      cases each with
      | @cons _ result _ results rewritten rest =>
          have name : (retyped field result).name = field.name := by
            rw [Field.name, label_retyped, Field.name]
          simp only [List.zipWith_cons_cons, List.map_cons, List.zip_cons_cons, SameMembers,
            name, true_and]
          exact ⟨rewritten.row here.1 (here.2.1 ▸ within), ih rest⟩

theorem structFits_columns {fields : List Field} {columns results : List (ArrowArray Value)}
    {length : ℕ}
    (fits : List.Forall₂ (ArrowArray.ColumnFits nulls length) fields columns)
    (each : List.Forall₂ (Stringified library) columns results) :
    List.Forall₂ (ArrowArray.ColumnFits nulls length)
    (List.zipWith retyped fields results) results ∧
      List.zipWith retyped fields results = stringifiedTypes fields := by
  induction fits generalizing results with
  | nil =>
      cases each
      simp [stringifiedTypes]
  | @cons field column fields columns here _ ih =>
      cases each with
      | @cons _ result _ results rewritten rest =>
          obtain ⟨later, types⟩ := ih rest
          refine ⟨.cons (rewritten.columnFits here) later, ?_⟩
          rw [List.zipWith_cons_cons, types, rewritten.retyped_eq here.1, stringifiedTypes]

theorem Stringified.struct {fields : List Field} {columns results : List (ArrowArray Value)}
    {length : ℕ}
    (fits : ArrowArray.StructFits fields columns nulls length)
    (each : List.Forall₂ (Stringified library) columns results) :
    Stringified library (.struct fields columns nulls length)
      (.struct (List.zipWith retyped fields results) results nulls length) where
  valid := by
    refine .struct ⟨(structFits_columns fits.1 each).1, fits.2⟩ ?_
    intro result member
    obtain ⟨_, _, rewritten⟩ := exists_related_of_mem each member
    exact rewritten.valid
  typed label := by
    simp only [ArrowArray.typeUnder, stringifiedType, (structFits_columns fits.1 each).2]
  sized := rfl
  nulls _ _ := rfl
  values row within label := by
    simp only [ArrowArray.valueAt, ArrowArray.typeUnder, ArrowArray.membersAt_eq]
    split
    · simp only [SameButKeys]
    · simp only [SameButKeys]
      exact sameMembers_columns fits.1 each within

theorem Stringified.map {key value keys values : ArrowArray Value}
    (keysRewritten : KeysStringified library key keys)
    (valuesRewritten : Stringified library value values)
    {first second : Field} {label : FieldLabel} (sorted : Bool) {offsets : OffsetBuffer}
    {entryNulls : NullBuffer} {entryLength : ℕ}
    (paired : ArrowArray.StructFits [first, second] [key, value] entryNulls entryLength)
    (fits : ArrowArray.MapFits (.struct label [first, second]) offsets entryNulls
      entryLength nulls) :
    ArrowArray.StructFits [retyped first keys, retyped second values]
    [keys, values] entryNulls entryLength ∧
      Stringified library
        (.map (.struct label [first, second]) sorted offsets key value entryNulls entryLength nulls)
        (.map (.struct label [retyped first keys, retyped second values]) sorted offsets keys values
          entryNulls entryLength nulls) := by
  obtain ⟨columns, entryRows⟩ := paired
  rw [List.forall₂_cons, List.forall₂_cons] at columns
  obtain ⟨keyFits, valueFits, -⟩ := columns
  have rebuilt : ArrowArray.StructFits [retyped first keys, retyped second values]
    [keys, values] entryNulls
      entryLength :=
    ⟨.cons (keysRewritten.columnFits keyFits) (.cons (valuesRewritten.columnFits valueFits) .nil),
      entryRows⟩
  have solid :
    ArrowArray.MapFits (.struct label [retyped first keys, retyped second values]) offsets
      entryNulls entryLength nulls := fits
  refine ⟨rebuilt, .map rebuilt solid keysRewritten.valid valuesRewritten.valid, ?_, rfl,
    fun _ _ => rfl, ?_⟩
  · intro other
    simp only [ArrowArray.typeUnder, stringifiedType, keysRewritten.retyped_eq keyFits.1,
      valuesRewritten.retyped_eq valueFits.1]
  · intro row _ other
    by_cases null : nulls.isNull row = true
    · simp only [ArrowArray.valueAt, ArrowArray.typeUnder, if_pos null, SameButKeys]
    · simp only [ArrowArray.valueAt, ArrowArray.typeUnder, if_neg null, SameButKeys]
      rw [List.forall₂_map_left_iff, List.forall₂_map_right_iff, List.forall₂_same]
      intro entry member
      have inside : entry < entryLength :=
        (offsets.lt_last_of_mem_window member).trans_le fits.2.2.1
      exact ⟨keysRewritten.row keyFits.1 (keyFits.2.1 ▸ inside),
        valuesRewritten.row valueFits.1 (valueFits.2.1 ▸ inside)⟩

end Containers

/-! ## The keys -/

section Keys

variable {library}

theorem length_textArray (texts : List (Option String)) :
    (textArray texts).length = texts.length := by
  simp [textArray, ArrowArray.length]

theorem isNull_textArray (texts : List (Option String)) (row : ℕ) :
    (textArray texts).isNull row = (texts[row]?.map Option.isNone).getD false := by
  rw [textArray, ArrowArray.isNull, List.getElem?_map]
  rcases texts[row]? with - | - | text <;> rfl

theorem valueAt_textArray (texts : List (Option String)) (row : ℕ) :
    (textArray texts).valueAt row = ((texts[row]?.join).map (.leaf <| .text ·)).getD .null := by
  rw [textArray, ArrowArray.valueAt, List.getElem?_map]
  rcases texts[row]? with - | - | text <;> rfl

/-- Keys of a plain type whose texts are taken one by one. -/
theorem keysStringified_plain {type : ArrowType} (notText : type.isText = false)
    {values : List (Option Value)} (text : Value → String)
    (each : ∀ value, some value ∈ values → ∀ label,
      KeyText library (.plain label type) (SameButKeys library (.plain label type)) (.leaf value)
        (.leaf (.text (text value)))) :
    KeysStringified library (.plain type values) (textArray (values.map (Option.map text))) where
  valid := .plain _ _
  typed label := by simp [textArray, ArrowArray.typeUnder, textKey, notText]
  sized := by simp [textArray, ArrowArray.length]
  nulls row _ := by
    rw [isNull_textArray, List.getElem?_map, ArrowArray.isNull]
    rcases values[row]? with - | - | value <;> rfl
  values row within label := by
    rw [valueAt_textArray, List.getElem?_map, ArrowArray.valueAt, ArrowArray.typeUnder]
    cases held : values[row]? with
    | none => exact .inl ⟨rfl, rfl⟩
    | some cell =>
        cases cell with
        | none => exact .inl ⟨rfl, rfl⟩
        | some value => exact each value (List.mem_of_getElem? held) label

theorem keysStringified_text {type : ArrowType} (isText : type.isText = true)
    (values : List (Option Value)) : KeysStringified library (.plain type values)
    (.plain type values) where
  valid := .plain _ _
  typed label := by simp [ArrowArray.typeUnder, textKey, isText]
  sized := rfl
  nulls _ _ := rfl
  values row _ label := by
    by_cases null : (ArrowArray.plain type values).valueAt row = .null
    · exact .inl ⟨null, null⟩
    · refine .inr ⟨null, ?_⟩
      simp [ArrowArray.typeUnder, isText]

variable {keys : List (Option Value)}

theorem mapM_binaryValue_eq_ok {type : ArrowType}
    {values : List (Option (List ℕ))} :
    keys.mapM (binaryValue library type) = .ok values ↔ keys = values.map (Option.map .bytes) := by
  rw [mapM_eq_ok_iff]
  induction keys generalizing values with
  | nil => cases values <;> simp
  | cons key keys ih =>
      cases values with
      | nil => simp
      | cons value values =>
          rw [List.forall₂_cons, ih, List.map_cons, List.cons.injEq, and_congr_left_iff]
          intro _
          rcases key with - | (- | - | - | - | - | - | - | bytes) <;> cases value <;>
            simp [binaryValue]

theorem hexStrings_all (values : List (Option (List ℕ))) :
    (hexStrings values fun _ => .ok true) =
      .ok (values.map (Option.map fun bytes => String.ofList (Text.hexEncode bytes))) := by
  apply mapM_eq_ok_map
  intro value _
  cases value <;> rfl

/-- The keys are the bytes of some values, and become their hexadecimal texts. -/
theorem hexMapKeys_eq_ok {type : ArrowType} {result : ArrowArray Value} :
    hexMapKeys library type keys = .ok result ↔ ∃ values : List (Option (List ℕ)),
      keys = values.map (Option.map .bytes) ∧
        result = textArray
          (values.map (Option.map fun bytes => String.ofList (Text.hexEncode bytes))) := by
  constructor
  · intro run
    obtain ⟨values, read, run⟩ := exists_of_bind_ok run
    rw [hexStrings_all] at run
    cases run
    exact ⟨values, mapM_binaryValue_eq_ok.mp read, rfl⟩
  · rintro ⟨values, same, rfl⟩
    rw [hexMapKeys, mapM_binaryValue_eq_ok.mpr same, ok_bind, hexStrings_all]
    rfl

/-- The hexadecimal text of a value that holds bytes. -/
def hexOf : Value → String
  | .bytes bytes => String.ofList (Text.hexEncode bytes)
  | _ => ""

theorem keysStringified_binary {type : ArrowType} (isBinary : type.isBinary = true)
    {result : ArrowArray Value}
    (run : hexMapKeys library type keys = .ok result) :
    KeysStringified library (.plain type keys) result := by
  obtain ⟨values, rfl, rfl⟩ := hexMapKeys_eq_ok.mp run
  have notText := ArrowType.isText_of_isBinary isBinary
  have texts : values.map (Option.map fun bytes => String.ofList (Text.hexEncode bytes)) =
      (values.map (Option.map Value.bytes)).map (Option.map hexOf) := by
    rw [List.map_map]
    apply List.map_congr_left
    rintro (- | bytes) - <;> rfl
  rw [texts]
  apply keysStringified_plain notText
  intro value member label
  obtain ⟨held, -, same⟩ := List.mem_map.mp member
  obtain ⟨bytes, -, rfl⟩ := Option.map_eq_some_iff.mp same
  refine .inr ⟨nofun, ?_⟩
  simp [notText, isBinary, hexOf]

theorem keysStringified_cast {type : ArrowType} (notText : type.isText = false)
    (notBinary : type.isBinary = false) {texts : List (Option String)}
    (run : library.cast type keys = .ok texts) :
    KeysStringified library (.plain type keys) (textArray texts) := by
  rw [library.cast_eq type keys texts run]
  apply keysStringified_plain notText
  intro value _ label
  refine .inr ⟨nofun, ?_⟩
  simp [notText, notBinary]

theorem keyText_nested {key : Field} (nested : key.needsNestedJsonRendering = true)
    {same : RowValue Value → RowValue Value → Prop} {row text : RowValue Value} :
    KeyText library key same row text ↔ (row = .null ∧ text = .null) ∨ row ≠ .null ∧
      ∃ inner document, same row inner ∧
        library.document (stringifiedType (key.relabel ⟨"value", true, none⟩)) inner =
          utf8Bytes document ∧ text = .leaf (.text (String.ofList document)) := by
  cases key with
  | plain label type => cases nested
  | _ => rfl

theorem valueAt_eq_null_iff {array : ArrowArray Value} {row : ℕ} (within : row < array.length) :
    array.valueAt row = .null ↔ array.isNull row = true := by
  cases array with
  | plain type values =>
      have held := List.getElem?_eq_getElem within
      rw [ArrowArray.valueAt, ArrowArray.isNull, held]
      cases values[row] <;> simp
  | _ => simp [ArrowArray.valueAt, ArrowArray.isNull]

theorem encodeDocument_eq_ok {encode : ℕ → List UInt8} {array : ArrowArray Value} {row : ℕ}
    {document : Option String} :
    encodeDocument library encode array row = .ok document ↔
      (array.isNull row = true ∧ document = none) ∨
        (array.isNull row = false ∧ ∃ text, encode row = utf8Bytes text ∧
          document = some (String.ofList text)) := by
  rw [encodeDocument]
  cases null : array.isNull row with
  | true => simp [eq_comm]
  | false =>
      cases read : fromUtf8 (encode row) with
      | none =>
          simp only [Bool.false_eq_true, if_false, read, reduceCtorEq, false_and,
            true_and, false_or,
            false_iff, not_exists, not_and]
          intro text same
          rw [same, fromUtf8_utf8Bytes] at read
          cases read
      | some text =>
          have bytes := eq_utf8Bytes_of_fromUtf8 read
          simp only [Bool.false_eq_true, if_false, read, Except.ok.injEq, false_and,
            true_and, false_or]
          constructor
          · rintro rfl
            exact ⟨text, bytes, rfl⟩
          · rintro ⟨other, same, rfl⟩
            rw [utf8Bytes_injective (bytes.symm.trans same)]

theorem keysStringified_nested {key inner : ArrowArray Value}
    (nested : ∀ label, (key.typeUnder label).needsNestedJsonRendering = true)
    (rewritten : Stringified library key inner) {documents : List (Option String)}
    (run : encodeDocuments library inner = .ok documents) :
    KeysStringified library key (textArray documents) := by
  rw [encodeDocuments] at run
  cases made : library.makeEncoder (inner.typeUnder ⟨"value", true, none⟩) inner with
  | error error =>
      rw [made] at run
      cases run
  | ok encode =>
      rw [made] at run
      have each := mapM_eq_ok_iff.mp run
      have sized : documents.length = key.length := by
        rw [← each.length_eq, List.length_range, rewritten.sized]
      have documentAt : ∀ row < key.length, ∃ document, documents[row]? = some document ∧
          encodeDocument library encode inner row = .ok document := by
        intro row within
        have here : (List.range inner.length)[row]? = some row :=
          List.getElem?_range (rewritten.sized ▸ within)
        exact exists_getElem?_of_forall₂ each here
      refine ⟨.plain _ _, ?_, (length_textArray _).trans sized, ?_, ?_⟩
      · intro label
        have plain := nested label
        cases held : key.typeUnder label with
        | plain other type =>
            rw [held] at plain
            cases plain
        | _ =>
            have same := congrArg Field.label held
            rw [label_typeUnder] at same
            rw [textKey, same]
            rfl
      · intro row within
        obtain ⟨document, found, encoded⟩ := documentAt row within
        rw [isNull_textArray, found, ← rewritten.nulls row within]
        obtain ⟨null, rfl⟩ | ⟨present, text, -, rfl⟩ := encodeDocument_eq_ok.mp encoded
        · exact null.symm
        · exact present.symm
      · intro row within label
        obtain ⟨document, found, encoded⟩ := documentAt row within
        rw [keyText_nested (nested label), valueAt_textArray, found, valueAt_eq_null_iff within,
          typeUnder_relabel, Ne, valueAt_eq_null_iff within, ← rewritten.nulls row within]
        obtain ⟨null, rfl⟩ | ⟨present, text, bytes, rfl⟩ := encodeDocument_eq_ok.mp encoded
        · exact .inl ⟨null, rfl⟩
        · refine .inr ⟨by simp [present], inner.valueAt row, text, ?_, ?_, rfl⟩
          · exact rewritten.values row within label
          · rw [← bytes, ← rewritten.typed]
            exact (library.encode_eq _ _ _ made row (rewritten.sized ▸ within) present).symm

end Keys

/-! ## Whole arrays -/

section Arrays

variable {library}

theorem anyKeysNeedStringifying_eq_false {fields : List Field} :
    anyKeysNeedStringifying fields = false ↔ ∀ field ∈ fields,
      mapKeysNeedStringifying field = false := by
  induction fields with
  | nil => simp [anyKeysNeedStringifying]
  | cons field fields ih => simp [anyKeysNeedStringifying, ih]

theorem mapKeysNeedStringifying_relabel (label : FieldLabel) (field : Field) :
    mapKeysNeedStringifying (field.relabel label) = mapKeysNeedStringifying field := by
  cases field with
  | map other entries sorted =>
      rcases entries with - | ⟨entryLabel, - | ⟨key, - | ⟨value, - | _⟩⟩⟩ | - | - <;>
        simp [Field.relabel, mapKeysNeedStringifying]
  | _ => simp [Field.relabel, mapKeysNeedStringifying]

variable {array : ArrowArray Value}

theorem mapKeysNeedStringifying_of_ofType {field : Field}
    (typed : array.OfType field) :
    mapKeysNeedStringifying array.dataType = mapKeysNeedStringifying field := by
  rw [← typed, ArrowArray.dataType, ← typeUnder_relabel _ field.label,
    mapKeysNeedStringifying_relabel]

/-- The columns of a struct, none of which is rewritten. -/
theorem zipWith_retyped {fields : List Field} {columns : List (ArrowArray Value)}
    {nulls : NullBuffer}
    {length : ℕ} (fits : List.Forall₂ (ArrowArray.ColumnFits nulls length) fields columns) :
    List.zipWith retyped fields columns = fields := by
  induction fits with
  | nil => rfl
  | cons here _ ih => rw [List.zipWith_cons_cons, retyped_of_ofType here.1, ih]

/-- The fields of a map's entries, one for the keys and one for the values. -/
theorem exists_pair {pair : List Field} {key value : ArrowArray Value} {entryNulls : NullBuffer}
    {entryLength : ℕ} (paired : ArrowArray.StructFits pair [key, value] entryNulls entryLength) :
    ∃ first second, pair = [first, second] ∧ key.OfType first ∧ value.OfType second := by
  obtain ⟨columns, -⟩ := paired
  obtain ⟨first, _, keyFits, rest, rfl⟩ := List.forall₂_cons_right_iff.mp columns
  obtain ⟨second, _, valueFits, none, rfl⟩ := List.forall₂_cons_right_iff.mp rest
  obtain rfl := List.forall₂_nil_right_iff.mp none
  exact ⟨first, second, rfl, keyFits.1, valueFits.1⟩

/-- A field of a text type has an array of texts. -/
theorem exists_plain_of_isTextField {key : ArrowArray Value} {field : Field}
    (typed : key.OfType field)
    (isText : isTextField field = true) :
    ∃ type values, key = .plain type values ∧ type.isText = true := by
  cases key with
  | plain type values =>
      rw [← typed] at isText
      exact ⟨type, values, rfl, isText⟩
  | _ =>
      rw [← typed] at isText
      cases isText

/-- Where the type predicate holds of no map, nothing has to change. -/
theorem stringified_unchanged (valid : array.Valid)
    (unneeded : mapKeysNeedStringifying array.dataType = false) :
    Stringified library array array := by
  induction valid with
  | plain type values =>
      refine ⟨.plain _ _, ?_, rfl, fun _ _ => rfl, ?_⟩
      · intro label
        simp [ArrowArray.typeUnder, stringifiedType]
      · intro row _ label
        rw [ArrowArray.valueAt, ArrowArray.typeUnder]
        rcases values[row]? with - | - | value <;> simp [SameButKeys]
  | @struct fields columns nulls length fits each ih =>
      have fieldsUnneeded := anyKeysNeedStringifying_eq_false.mp unneeded
      have unchanged : List.Forall₂ (Stringified library) columns columns := by
        rw [List.forall₂_same]
        intro column member
        obtain ⟨field, among, fits⟩ := exists_related_of_mem fits.1 member
        apply ih column member
        rw [mapKeysNeedStringifying_of_ofType fits.1]
        exact fieldsUnneeded field among
      have rebuilt := Stringified.struct fits unchanged
      rwa [zipWith_retyped fits.1] at rebuilt
  | @list large element offsets values nulls fits items ih =>
      have rebuilt := (ih (by rwa [mapKeysNeedStringifying_of_ofType fits.1])).list large fits
      rwa [retyped_of_ofType fits.1] at rebuilt
  | fixedSizeList fits items ih =>
      have rebuilt := (ih (by rwa [mapKeysNeedStringifying_of_ofType fits.2.1])).fixedSizeList fits
      rwa [retyped_of_ofType fits.2.1] at rebuilt
  | @map label pair sorted _ _ _ _ _ _ paired fits keys values ihKeys ihValues =>
      obtain ⟨first, second, rfl, ofKey, ofValue⟩ := exists_pair paired
      obtain ⟨isText, valueUnneeded⟩ : isTextField first = true ∧
        mapKeysNeedStringifying second = false := by
        simpa [ArrowArray.dataType, ArrowArray.typeUnder, mapKeysNeedStringifying] using unneeded
      obtain ⟨type, texts, rfl, isText⟩ := exists_plain_of_isTextField ofKey isText
      have rebuilt := (Stringified.map (keysStringified_text isText texts)
        (ihValues (by rwa [mapKeysNeedStringifying_of_ofType ofValue])) sorted paired fits).2
      rwa [retyped_of_ofType ofKey, retyped_of_ofType ofValue] at rebuilt

theorem withStringifiedColumns_eq (columns : List (ArrowArray Value)) :
    withStringifiedColumns library columns = columns.mapM (withStringifiedMapKeys library) := by
  induction columns with
  | nil => simp [withStringifiedColumns, pure, Except.pure]
  | cons column columns ih => simp [withStringifiedColumns, List.mapM_cons, ih]

/-- The keys of a map whose own rewrite is known where it is nested. -/
theorem stringifiedKeys_of_ok {key keys : ArrowArray Value}
    {stringified : Except String (ArrowArray Value)}
    (inside : ∀ inner, stringified = .ok inner → Stringified library key inner)
    (run : stringifiedKeys library key stringified = .ok keys) :
    KeysStringified library key keys := by
  have nestedKeys (nested : ∀ label, (key.typeUnder label).needsNestedJsonRendering = true)
      (run : (renderNestedColumnAsJson library key stringified).map textArray = .ok keys) :
      KeysStringified library key keys := by
    obtain ⟨documents, rendered, rfl⟩ := exists_of_map_ok run
    rw [renderNestedColumnAsJson, ArrowArray.dataType, if_pos (nested _)] at rendered
    obtain ⟨inner, rewritten, encoded⟩ := exists_of_bind_ok rendered
    exact keysStringified_nested nested (inside inner rewritten) encoded
  cases key with
  | plain type values =>
      rw [stringifiedKeys] at run
      split at run
      · next isText =>
          cases run
          exact keysStringified_text isText values
      · next notText =>
          split at run
          · next isBinary => exact keysStringified_binary isBinary run
          · next notBinary =>
              split at run
              · split at run
                · next texts cast =>
                    cases run
                    exact keysStringified_cast (by simpa using notText)
                      (by simpa using notBinary) cast
                · cases run
              · cases run
  | struct fields columns nulls length => exact nestedKeys (fun _ => rfl) run
  | list large element offsets values nulls => exact nestedKeys (fun _ => rfl) run
  | fixedSizeList element size values nulls length => exact nestedKeys (fun _ => rfl) run
  | map entries sorted offsets key value entryNulls entryLength nulls =>
      exact nestedKeys (fun _ => rfl) run

/-- Whatever the rewrite returns differs from the array in the keys of its maps alone. -/
theorem stringified_of_ok {result : ArrowArray Value} (valid : array.Valid)
    (run : withStringifiedMapKeys library array = .ok result) :
    Stringified library array result := by
  induction valid generalizing result with
  | plain type values =>
      simp only [withStringifiedMapKeys, Except.ok.injEq] at run
      subst run
      exact stringified_unchanged (.plain _ _) rfl
  | @struct fields columns nulls length fits each ih =>
      rw [withStringifiedMapKeys] at run
      split at run
      · obtain ⟨children, run, built⟩ := exists_of_bind_ok run
        rw [withStringifiedColumns_eq, mapM_eq_ok_iff] at run
        have rewritten : List.Forall₂ (Stringified library) columns children :=
          forall₂_imp_of_mem run fun column member child => ih column member
        rw [library.struct_built _ _ _ _ ⟨(structFits_columns fits.1 rewritten).1, fits.2⟩] at built
        cases built
        exact Stringified.struct fits rewritten
      · next unneeded =>
          cases run
          exact stringified_unchanged (.struct fits each)
            (Bool.eq_false_of_not_eq_true unneeded)
  | @list large element offsets values nulls fits items ih =>
      rw [withStringifiedMapKeys] at run
      split at run
      · obtain ⟨rewritten, run, built⟩ := exists_of_bind_ok run
        have each := ih run
        rw [library.list_built _ _ _ _ _ (each.listFits fits)] at built
        cases built
        exact each.list large fits
      · next unneeded =>
          cases run
          exact stringified_unchanged (.list fits items) (by
            simpa [ArrowArray.dataType, ArrowArray.typeUnder,
              mapKeysNeedStringifying] using unneeded)
  | @fixedSizeList element size values nulls fits items ih =>
      rw [withStringifiedMapKeys] at run
      split at run
      · obtain ⟨rewritten, run, built⟩ := exists_of_bind_ok run
        have each := ih run
        rw [library.fixedSizeList_built _ _ _ _ (each.fixedSizeListFits fits)] at built
        cases built
        exact each.fixedSizeList fits
      · next unneeded =>
          cases run
          exact stringified_unchanged (.fixedSizeList fits items) (by
            simpa [ArrowArray.dataType, ArrowArray.typeUnder,
              mapKeysNeedStringifying] using unneeded)
  | @map label pair sorted offsets key value entryNulls entryLength nulls paired fits
      validKeys validValues
      ihKeys ihValues =>
      obtain ⟨first, second, rfl, ofKey, ofValue⟩ := exists_pair paired
      rw [withStringifiedMapKeys] at run
      split at run
      · obtain ⟨keys, runKeys, run⟩ := exists_of_bind_ok run
        obtain ⟨values, runValues, run⟩ := exists_of_bind_ok run
        obtain ⟨pairs, runPairs, built⟩ := exists_of_bind_ok run
        have keysRewritten := stringifiedKeys_of_ok
          (fun inner rewritten => ihKeys rewritten) runKeys
        obtain ⟨rebuilt, stringified⟩ :=
          Stringified.map keysRewritten (ihValues runValues) sorted paired fits
        rw [library.struct_built _ _ _ _ rebuilt] at runPairs
        cases runPairs
        have solid : ArrowArray.MapFits (.struct label [retyped first keys, retyped second values])
            offsets entryNulls entryLength nulls := fits
        have required := library.map_refused _ _ _ _ _ _ _ _ built
        rw [library.map_built _ _ _ _ _ _ _ _ _ _ rebuilt solid required] at built
        cases built
        exact stringified
      · next unneeded =>
          cases run
          exact stringified_unchanged (.map paired fits validKeys validValues)
            (Bool.eq_false_of_not_eq_true unneeded)

/-! ## When the rewrite succeeds -/

theorem allRenderable_iff {columns : List (ArrowArray Value)} :
    AllRenderable library columns ↔ ∀ column ∈ columns, Renderable library column := by
  induction columns with
  | nil => simp [AllRenderable]
  | cons column columns ih => simp [AllRenderable, ih]

/-- The documents of an array are written exactly if its encoder writes texts. -/
theorem exists_encodeDocuments_iff :
    (∃ documents, encodeDocuments library array = .ok documents) ↔ Encodes library array := by
  rw [encodeDocuments, Encodes]
  cases made : library.makeEncoder (array.typeUnder ⟨"value", true, none⟩) array with
  | error error => simp
  | ok encode =>
      simp only [Except.ok.injEq, exists_eq_left']
      constructor
      · rintro ⟨documents, run⟩ row within present
        obtain ⟨document, encoded⟩ := exists_of_mapM_ok run row (List.mem_range.mpr within)
        obtain ⟨null, -⟩ | ⟨-, text, bytes, -⟩ := encodeDocument_eq_ok.mp encoded
        · simp [present] at null
        · exact ⟨text, bytes⟩
      · intro written
        apply exists_mapM_ok
        intro row member
        cases null : array.isNull row with
        | true => exact ⟨none, encodeDocument_eq_ok.mpr (.inl ⟨null, rfl⟩)⟩
        | false =>
            obtain ⟨document, bytes⟩ := written row (List.mem_range.mp member) null
            exact ⟨_, encodeDocument_eq_ok.mpr (.inr ⟨null, document, bytes, rfl⟩)⟩

theorem exists_hexMapKeys_iff {type : ArrowType} {keys : List (Option Value)} :
    (∃ result, hexMapKeys library type keys = .ok result) ↔
      ∀ value, some value ∈ keys → ∃ bytes, value = .bytes bytes := by
  constructor
  · rintro ⟨result, run⟩ value member
    obtain ⟨values, rfl, -⟩ := hexMapKeys_eq_ok.mp run
    obtain ⟨held, -, same⟩ := List.mem_map.mp member
    obtain ⟨bytes, -, rfl⟩ := Option.map_eq_some_iff.mp same
    exact ⟨bytes, rfl⟩
  · intro bytes
    have read : ∀ key ∈ keys, ∃ value, binaryValue library type key = .ok value := by
      intro key member
      cases key with
      | none => exact ⟨none, rfl⟩
      | some value =>
          obtain ⟨bytes, rfl⟩ := bytes value member
          exact ⟨some bytes, rfl⟩
    obtain ⟨values, read⟩ := exists_mapM_ok read
    exact ⟨_, hexMapKeys_eq_ok.mpr ⟨values, mapM_binaryValue_eq_ok.mp read, rfl⟩⟩

/-- The keys of a map are replaced exactly if they can be rendered. -/
theorem exists_stringifiedKeys_iff {key : ArrowArray Value} {inside : Prop}
    {stringified : Except String (ArrowArray Value)}
    (nested : (∃ inner, stringified = .ok inner) ↔ inside) :
    (∃ keys, stringifiedKeys library key stringified = .ok keys) ↔
      KeyRenderable library inside stringified key := by
  have nestedKeys (isNested : ∀ label, (key.typeUnder label).needsNestedJsonRendering = true) :
      (∃ keys, (renderNestedColumnAsJson library key stringified).map textArray = .ok keys) ↔
        inside ∧ ∀ inner, stringified = .ok inner → Encodes library inner := by
    rw [renderNestedColumnAsJson, ArrowArray.dataType, if_pos (isNested _), ← nested]
    cases stringified with
    | error error =>
        constructor
        · rintro ⟨keys, run⟩
          cases run
        · rintro ⟨⟨inner, run⟩, -⟩
          cases run
    | ok inner =>
        rw [ok_bind]
        constructor
        · rintro ⟨keys, run⟩
          obtain ⟨documents, encoded, -⟩ := exists_of_map_ok run
          refine ⟨⟨inner, rfl⟩, ?_⟩
          intro other same
          cases same
          exact exists_encodeDocuments_iff.mp ⟨documents, encoded⟩
        · rintro ⟨-, encodes⟩
          obtain ⟨documents, encoded⟩ := exists_encodeDocuments_iff.mpr (encodes inner rfl)
          exact ⟨_, by rw [encoded]; rfl⟩
  cases key with
  | plain type values =>
      rw [stringifiedKeys, KeyRenderable]
      split
      · simp
      · split
        · exact exists_hexMapKeys_iff
        · split
          · next castable =>
              cases library.cast type values <;> simp [castable]
          · next uncastable => simp [uncastable]
  | struct fields columns nulls length => exact nestedKeys fun _ => rfl
  | list large element offsets values nulls => exact nestedKeys fun _ => rfl
  | fixedSizeList element size values nulls length => exact nestedKeys fun _ => rfl
  | map entries sorted offsets key value entryNulls entryLength nulls =>
      exact nestedKeys fun _ => rfl

/-- The rewrite succeeds exactly if the keys it replaces are required and can be rendered. -/
theorem exists_withStringifiedMapKeys_iff (valid : array.Valid) :
    (∃ result, withStringifiedMapKeys library array = .ok result) ↔ Renderable library array := by
  induction valid with
  | plain type values => simp [withStringifiedMapKeys, Renderable]
  | @struct fields columns nulls length fits each ih =>
      rw [withStringifiedMapKeys, Renderable]
      split
      · next needed =>
          have built : ∀ children, columns.mapM (withStringifiedMapKeys library) = .ok children →
              ∃ result, library.structTryNew (List.zipWith retyped fields children) children nulls
                length = .ok result := by
            intro children run
            have rewritten : List.Forall₂ (Stringified library) columns children :=
              forall₂_imp_of_mem (mapM_eq_ok_iff.mp run) fun column member child =>
                stringified_of_ok (each column member)
            exact ⟨_, library.struct_built _ _ _ _
              ⟨(structFits_columns fits.1 rewritten).1, fits.2⟩⟩
          rw [withStringifiedColumns_eq, allRenderable_iff, exists_bind_ok_iff built]
          constructor
          · rintro ⟨children, run⟩ - column member
            exact (ih column member).mp (exists_of_mapM_ok run column member)
          · intro renderable
            exact exists_mapM_ok fun column member =>
              (ih column member).mpr (renderable needed column member)
      · next unneeded => simp [unneeded]
  | @list large element offsets values nulls fits items ih =>
      rw [withStringifiedMapKeys, Renderable, ← ih]
      split
      · next needed =>
          rw [exists_bind_ok_iff fun rewritten run =>
            ⟨_, library.list_built _ _ _ _ _ ((stringified_of_ok items run).listFits fits)⟩]
          exact (imp_iff_right needed).symm
      · next unneeded => simp [unneeded]
  | @fixedSizeList element size values nulls fits items ih =>
      rw [withStringifiedMapKeys, Renderable, ← ih]
      split
      · next needed =>
          rw [exists_bind_ok_iff fun rewritten run =>
            ⟨_, library.fixedSizeList_built _ _ _ _
              ((stringified_of_ok items run).fixedSizeListFits fits)⟩]
          exact (imp_iff_right needed).symm
      · next unneeded => simp [unneeded]
  | @map label pair sorted offsets key value entryNulls entryLength nulls paired fits validKeys
      validValues ihKeys ihValues =>
      obtain ⟨first, second, rfl, ofKey, ofValue⟩ := exists_pair paired
      rw [withStringifiedMapKeys, Renderable, ← ihValues, ← exists_stringifiedKeys_iff ihKeys]
      split
      · next needed =>
          constructor
          · rintro ⟨result, run⟩ -
            obtain ⟨keys, runKeys, run⟩ := exists_of_bind_ok run
            obtain ⟨values, runValues, run⟩ := exists_of_bind_ok run
            obtain ⟨rebuilt, -, built⟩ := exists_of_bind_ok run
            have required := library.map_refused _ _ _ _ _ _ _ _ built
            rw [label_retyped] at required
            exact ⟨required, ⟨keys, runKeys⟩, values, runValues⟩
          · intro renderable
            obtain ⟨required, ⟨keys, runKeys⟩, values, runValues⟩ := renderable needed
            have keysRewritten :=
              stringifiedKeys_of_ok (fun inner => stringified_of_ok validKeys) runKeys
            obtain ⟨rebuilt, -⟩ := Stringified.map keysRewritten
              (stringified_of_ok validValues runValues) sorted paired fits
            have solid : ArrowArray.MapFits
                (.struct label [retyped first keys, retyped second values]) offsets entryNulls
                entryLength nulls := fits
            rw [← label_retyped first keys] at required
            rw [runKeys, ok_bind, runValues, ok_bind]
            dsimp only
            rw [library.struct_built _ _ _ _ rebuilt, ok_bind,
              library.map_built _ _ _ _ _ _ _ _ _ _ rebuilt solid required]
            exact ⟨_, rfl⟩
      · next unneeded => simp [unneeded]

theorem allStringKeyed_iff {fields : List Field} :
    AllStringKeyed fields ↔ ∀ field ∈ fields, StringKeyed field := by
  induction fields with
  | nil => simp [AllStringKeyed]
  | cons field fields ih => simp [AllStringKeyed, ih]

theorem stringifiedTypes_eq (fields : List Field) :
    stringifiedTypes fields = fields.map stringifiedType := by
  induction fields with
  | nil => simp [stringifiedTypes]
  | cons field fields ih => simp [stringifiedTypes, ih]

theorem isTextField_textKey (field : Field) : isTextField (textKey field) = true := by
  cases field with
  | plain label type =>
      simp only [textKey, isTextField]
      split
      · assumption
      · rfl
  | _ => rfl

/-- The rewritten type has texts for keys at every depth. -/
theorem stringKeyed_stringifiedType (valid : array.Valid) {field : Field}
    (typed : array.OfType field) : StringKeyed (stringifiedType field) := by
  induction valid generalizing field with
  | plain type values =>
      rw [← typed]
      simp [ArrowArray.typeUnder, stringifiedType, StringKeyed]
  | @struct fields columns nulls length fits each ih =>
      rw [← typed, ArrowArray.typeUnder, stringifiedType, StringKeyed, allStringKeyed_iff,
        stringifiedTypes_eq, List.forall_mem_map]
      intro own among
      obtain ⟨column, member, fits⟩ := exists_related_of_mem fits.1.flip among
      exact ih column member fits.1
  | list fits items ih =>
      rw [← typed, ArrowArray.typeUnder, stringifiedType, StringKeyed]
      exact ih fits.1
  | fixedSizeList fits items ih =>
      rw [← typed, ArrowArray.typeUnder, stringifiedType, StringKeyed]
      exact ih fits.2.1
  | map paired fits validKeys validValues ihKeys ihValues =>
      obtain ⟨first, second, rfl, ofKey, ofValue⟩ := exists_pair paired
      rw [← typed, ArrowArray.typeUnder, stringifiedType, StringKeyed]
      exact ⟨isTextField_textKey first, ihValues ofValue⟩

end Arrays

/-- Stringifying the map keys of a nested array changes nothing else, and succeeds exactly if the
keys it replaces are required and can be rendered. -/
theorem stringified_map_keys_keep_rows (array : ArrowArray Value) (valid : array.Valid) :
    (∀ result, withStringifiedMapKeys library array = .ok result →
      result.length = array.length ∧ StringKeyed result.dataType ∧
        ∀ row < array.length,
          SameButKeys library array.dataType (array.valueAt row) (result.valueAt row)) ∧
      ((∃ result, withStringifiedMapKeys library array = .ok result) ↔
        Renderable library array) := by
  refine ⟨?_, exists_withStringifiedMapKeys_iff valid⟩
  intro result run
  have rewritten := stringified_of_ok valid run
  refine ⟨rewritten.sized, ?_, fun row within => rewritten.values row within _⟩
  rw [ArrowArray.dataType, rewritten.typed]
  apply stringKeyed_stringifiedType valid
  rw [ArrowArray.OfType, label_typeUnder]

/-! ## A map of one entry -/

/-- The last second the library can write as a date and time. -/
def lastSecond : ℚ := 8210266876799

def beyondLastSecond : Option Value → Bool
  | some (.timestamp seconds) => lastSecond < seconds
  | _ => false

def integerText : Value → String
  | .num value => toString value.num
  | _ => ""

/-- A library that casts every plain type, but no time after the last second it can write, and
encodes no nested key. -/
def datedLibrary : JsonLibrary where
  toArrowLibrary := checkedLibrary
  display _ := ""
  canCastToUtf8 _ := true
  castText _ := integerText
  cast _ values :=
    if values.any beyondLastSecond then .error "Failed to convert to datetime"
    else .ok (values.map (Option.map integerText))
  cast_eq type values texts run := by
    split at run
    · cases run
    · cases run
      rfl
  document _ _ := []
  makeEncoder _ _ := .error ""
  encode_eq _ _ _ made := by cases made
  utf8Error _ := ""

def oneEntry (type : ArrowType) (key : Value) : ArrowArray Value :=
  oneRowMap false type key (.text "x")

theorem stringified_map_keys_keep_rows_seven :
    ∃ result, withStringifiedMapKeys datedLibrary (oneEntry (.integer 32 true) (.num 7)) =
        .ok result ∧ result.length = 1 ∧ StringKeyed result.dataType := by
  obtain ⟨keeps, succeeds⟩ := stringified_map_keys_keep_rows datedLibrary
    (oneEntry (.integer 32 true) (.num 7)) (oneRowMap_valid _ _ _ _)
  have renderable : Renderable datedLibrary (oneEntry (.integer 32 true) (.num 7)) := by
    simp [oneEntry, oneRowMap, Renderable, KeyRenderable, datedLibrary, ArrowType.isText,
      ArrowType.isBinary, beyondLastSecond, Field.label]
  obtain ⟨result, run⟩ := succeeds.mpr renderable
  obtain ⟨sized, keyed, -⟩ := keeps result run
  exact ⟨result, run, sized, keyed⟩

/-- The type of a key can be castable while the cast of its value is refused. -/
theorem castable_key_can_be_refused :
    (oneEntry (.timestamp .second none) (.timestamp (lastSecond + 1))).Valid ∧
      datedLibrary.canCastToUtf8 (.timestamp .second none) = true ∧
      ∀ result, withStringifiedMapKeys datedLibrary
        (oneEntry (.timestamp .second none) (.timestamp (lastSecond + 1))) ≠ .ok result := by
  refine ⟨oneRowMap_valid _ _ _ _, rfl, ?_⟩
  intro result run
  have renderable := (exists_withStringifiedMapKeys_iff (oneRowMap_valid _ _ _ _)).mp ⟨result, run⟩
  simp [oneRowMap, Renderable, KeyRenderable, isTextField, datedLibrary, ArrowType.isText,
    ArrowType.isBinary, beyondLastSecond] at renderable

end LakehouseEngine.JsonRender
