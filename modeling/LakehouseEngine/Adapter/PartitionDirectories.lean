import LakehouseEngine.Catalog.Listing
import LakehouseEngine.Data.FirstByKey
import LakehouseEngine.Expression.Node
import LakehouseEngine.Scan.ObjectLocation
import LakehouseEngine.Text.Numeral

/-!
# Partition values from directories

A prefix is listed once.  A file below it is a data file when it holds bytes, no segment of its
key below the prefix is hidden and its name ends in `.parquet`.  Its `key=value` directories
give the values of the declared partition columns.
-/

namespace LakehouseEngine.PartitionDirectories

variable [Unicode]

/-! ## The listing -/

structure ObjectMeta where
  location : StorePath
  size : ℕ

/-- The answers of a store, or the chain of its error. -/
structure ObjectStore where
  list : StorePath → Except String (List ObjectMeta)
  listWithDelimiter : StorePath → Except String (List ObjectMeta)

inductive FilePattern where
  | parquetAtAnyDepth
  | anyDirectChild

structure ListedFile where
  path : StorePath
  size : ℕ
  /-- Every `key=value` directory below the listed prefix, in path order. -/
  partitionSegments : List (String × Option String)

structure ParquetFile where
  path : StorePath
  size : ℕ
  partitionValues : OrderedMap.StringMap (Option String)

def display (path : StorePath) : String := String.ofList path.raw

def isHidden (segment : List Char) : Bool := segment.head? = some '_' || segment.head? = some '.'

def dataFileSegments (location base : StorePath) : Option (List (List Char)) :=
  match location.prefixMatch base with
  | none => none
  | some segments => if segments.isEmpty || segments.any isHidden then none else some segments

/-- The raw text stands for a value whose bytes are no text. -/
def decodePartitionValue (raw : List Char) : Option String :=
  let decoded := String.ofList ((decodeText raw).getD raw)
  if decoded = "" ∨ decoded = hiveDefaultPartition then none else some decoded

def parsePartitionSegments (directories : List (List Char)) : List (String × Option String) :=
  ((directories.filterMap (Text.splitOnce '=')).filter fun pair => pair.1 ≠ []).map fun pair =>
    (String.ofList pair.1, decodePartitionValue pair.2)

def FilePattern.isDataFile (name : List Char) : FilePattern → Bool
  | .parquetAtAnyDepth => ".parquet".toList.isSuffixOf name
  | .anyDirectChild => true

def listedFile (base : StorePath) (pattern : FilePattern) (object : ObjectMeta) :
    Option ListedFile := do
  let segments ← dataFileSegments object.location base
  let name ← segments.getLast?
  if pattern.isDataFile name then
    some ⟨object.location, object.size, parsePartitionSegments segments.dropLast⟩
  else none

def listLocationFiles (store : ObjectStore) (base : StorePath) (pattern : FilePattern) :
    Except String (List ListedFile) :=
  let answer := match pattern with
    | .parquetAtAnyDepth => store.list base
    | .anyDirectChild => store.listWithDelimiter base
  match answer with
  | .error chain => .error ("failed to list '" ++ display base ++ "': " ++ chain)
  | .ok listed =>
      let files := (listed.filter fun object => 0 < object.size).filterMap (listedFile base pattern)
      .ok (files.mergeSort fun left right => display left.path ≤ display right.path)

def listDataFiles (store : ObjectStore) (base : StorePath) (hivePartitioning : Bool) :
    Except String (List ListedFile) := do
  let files ← listLocationFiles store base .parquetAtAnyDepth
  return if hivePartitioning then files else files.map fun file =>
    { file with partitionSegments := [] }

structure ParquetListing where
  files : List ListedFile

def ParquetListing.list (store : ObjectStore) (base : StorePath) :
    Except String ParquetListing := do
  return ⟨← listDataFiles store base true⟩

/-! ## The values of the declared columns -/

def segmentKeys (file : ListedFile) : List String := file.partitionSegments.map (·.1)

def twoSpellings (first second : String × StorePath) : String :=
  "partition key '" ++ first.1 ++ "' (in '" ++ display first.2 ++ "') and '" ++
    second.1 ++ "' (in '" ++ display second.2 ++
    "') are two spellings of one partition column. Neither directory spelling is " ++
    "preferred over the other: rename the directories so every file spells the key alike."

/-- The class of a directory key, none where no declared column has it. -/
def foldedKey (foldedDeclared : List String) (spelling : String × StorePath) : Option String :=
  if upper spelling.1 ∈ foldedDeclared then some (upper spelling.1) else none

def ensureOneSpellingPerDeclaredKey (files : List ListedFile) (foldedDeclared : List String) :
    Except String Unit := do
  let _ ← files.foldlM (fun firstSeen file =>
    ((segmentKeys file).map fun key => (key, file.path)).foldlM
      (FirstByKey.record (foldedKey foldedDeclared) (·.1) twoSpellings) firstSeen) []
  return ()

/-- The value of the deepest directory of a column. -/
def partitionValue (segments : List (String × Option String)) (folded : String) : Option String :=
  (segments.reverse.find? fun segment => upper segment.1 = folded).bind (·.2)

def filledValues (declared : List String) (file : ListedFile) :
    OrderedMap.StringMap (Option String) :=
  ⟨OrderedMap.collect (declared.map fun key =>
    (key, partitionValue file.partitionSegments (upper key))),
    OrderedMap.sorted_collect _⟩

def fillPartitionValues (files : List ListedFile) (declared : List String) :
    Except String (List (OrderedMap.StringMap (Option String))) := do
  ensureOneSpellingPerDeclaredKey files (declared.map upper)
  return files.map (filledValues declared)

def ParquetListing.keptFiles (listing : ParquetListing) (partitionColumns : List String)
    (keep : OrderedMap.StringMap (Option String) → Bool) : Except String (List ParquetFile) := do
  let partitionValues ← fillPartitionValues listing.files partitionColumns
  return ((listing.files.zip partitionValues).filter fun pair => keep pair.2).map fun pair =>
    ⟨pair.1.path, pair.1.size, pair.2⟩

/-! ## What a directory says -/

/-- A directory `key=raw`.  The key ends at the first `=`. -/
structure KeyValue (segment : List Char) (key : String) (raw : List Char) : Prop where
  joined : segment = key.toList ++ '=' :: raw
  first : '=' ∉ key.toList
  named : key ≠ ""

/-- The text of a raw value: the one its decoded bytes write, or else the raw text itself. -/
inductive Reading (raw : List Char) : List Char → Prop where
  | decoded {text : List Char} : utf8Bytes text = percentDecode raw → Reading raw text
  | undecodable : (∀ text, utf8Bytes text ≠ percentDecode raw) → Reading raw raw

/-- The empty text and the Hive default stand for NULL. -/
def nullable (text : List Char) : Option String :=
  if text = [] ∨ text = hiveDefaultPartition.toList then none else some (String.ofList text)

def Names (column : String) (segment : List Char) : Prop :=
  ∃ key raw, KeyValue segment key raw ∧ upper key = upper column

/-- What a column is bound to below directories: NULL, or the value of the deepest directory that
names it. -/
inductive Binds (directories : List (List Char)) (column : String) : Option String → Prop where
  | absent : (∀ segment ∈ directories, ¬Names column segment) → Binds directories column none
  | deepest {before after : List (List Char)} {segment raw text : List Char} {key : String} :
      directories = before ++ segment :: after → KeyValue segment key raw →
        upper key = upper column →
      (∀ below ∈ after, ¬Names column below) → Reading raw text →
        Binds directories column (nullable text)

/-- A data file below `base`, in its directories. -/
structure DataFile (base : StorePath) (object : ObjectMeta) (directories : List (List Char))
    (name : List Char) : Prop where
  below : object.location.segments = base.segments ++ (directories ++ [name])
  filled : 0 < object.size
  visible : ∀ segment ∈ directories ++ [name], segment.head? ≠ some '_' ∧ segment.head? ≠ some '.'
  named : ".parquet".toList <:+ name

/-- A data file of an object with every declared column bound, and nothing else. -/
def Reads (base : StorePath) (columns : List String) (object : ObjectMeta) (file : ParquetFile) :
    Prop :=
  ∃ directories name, DataFile base object directories name ∧
    file.path = object.location ∧ file.size = object.size ∧
    (∀ column ∈ columns, ∃ value, file.partitionValues.entries.lookup column = some value ∧
      Binds directories column value) ∧
    ∀ column ∉ columns, file.partitionValues.entries.lookup column = none

/-- A key of a directory of a data file. -/
def DirectoryKey (base : StorePath) (object : ObjectMeta) (key : String) : Prop :=
  ∃ directories name, DataFile base object directories name ∧
    ∃ segment ∈ directories, ∃ raw, KeyValue segment key raw

/-- No declared key is spelled in two ways in the listing. -/
def OneSpelling (base : StorePath) (objects : List ObjectMeta) (columns : List String) : Prop :=
  ∀ first ∈ objects, ∀ second ∈ objects, ∀ key other, DirectoryKey base first key →
    DirectoryKey base second other → ∀ column ∈ columns, upper key = upper column →
      upper other = upper column → key = other

/-! ## One directory -/

/-- The pair a directory is parsed to. -/
def segmentPair (segment : List Char) : Option (String × Option String) :=
  (Text.splitOnce '=' segment).bind fun pair =>
    if pair.1 ≠ [] then some (String.ofList pair.1, decodePartitionValue pair.2) else none

omit [Unicode] in
theorem parsePartitionSegments_eq (directories : List (List Char)) :
    parsePartitionSegments directories = directories.filterMap segmentPair := by
  rw [parsePartitionSegments, ← List.filterMap_eq_map, ← List.filterMap_eq_filter,
    List.filterMap_filterMap,
    List.filterMap_filterMap]
  refine List.filterMap_congr fun segment _ => ?_
  rw [segmentPair]
  cases Text.splitOnce '=' segment with
  | none => rfl
  | some pair => by_cases empty : pair.1 = [] <;> simp [empty, Option.guard]

omit [Unicode] in
theorem segmentPair_eq_some {segment : List Char} {pair : String × Option String} :
    segmentPair segment = some pair ↔
      ∃ raw, KeyValue segment pair.1 raw ∧ decodePartitionValue raw = pair.2 := by
  rw [segmentPair, Option.bind_eq_some_iff]
  constructor
  · rintro ⟨⟨key, raw⟩, split, made⟩
    by_cases empty : key = []
    · simp [empty] at made
    · simp only [ne_eq, empty, not_false_eq_true, if_true, Option.some.injEq] at made
      subst made
      refine ⟨raw, ⟨?_, ?_, ?_⟩, rfl⟩
      · rw [String.toList_ofList]
        exact (Text.splitOnce_spec split).1
      · rw [String.toList_ofList]
        exact (Text.splitOnce_spec split).2
      · simpa using empty
  · rintro ⟨raw, written, read⟩
    obtain ⟨key, value⟩ := pair
    refine ⟨(key.toList, raw), ?_, ?_⟩
    · rw [written.joined]
      exact Text.splitOnce_of_not_mem raw written.first
    · have nonempty : key.toList ≠ [] := by simpa using written.named
      simp only [ne_eq, nonempty, not_false_eq_true, if_true, String.ofList_toList, read]

omit [Unicode] in
theorem KeyValue.unique {segment raw other : List Char} {key key' : String}
    (first : KeyValue segment key raw)
    (second : KeyValue segment key' other) : key = key' ∧ raw = other := by
  have split := Text.splitOnce_of_not_mem raw first.first
  rw [← first.joined, second.joined, Text.splitOnce_of_not_mem other second.first,
    Option.some.injEq,
    Prod.mk.injEq, String.toList_inj] at split
  exact ⟨split.1.symm, split.2.symm⟩

omit [Unicode] in
theorem reading_iff {raw text : List Char} : Reading raw text ↔
    text = (decodeText raw).getD raw := by
  rw [decodeText]
  constructor
  · rintro (same | never)
    · rw [← same, fromUtf8_utf8Bytes, Option.getD_some]
    · cases read : fromUtf8 (percentDecode raw) with
      | none => rfl
      | some text => exact absurd (eq_utf8Bytes_of_fromUtf8 read).symm (never text)
  · rintro rfl
    cases read : fromUtf8 (percentDecode raw) with
    | none =>
        refine .undecodable fun text same => ?_
        rw [← same, fromUtf8_utf8Bytes] at read
        cases read
    | some text => exact .decoded (eq_utf8Bytes_of_fromUtf8 read).symm

omit [Unicode] in
theorem decodePartitionValue_eq {raw text : List Char} (read : Reading raw text) :
    decodePartitionValue raw = nullable text := by
  obtain rfl := reading_iff.mp read
  have empty : String.ofList ((decodeText raw).getD raw) = "" ↔ (decodeText raw).getD raw = [] := by
    simp
  have default : String.ofList ((decodeText raw).getD raw) = hiveDefaultPartition ↔
      (decodeText raw).getD raw = hiveDefaultPartition.toList := by
    rw [← String.toList_inj, String.toList_ofList]
  simp only [decodePartitionValue, nullable, empty, default]

/-! ## The directories of a file -/

theorem binds_nil {column : String} {value : Option String} : Binds [] column value ↔
    value = none := by
  constructor
  · rintro (none | split)
    · rfl
    · simp at split
  · rintro rfl
    exact .absent (by simp)

variable {directories : List (List Char)} {base : StorePath} {files : List ListedFile}

/-- The last directory decides when it names the column. -/
theorem binds_concat {segment : List Char} {column : String}
    {value : Option String} :
    Binds (directories ++ [segment]) column value ↔
      (∃ key raw text, KeyValue segment key raw ∧ upper key = upper column ∧ Reading raw text ∧
        value = nullable text) ∨
      (¬Names column segment ∧ Binds directories column value) := by
  constructor
  · intro binds
    cases binds with
    | absent none =>
        exact .inr ⟨none segment (by simp), .absent fun other member =>
          none other (by simp [member])⟩
    | @deepest before after own raw text key split written same below read =>
        rcases List.eq_nil_or_concat after with rfl | ⟨after, last, rfl⟩
        · obtain rfl := List.singleton_inj.mp (List.append_inj' split rfl).2
          exact .inl ⟨key, raw, text, written, same, read, rfl⟩
        · rw [List.concat_eq_append, ← List.cons_append, ← List.append_assoc] at split
          obtain ⟨rfl, ends⟩ := List.append_inj' split rfl
          obtain rfl := List.singleton_inj.mp ends
          refine .inr ⟨below segment (by simp), .deepest rfl written same ?_ read⟩
          exact fun other member => below other (by simp [member])
  · rintro (⟨key, raw, text, written, same, read, rfl⟩ | ⟨unnamed, binds⟩)
    · exact .deepest rfl written same (by simp) read
    · cases binds with
      | absent none =>
          refine .absent fun other member => ?_
          rcases List.mem_append.mp member with member | member
          · exact none other member
          · exact List.mem_singleton.mp member ▸ unnamed
      | @deepest before after own raw text key split written same below read =>
          have longer : directories ++ [segment] = before ++ own :: (after ++ [segment]) := by
            simp [split]
          refine .deepest longer written same ?_ read
          intro other member
          rcases List.mem_append.mp member with member | member
          · exact below other member
          · exact List.mem_singleton.mp member ▸ unnamed

theorem partitionValue_concat (segments : List (String × Option String))
    (pair : String × Option String)
    (folded : String) :
    partitionValue (segments ++ [pair]) folded =
      if upper pair.1 = folded then pair.2 else partitionValue segments folded := by
  by_cases same : upper pair.1 = folded <;> simp [partitionValue, same]

/-- The deepest directory of a column is found. -/
theorem binds_iff {column : String} {value : Option String} :
    Binds directories column value ↔
      partitionValue (parsePartitionSegments directories) (upper column) = value := by
  rw [parsePartitionSegments_eq]
  -- From the deepest directory up, as the search goes.
  induction directories using List.reverseRecOn generalizing value with
  | nil =>
      rw [binds_nil, List.filterMap_nil]
      exact eq_comm
  | append_singleton directories segment ih =>
      rw [binds_concat, List.filterMap_append, ih]
      cases parsed : segmentPair segment with
      | none =>
          have unnamed : ¬Names column segment := by
            rintro ⟨key, raw, written, -⟩
            have pairs : segmentPair segment = some (key, decodePartitionValue raw) :=
              segmentPair_eq_some.mpr ⟨raw, written, rfl⟩
            rw [pairs] at parsed
            cases parsed
          rw [List.filterMap_cons_none parsed, List.filterMap_nil, List.append_nil]
          constructor
          · rintro (⟨key, raw, -, written, same, -⟩ | ⟨-, found⟩)
            · exact absurd ⟨key, raw, written, same⟩ unnamed
            · exact found
          · exact fun found => .inr ⟨unnamed, found⟩
      | some pair =>
          obtain ⟨raw, written, read⟩ := segmentPair_eq_some.mp parsed
          rw [List.filterMap_cons_some parsed, List.filterMap_nil, partitionValue_concat]
          by_cases same : upper pair.1 = upper column
          · rw [if_pos same]
            constructor
            · rintro (⟨key, other, text, writes, -, reads, rfl⟩ | ⟨unnamed, -⟩)
              · obtain ⟨-, rfl⟩ := written.unique writes
                rw [← read, decodePartitionValue_eq reads]
              · exact absurd ⟨pair.1, raw, written, same⟩ unnamed
            · rintro rfl
              have reads : Reading raw ((decodeText raw).getD raw) := reading_iff.mpr rfl
              exact .inl ⟨pair.1, raw, _, written, same, reads,
                read.symm.trans (decodePartitionValue_eq reads)⟩
          · rw [if_neg same]
            have unnamed : ¬Names column segment := by
              rintro ⟨key, other, writes, names⟩
              obtain ⟨rfl, -⟩ := written.unique writes
              exact same names
            constructor
            · rintro (⟨key, other, -, writes, names, -⟩ | ⟨-, found⟩)
              · exact absurd ⟨key, other, writes, names⟩ unnamed
              · exact found
            · exact fun found => .inr ⟨unnamed, found⟩

/-! ## The files of a listing -/

omit [Unicode] in
theorem dataFileSegments_eq_some {location : StorePath} {segments : List (List Char)} :
    dataFileSegments location base = some segments ↔
      location.segments = base.segments ++ segments ∧ segments ≠ [] ∧
        ∀ segment ∈ segments, segment.head? ≠ some '_' ∧ segment.head? ≠ some '.' := by
  rw [← StorePath.prefixMatch_eq_some, dataFileSegments]
  cases matched : location.prefixMatch base with
  | none => simp
  | some below =>
      dsimp only
      rw [Option.some.injEq]
      constructor
      · intro kept
        split at kept
        · cases kept
        · next shown =>
            obtain rfl := Option.some.inj kept
            refine ⟨rfl, by simp_all, fun segment member => ?_⟩
            simp only [Bool.or_eq_true, List.any_eq_true, not_or, not_exists, not_and] at shown
            simpa [isHidden] using shown.2 segment member
      · rintro ⟨rfl, nonempty, visible⟩
        refine if_neg ?_
        simp only [Bool.or_eq_true, List.isEmpty_iff, nonempty, false_or, List.any_eq_true,
          not_exists, not_and]
        intro segment member
        simpa [isHidden] using visible segment member

omit [Unicode] in
theorem listedFile_eq_some {object : ObjectMeta} {file : ListedFile} :
    (0 < object.size ∧ listedFile base .parquetAtAnyDepth object = some file) ↔
      ∃ directories name, DataFile base object directories name ∧
        file = ⟨object.location, object.size, parsePartitionSegments directories⟩ := by
  constructor
  · rintro ⟨filled, listed⟩
    obtain ⟨segments, cut, listed⟩ := Option.bind_eq_some_iff.mp listed
    obtain ⟨name, last, listed⟩ := Option.bind_eq_some_iff.mp listed
    obtain ⟨directories, rfl⟩ := List.getLast?_eq_some_iff.mp last
    obtain ⟨below, -, visible⟩ := dataFileSegments_eq_some.mp cut
    split at listed
    · next parquet =>
        rw [List.dropLast_concat] at listed
        exact ⟨directories, name, ⟨below, filled, visible, List.isSuffixOf_iff_suffix.mp parquet⟩,
          (Option.some.inj listed).symm⟩
    · cases listed
  · rintro ⟨directories, name, data, rfl⟩
    refine ⟨data.filled, ?_⟩
    have cut : dataFileSegments object.location base = some (directories ++ [name]) :=
      dataFileSegments_eq_some.mpr ⟨data.below, by simp, data.visible⟩
    have parquet : FilePattern.isDataFile name .parquetAtAnyDepth = true :=
      List.isSuffixOf_iff_suffix.mpr data.named
    rw [listedFile, cut]
    simp only [Option.bind_eq_bind, Option.bind_some, List.getLast?_concat, List.dropLast_concat,
      parquet, if_true]

omit [Unicode] in
theorem DataFile.unique {object : ObjectMeta} {other : List (List Char)}
    {name name' : List Char} (first : DataFile base object directories name)
    (second : DataFile base object other name') : directories = other := by
  have same := first.below.symm.trans second.below
  exact (List.append_inj' (List.append_cancel_left same) rfl).1

/-- The data files of the answer, in its order. -/
def dataFiles (base : StorePath) (objects : List ObjectMeta) : List ListedFile :=
  (objects.filter fun object => 0 < object.size).filterMap (listedFile base .parquetAtAnyDepth)

omit [Unicode] in
theorem mem_dataFiles {objects : List ObjectMeta} {file : ListedFile} :
    file ∈ dataFiles base objects ↔
      ∃ object ∈ objects, ∃ directories name, DataFile base object directories name ∧
        file = ⟨object.location, object.size, parsePartitionSegments directories⟩ := by
  simp only [dataFiles, List.mem_filterMap, List.mem_filter,
    decide_eq_true_eq, ← listedFile_eq_some, and_assoc]

omit [Unicode] in
theorem list_eq {store : ObjectStore} {base : StorePath} {objects : List ObjectMeta}
    (answered : store.list base = .ok objects) :
    ParquetListing.list store base = .ok
      ⟨(dataFiles base objects).mergeSort fun left right =>
        display left.path ≤ display right.path⟩ := by
  simp only [ParquetListing.list, listDataFiles, listLocationFiles, answered, ok_bind,
    if_true, dataFiles]
  rfl

/-! ## The spelling check -/

/-- The keys of the files with the paths that hold them. -/
def spellings (files : List ListedFile) : List (String × StorePath) :=
  files.flatMap fun file => (segmentKeys file).map fun key => (key, file.path)

theorem ensureOneSpelling_iff {folded : List String} :
    ensureOneSpellingPerDeclaredKey files folded = .ok () ↔
      ∀ first ∈ spellings files, ∀ second ∈ spellings files,
        FirstByKey.Alike (foldedKey folded) (·.1) first second := by
  have pass := @FirstByKey.foldlM_record_iff _ _ (foldedKey folded) _ _ (·.1) _ _ twoSpellings _
    (spellings files)
  rw [← pass, spellings, foldlM_flatMap, ensureOneSpellingPerDeclaredKey]
  constructor
  · intro run
    obtain ⟨last, found, -⟩ := exists_of_bind_ok run
    exact ⟨last, found⟩
  · rintro ⟨last, found⟩
    rw [found, ok_bind]
    rfl

omit [Unicode] in
theorem mem_spellings {objects : List ObjectMeta}
    (perm : files.Perm (dataFiles base objects)) {key : String} :
    (∃ path, (key, path) ∈ spellings files) ↔ ∃ object ∈ objects, DirectoryKey base object key := by
  simp only [spellings, segmentKeys, List.mem_flatMap, List.mem_map, perm.mem_iff, mem_dataFiles,
    Prod.mk.injEq]
  constructor
  · rintro ⟨path, file, ⟨object, member, directories, name, data, rfl⟩, own,
      ⟨pair, parsed, rfl⟩, rfl, -⟩
    rw [parsePartitionSegments_eq, List.mem_filterMap] at parsed
    obtain ⟨segment, among, made⟩ := parsed
    obtain ⟨raw, written, -⟩ := segmentPair_eq_some.mp made
    exact ⟨object, member, directories, name, data, segment, among, raw, written⟩
  · rintro ⟨object, member, directories, name, data, segment, among, raw, written⟩
    have made : segmentPair segment = some (key, decodePartitionValue raw) :=
      segmentPair_eq_some.mpr ⟨raw, written, rfl⟩
    refine ⟨object.location, _, ⟨object, member, directories, name, data, rfl⟩, key,
      ⟨(key, decodePartitionValue raw), ?_, rfl⟩, rfl, rfl⟩
    rw [parsePartitionSegments_eq, List.mem_filterMap]
    exact ⟨segment, among, made⟩

theorem ensureOneSpelling_dataFiles {objects : List ObjectMeta}
    (perm : files.Perm (dataFiles base objects)) {columns : List String} :
    ensureOneSpellingPerDeclaredKey files (columns.map upper) = .ok () ↔
      OneSpelling base objects columns := by
  have declared : ∀ {spelling : String × StorePath} {folded : String},
      foldedKey (columns.map upper) spelling = some folded ↔
        (∃ column ∈ columns, upper spelling.1 = upper column) ∧ upper spelling.1 = folded := by
    intro spelling folded
    simp only [foldedKey, List.mem_map, eq_comm (b := upper spelling.1),
      Option.ite_none_right_eq_some,
      Option.some.injEq]
  rw [ensureOneSpelling_iff]
  constructor
  · intro alike first firstIn second secondIn key other keyed otherKeyed column member
      same otherSame
    obtain ⟨path, spelled⟩ := (mem_spellings perm).mpr ⟨first, firstIn, keyed⟩
    obtain ⟨path', spelled'⟩ := (mem_spellings perm).mpr ⟨second, secondIn, otherKeyed⟩
    exact alike _ spelled _ spelled' (upper column) (declared.mpr ⟨⟨column, member, same⟩, same⟩)
      (declared.mpr ⟨⟨column, member, otherSame⟩, otherSame⟩)
  · rintro one ⟨key, path⟩ spelled ⟨other, path'⟩ spelled' folded keyed otherKeyed
    obtain ⟨⟨column, member, same⟩, rfl⟩ := declared.mp keyed
    obtain ⟨-, otherSame⟩ := declared.mp otherKeyed
    obtain ⟨first, firstIn, firstKey⟩ := (mem_spellings perm).mp ⟨path, spelled⟩
    obtain ⟨second, secondIn, secondKey⟩ := (mem_spellings perm).mp ⟨path', spelled'⟩
    exact one first firstIn second secondIn key other firstKey secondKey column member same
      (otherSame.trans same)

/-! ## The kept files -/

variable {columns : List String} {keep : OrderedMap.StringMap (Option String) → Bool}

/-- The file a listed file is kept as. -/
def keptFile (columns : List String) (keep : OrderedMap.StringMap (Option String) → Bool)
    (listed : ListedFile) : Option ParquetFile :=
  if keep (filledValues columns listed) then
    some ⟨listed.path, listed.size, filledValues columns listed⟩
  else none

theorem keptFiles_eq_ok {listing : ParquetListing} {kept : List ParquetFile} :
    listing.keptFiles columns keep = .ok kept ↔
      ensureOneSpellingPerDeclaredKey listing.files (columns.map upper) = .ok () ∧
        listing.files.filterMap (keptFile columns keep) = kept := by
  have selected : ((listing.files.zip (listing.files.map (filledValues columns))).filter fun pair =>
      keep pair.2).map (fun pair => (⟨pair.1.path, pair.1.size, pair.2⟩ : ParquetFile)) =
      listing.files.filterMap (keptFile columns keep) := by
    rw [← List.map_prod_left_eq_zip, List.filter_map, List.map_map, ← List.filterMap_eq_map,
      List.filterMap_filter]
    exact List.filterMap_congr fun file _ => rfl
  rw [ParquetListing.keptFiles, fillPartitionValues]
  cases checked : ensureOneSpellingPerDeclaredKey listing.files (columns.map upper) with
  | error message =>
      constructor
      · intro run
        cases run
      · rintro ⟨run, -⟩
        cases run
  | ok done =>
      have ran : (do
          let partitionValues ← (do
            Except.ok done
            return listing.files.map (filledValues columns))
          return ((listing.files.zip partitionValues).filter (keep ·.2)).map fun pair =>
            (⟨pair.1.path, pair.1.size, pair.2⟩ : ParquetFile) : Except String (List ParquetFile)) =
          .ok (listing.files.filterMap (keptFile columns keep)) := congrArg Except.ok selected
      rw [ran, Except.ok.injEq]
      exact (and_iff_right rfl).symm

theorem pairwise_filterMap_keptFile
    (sorted : files.Pairwise fun first second => display first.path ≤ display second.path) :
    (files.filterMap (keptFile columns keep)).Pairwise fun first second =>
      display first.path ≤ display second.path := by
  refine List.Pairwise.filterMap _ ?_ sorted
  have path : ∀ {listed : ListedFile} {file : ParquetFile},
    keptFile columns keep listed = some file →
      file.path = listed.path := by
    intro listed file found
    rw [keptFile] at found
    split at found
    · rw [← Option.some.inj found]
    · cases found
  intro first second ordered file found other otherFound
  rw [path found, path otherFound]
  exact ordered

omit [Unicode] in
theorem pairwise_mergeSort_path (files : List ListedFile) :
    (files.mergeSort fun left right => display left.path ≤ display right.path).Pairwise
      fun first second =>
      display first.path ≤ display second.path := by
  have sorted :=
    pairwise_mergeSort_key (fun first second : String => first ≤ second) le_trans le_total
    (fun file : ListedFile => display file.path) files
  exact sorted

/-- The values of a file are said by its bindings. -/
theorem eq_filledValues_iff {listed : ListedFile}
    (segments : listed.partitionSegments = parsePartitionSegments directories)
    {values : OrderedMap.StringMap (Option String)} :
    filledValues columns listed = values ↔
      (∀ column ∈ columns, ∃ value, values.entries.lookup column = some value ∧
        Binds directories column value) ∧
      ∀ column ∉ columns, values.entries.lookup column = none := by
  have filled : ∀ column, (filledValues columns listed).entries.lookup column =
      if column ∈ columns then
        some (partitionValue (parsePartitionSegments directories) (upper column)) else none := by
    intro column
    rw [filledValues, ← segments]
    exact OrderedMap.lookup_collect_graph
      (fun key => partitionValue listed.partitionSegments (upper key)) columns column
  constructor
  · rintro rfl
    refine ⟨fun column member => ⟨_, (filled column).trans (if_pos member), binds_iff.mpr rfl⟩, ?_⟩
    exact fun column other => (filled column).trans (if_neg other)
  · rintro ⟨bound, free⟩
    obtain ⟨entries, sorted⟩ := values
    rw [filledValues, OrderedMap.StringMap.mk.injEq]
    refine OrderedMap.Sorted.ext (OrderedMap.sorted_collect _) sorted fun column => ?_
    refine (filled column).trans ?_
    by_cases member : column ∈ columns
    · obtain ⟨value, found, binds⟩ := bound column member
      rw [if_pos member, binds_iff.mp binds]
      exact found.symm
    · rw [if_neg member]
      exact (free column member).symm

/-- The file an object is kept as. -/
def keptObject (base : StorePath) (columns : List String)
    (keep : OrderedMap.StringMap (Option String) → Bool) (object : ObjectMeta) :
    Option ParquetFile :=
  (if 0 < object.size then listedFile base .parquetAtAnyDepth object else none).bind
    (keptFile columns keep)

theorem filterMap_dataFiles (base : StorePath) (objects : List ObjectMeta) :
    (dataFiles base objects).filterMap (keptFile columns keep) =
      objects.filterMap (keptObject base columns keep) := by
  rw [dataFiles, List.filterMap_filter, List.filterMap_filterMap]
  refine List.filterMap_congr fun object _ => ?_
  rw [keptObject]
  simp only [decide_eq_true_eq]

theorem keptObject_eq_some {object : ObjectMeta} {file : ParquetFile} :
    keptObject base columns keep object = some file ↔
      Reads base columns object file ∧ keep file.partitionValues = true := by
  rw [keptObject, Option.bind_eq_some_iff]
  simp only [Option.ite_none_right_eq_some, listedFile_eq_some]
  constructor
  · rintro ⟨listed, ⟨directories, name, data, rfl⟩, found⟩
    rw [keptFile] at found
    split at found
    · next kept =>
        obtain rfl := Option.some.inj found
        exact ⟨⟨directories, name, data, rfl, rfl, (eq_filledValues_iff rfl).mp rfl⟩, kept⟩
    · cases found
  · rintro ⟨⟨directories, name, data, path, size, bound⟩, kept⟩
    refine ⟨_, ⟨directories, name, data, rfl⟩, ?_⟩
    have values : filledValues columns ⟨object.location, object.size,
      parsePartitionSegments directories⟩ =
        file.partitionValues := (eq_filledValues_iff rfl).mpr bound
    obtain ⟨ownPath, ownSize, ownValues⟩ := file
    dsimp only at path size values kept
    subst path size
    rw [keptFile, values, if_pos kept]

/-- Keeping files succeeds exactly when no declared key is spelled in two ways, and then gives, in
path order, the data files with admitted values, each column bound by its deepest directory. -/
theorem kept_files_exact (store : ObjectStore) (base : StorePath) (objects : List ObjectMeta)
    (answered : store.list base = .ok objects) (columns : List String)
    (keep : OrderedMap.StringMap (Option String) → Bool) :
    ∃ listing, ParquetListing.list store base = .ok listing ∧
      ((∃ kept, listing.keptFiles columns keep = .ok kept) ↔ OneSpelling base objects columns) ∧
      ∀ kept, listing.keptFiles columns keep = .ok kept →
        (kept.Pairwise fun first second => display first.path ≤ display second.path) ∧
        ∃ chosen, kept.Perm chosen ∧
          Selected (fun object file => Reads base columns object file ∧
            keep file.partitionValues = true)
            objects chosen := by
  have perm := List.mergeSort_perm (dataFiles base objects) fun left right =>
    display left.path ≤ display right.path
  refine ⟨_, list_eq answered, ?_, ?_⟩
  · rw [← ensureOneSpelling_dataFiles perm]
    constructor
    · rintro ⟨kept, run⟩
      exact (keptFiles_eq_ok.mp run).1
    · exact fun checked => ⟨_, keptFiles_eq_ok.mpr ⟨checked, rfl⟩⟩
  · intro kept run
    obtain ⟨-, rfl⟩ := keptFiles_eq_ok.mp run
    refine ⟨pairwise_filterMap_keptFile (pairwise_mergeSort_path _), ?_⟩
    refine ⟨objects.filterMap (keptObject base columns keep), ?_, ?_⟩
    · rw [← filterMap_dataFiles]
      exact perm.filterMap _
    · exact selected_filterMap (fun _ _ => keptObject_eq_some) objects

/-! ## One file -/

/-- A table with one file in one directory. -/
def loneFile (directory : List Char) (legal : isKeySegment directory = true) : ObjectMeta where
  location := ⟨["t".toList, directory, "a.parquet".toList],
    List.forall_mem_cons.mpr ⟨rfl, List.forall_mem_cons.mpr ⟨legal, by decide⟩⟩⟩
  size := 1

def storeOf (objects : List ObjectMeta) : ObjectStore := ⟨fun _ => .ok objects, fun _ => .ok []⟩

def loneStore (object : ObjectMeta) : ObjectStore := storeOf [object]

def loneBase : StorePath := ⟨["t".toList], by decide⟩

end LakehouseEngine.PartitionDirectories

namespace LakehouseEngine.PartitionDirectories

section Instances

local instance directoriesUnicode : Unicode := Unicode.ascii

theorem loneFile_key {directory raw : List Char} {legal : isKeySegment directory = true}
    {key written : String}
    (data : DataFile loneBase (loneFile directory legal) [directory] "a.parquet".toList)
    (writes : KeyValue directory written raw)
    (keyed : DirectoryKey loneBase (loneFile directory legal) key) : key = written := by
  obtain ⟨directories, name, own, segment, member, other, otherWrites⟩ := keyed
  obtain rfl := own.unique data
  obtain rfl := List.mem_singleton.mp member
  exact (otherWrites.unique writes).1

/-- The files in `k=a%20b` and in `k=c` spell the key alike, and are kept when `K` is declared. -/
theorem kept_files_exact_two :
    ∃ listing, ParquetListing.list
        (storeOf [loneFile "k=a%20b".toList rfl, loneFile "k=c".toList rfl]) loneBase =
          .ok listing ∧
      ∃ kept, listing.keptFiles ["K"] (fun _ => true) = .ok kept := by
  obtain ⟨listing, listed, succeeds, -⟩ := kept_files_exact
    (storeOf [loneFile "k=a%20b".toList rfl, loneFile "k=c".toList rfl]) loneBase
    [loneFile "k=a%20b".toList rfl, loneFile "k=c".toList rfl] rfl ["K"] fun _ => true
  refine ⟨listing, listed, succeeds.mpr ?_⟩
  have only : ∀ object ∈ [loneFile "k=a%20b".toList rfl, loneFile "k=c".toList rfl],
      ∀ key, DirectoryKey loneBase object key → key = "k" := by
    intro object member key keyed
    simp only [List.mem_cons, List.not_mem_nil, or_false] at member
    rcases member with rfl | rfl
    · exact loneFile_key ⟨rfl, by decide, by decide, by decide⟩
        (⟨rfl, by decide, by decide⟩ : KeyValue _ _ "a%20b".toList) keyed
    · exact loneFile_key ⟨rfl, by decide, by decide, by decide⟩
        (⟨rfl, by decide, by decide⟩ : KeyValue _ _ "c".toList) keyed
  intro first firstIn second secondIn key other keyed otherKeyed column _ _ _
  exact (only first firstIn key keyed).trans (only second secondIn other otherKeyed).symm

/-- The decoded bytes of `%FF` are no text, and the column is bound to the raw text. -/
theorem undecodable_value_is_kept_raw :
    ∃ listing kept file, ParquetListing.list (loneStore (loneFile "k=%FF".toList rfl)) loneBase =
      .ok listing ∧
      listing.keptFiles ["k"] (fun _ => true) = .ok kept ∧ file ∈ kept ∧
      KeyValue "k=%FF".toList "k" "%FF".toList ∧
      file.partitionValues.entries.lookup "k" = some (some "%FF") ∧
      utf8Bytes "%FF".toList ≠ percentDecode "%FF".toList := by
  set file : ListedFile :=
    ⟨(loneFile "k=%FF".toList rfl).location, 1, [("k", some "%FF")]⟩ with file_eq
  have listed := @list_eq (loneStore (loneFile "k=%FF".toList rfl)) loneBase _ rfl
  have files : dataFiles loneBase [loneFile "k=%FF".toList rfl] = [file] := rfl
  rw [files, List.mergeSort_singleton] at listed
  have checked : ensureOneSpellingPerDeclaredKey [file] (["k"].map upper) = .ok () := by
    refine ensureOneSpelling_iff.mpr fun first member second other _ _ _ => ?_
    rw [List.mem_singleton.mp member, List.mem_singleton.mp other]
  have kept : (⟨[file]⟩ : ParquetListing).keptFiles ["k"] (fun _ => true) =
      .ok [⟨file.path, file.size, filledValues ["k"] file⟩] := keptFiles_eq_ok.mpr ⟨checked, rfl⟩
  have bound : (filledValues ["k"] file).entries.lookup "k" = some (some "%FF") := by
    refine (OrderedMap.lookup_collect_graph (fun key =>
      partitionValue file.partitionSegments (upper key))
      ["k"] "k").trans ?_
    simp [file_eq, partitionValue]
  exact ⟨_, _, _, listed, kept, List.mem_singleton.mpr rfl, ⟨rfl, by decide, by decide⟩,
    bound, by decide⟩

end Instances

end LakehouseEngine.PartitionDirectories
