import LakehouseEngine.Text.Url

/-!
# Object locations and their wire form

A location is a store root and a raw key.  The planner writes it into a scan entry with
the characters escaped that a URL parse would change, relative to the table root where it
lies below it, and the scan reads the entry back against the same root.
-/

namespace LakehouseEngine

/-! ## Keys -/

inductive KeyError where
  | emptySegment
  | illegalSegment (segment : List Char)
  | notUtf8
  deriving DecidableEq, Repr

def isAsciiControl (c : Char) : Bool := c.toNat < 0x20 || c.toNat = 0x7f

/-- A nonempty segment without `/` and control characters that is not a dot segment. -/
def isKeySegment (segment : List Char) : Bool :=
  segment ≠ [] && segment ≠ ['.'] && segment ≠ ['.', '.'] &&
    segment.all fun c => !isAsciiControl c && c ≠ '/'

/-- A key as its segments, none for the root of the store. -/
structure StorePath where
  segments : List (List Char)
  legal : ∀ segment ∈ segments, isKeySegment segment = true
  deriving DecidableEq

def stripLeadingSlash : List Char → List Char
  | '/' :: rest => rest
  | text => text

def stripTrailingSlash (text : List Char) : List Char :=
  if text.getLast? = some '/' then text.dropLast else text

namespace StorePath

def storeRoot : StorePath := ⟨[], by simp⟩

def raw (path : StorePath) : List Char := ['/'].intercalate path.segments

def parse (text : List Char) : Except KeyError StorePath :=
  let stripped := stripLeadingSlash text
  if stripped = [] then .ok storeRoot
  else
    let segments := (stripTrailingSlash stripped).splitOn '/'
    match found : segments.find? (!isKeySegment ·) with
    | none => .ok ⟨segments, by simpa using found⟩
    | some [] => .error .emptySegment
    | some segment => .error (.illegalSegment segment)

/-- A percent-encoded path, decoded once. -/
def fromUrlPath (text : List Char) : Except KeyError StorePath :=
  match decodeText text with
  | none => .error .notUtf8
  | some decoded => parse decoded

/-- The segments below `base`. -/
def prefixMatch (path base : StorePath) : Option (List (List Char)) :=
  if base.segments <+: path.segments then
    some (path.segments.drop base.segments.length)
  else none

def prefixMatches (path base : StorePath) : Bool := (path.prefixMatch base).isSome

theorem prefixMatch_eq_some {path base : StorePath} {segments : List (List Char)} :
    path.prefixMatch base = some segments ↔ path.segments = base.segments ++ segments := by
  rw [prefixMatch]
  constructor
  · intro matched
    split at matched
    · next below =>
        obtain ⟨rest, joined⟩ := below
        rw [← joined, List.drop_left, Option.some.injEq] at matched
        rw [← joined, matched]
    · cases matched
  · intro joined
    have below : base.segments <+: path.segments := ⟨segments, joined.symm⟩
    rw [if_pos below, joined, List.drop_left]

end StorePath

/-! ## Locations -/

inductive LocationError where
  | noScheme (location : List Char)
  | invalidLocation (location : List Char) (cause : String ⊕ KeyError)
  | invalidFileUrl (path : List Char) (cause : String ⊕ KeyError)
  | invalidListingUrl (uri : List Char) (cause : String ⊕ KeyError)
  | invalidFileUri (cause : String)
  | invalidStoreRoot (store : List Char) (cause : String)
  deriving DecidableEq, Repr

/-- What a URL parse decodes, cuts at, reads as `/` or trims, and all that is not ASCII. -/
def wireEscaped (c : Char) : Bool := "%#?\\ ".toList.contains c || 0x80 ≤ c.toNat

def escapeParts (parts : List (List Char)) : List Char :=
  ['/'].intercalate (parts.map (percentEncode wireEscaped))

@[ext]
structure ObjectLocation where
  storeRoot : Url
  key : StorePath
  deriving DecidableEq

/-- The `scheme://userinfo@host:port` slice of a URI, as a URL. -/
def storeRootUrl (rules : Url.Rules) (uri : List Char) : Except LocationError Url := do
  let url ← (Url.parse rules uri).mapError .invalidFileUri
  (Url.parse rules url.beforePath).mapError (.invalidStoreRoot url.beforePath)

def reconstructAbsUri (entryPath tableRoot : List Char) : List Char :=
  if "://".toList <:+: entryPath then entryPath
  else stripTrailingSlash tableRoot ++ '/' :: stripLeadingSlash entryPath

/-- Split at the first `://`. -/
def splitScheme : List Char → Option (List Char × List Char)
  | [] => none
  | c :: rest =>
      if "://".toList.isPrefixOf (c :: rest) then some ([], (c :: rest).drop 3)
      else (splitScheme rest).map fun (scheme, after) => (c :: scheme, after)

namespace ObjectLocation

/-- The key stands in the location as it is, so nothing is decoded. -/
def fromRaw (rules : Url.Rules) (location : List Char) : Except LocationError ObjectLocation :=
  match splitScheme location with
  | none | some ([], _) => .error (.noScheme location)
  | some (scheme, rest) => do
      let authority := rest.takeWhile (· ≠ '/')
      let key := (rest.dropWhile (· ≠ '/')).drop 1
      let key := key.rdropWhile (· = '/')
      let storeRoot ← (Url.parse rules (scheme ++ "://".toList ++ authority)).mapError
        fun cause => .invalidLocation location (.inl cause)
      let key ← (StorePath.parse key).mapError fun cause => .invalidLocation location (.inr cause)
      return { storeRoot, key }

/-- Read an absolute wire path as the scan does. -/
def parseWire (rules : Url.Rules) (path : List Char) : Except LocationError ObjectLocation := do
  let url ← (Url.parse rules path).mapError fun cause => .invalidFileUrl path (.inl cause)
  let key ← (StorePath.fromUrlPath url.path).mapError fun cause => .invalidFileUrl path (.inr cause)
  let storeRoot ← storeRootUrl rules url.text
  return { storeRoot, key }

def parseEntry (rules : Url.Rules) (entryPath tableRoot : List Char) :
    Except LocationError ObjectLocation :=
  parseWire rules (reconstructAbsUri entryPath tableRoot)

def rootStr (location : ObjectLocation) : List Char := location.storeRoot.beforePath

/-- The wire path relative to `root`, for an object strictly below it in the same store. -/
def relativeTo (location root : ObjectLocation) : Option (List Char) :=
  if location.storeRoot ≠ root.storeRoot then none
  else
    match location.key.prefixMatch root.key with
    | none | some [] => none
    | some below => some (escapeParts below)

def toWire (location : ObjectLocation) : List Char :=
  location.rootStr ++ '/' :: escapeParts location.key.segments

/-- The raw form, as a manifest or a positional delete names the object. -/
def display (location : ObjectLocation) : List Char :=
  location.rootStr ++ '/' :: location.key.raw

end ObjectLocation

/-! ## Paths of scan entries -/

def relativizePathToRoot (rules : Url.Rules) (path : List Char)
    (tableRoot : Option ObjectLocation) : List Char :=
  let relative :=
    (tableRoot.filter fun _ => "://".toList <:+: path).bind fun root =>
      (ObjectLocation.parseWire rules path).toOption.bind (·.relativeTo root)
  relative.getD path

/-! ## The wire text of a key -/

theorem legal_char {segment : List Char} (legal : isKeySegment segment = true) {c : Char}
    (member : c ∈ segment) : 0x20 ≤ c.toNat ∧ c ≠ '/' := by
  simp only [isKeySegment, Bool.and_eq_true, List.all_eq_true, isAsciiControl] at legal
  have plain := legal.2 c member
  simp at plain
  exact ⟨plain.1.1, plain.2⟩

/-- No escaped segment holds a character that a URL parse would act on. -/
theorem escaped_char {segment : List Char} (legal : isKeySegment segment = true) {c : Char}
    (member : c ∈ percentEncode wireEscaped segment) :
    0x20 < c.toNat ∧ c ∉ "/#?\\".toList := by
  rcases mem_percentEncode member with ⟨inSegment, unescaped⟩ | rfl | digit
  · obtain ⟨visible, slash⟩ := legal_char legal inSegment
    simp only [wireEscaped, Bool.or_eq_false_iff, decide_eq_false_iff_not, not_le] at unescaped
    have unlisted : c ∉ "%#?\\ ".toList := by simpa using unescaped.1
    simp only [String.reduceToList, List.mem_cons, List.not_mem_nil, or_false, not_or] at unlisted
    constructor
    · have notSpace : c.toNat ≠ ' '.toNat := fun same => unlisted.2.2.2.2 (Char.toNat_inj.mp same)
      have : ' '.toNat = 0x20 := by decide
      omega
    · simp [slash, unlisted]
  · decide
  · obtain ⟨low, -⟩ := Url.hexValue_range digit
    constructor
    · omega
    · intro listed
      have unread : ∀ mark ∈ "/#?\\".toList, (hexValue mark).isSome = false :=
        forall_mem_of_all (by decide)
      simp [unread c listed] at digit

theorem escaped_ne_nil {segment : List Char} (legal : isKeySegment segment = true) :
    percentEncode wireEscaped segment ≠ [] := by
  cases segment with
  | nil => simp [isKeySegment] at legal
  | cons c rest =>
      rcases percentEncode_cons wireEscaped c rest with ⟨-, shape⟩ | ⟨-, tail, shape⟩ <;>
        simp [shape]

theorem decodeText_escaped (text : List Char) :
    decodeText (percentEncode wireEscaped text) = some text := by
  have read := percentDecode_percentEncode (show wireEscaped '%' = true by decide) text []
  simp only [List.append_nil, percentDecode] at read
  simp [decodeText, read]

/-! ## Joined segments -/

/-- Nonempty texts without a slash, as a key or an escaped key has them. -/
def SlashFree (parts : List (List Char)) : Prop := ∀ part ∈ parts, part ≠ [] ∧ '/' ∉ part

theorem StorePath.slashFree (path : StorePath) : SlashFree path.segments := by
  intro part member
  have legal := path.legal part member
  constructor
  · rintro rfl
    simp [isKeySegment] at legal
  · intro slash
    exact (legal_char legal slash).2 rfl

variable {parts : List (List Char)}

theorem slashFree_escaped (legal : ∀ part ∈ parts, isKeySegment part = true) :
    SlashFree (parts.map (percentEncode wireEscaped)) := by
  intro text member
  obtain ⟨part, inParts, rfl⟩ := List.mem_map.mp member
  refine ⟨escaped_ne_nil (legal part inParts), ?_⟩
  intro slash
  exact (escaped_char (legal part inParts) slash).2 (by simp)

theorem intercalate_cons_cons (part next : List Char) (rest : List (List Char)) :
    ['/'].intercalate (part :: next :: rest) = part ++ '/' :: ['/'].intercalate (next :: rest) := by
  simp [List.intercalate]

theorem intercalate_append {front back : List (List Char)} (frontNonempty : front ≠ [])
    (backNonempty : back ≠ []) :
    ['/'].intercalate (front ++ back) =
      ['/'].intercalate front ++ '/' :: ['/'].intercalate back := by
  induction front with
  | nil => exact absurd rfl frontNonempty
  | cons part rest ih =>
      cases rest with
      | nil =>
          obtain ⟨next, others, rfl⟩ := List.exists_cons_of_ne_nil backNonempty
          simp [List.intercalate]
      | cons next rest =>
          have later := ih (by simp)
          simp only [List.cons_append, intercalate_cons_cons] at later ⊢
          rw [later]
          simp

/-- A joined text starts and ends inside a segment. -/
theorem SlashFree.ends (free : SlashFree parts) (nonempty : parts ≠ []) :
    (∃ c rest, ['/'].intercalate parts = c :: rest ∧ c ≠ '/') ∧
      ∃ c, (['/'].intercalate parts).getLast? = some c ∧ c ≠ '/' := by
  induction parts with
  | nil => exact absurd rfl nonempty
  | cons part rest ih =>
      obtain ⟨partNonempty, partFree⟩ := free part (by simp)
      obtain ⟨first, others, shape⟩ := List.exists_cons_of_ne_nil partNonempty
      have firstPlain : first ≠ '/' := fun same => partFree (by simp [shape, same])
      cases rest with
      | nil =>
          have single : ['/'].intercalate [part] = part := by simp [List.intercalate]
          rw [single]
          refine ⟨⟨first, others, shape, firstPlain⟩, part.getLast partNonempty,
            List.getLast?_eq_some_getLast partNonempty, ?_⟩
          intro same
          exact partFree (same ▸ List.getLast_mem partNonempty)
      | cons next rest =>
          obtain ⟨⟨head, tail, restShape, -⟩, last, final, lastPlain⟩ :=
            ih (fun part member => free part (by simp [member])) (by simp)
          rw [intercalate_cons_cons]
          refine ⟨⟨first, others ++ '/' :: ['/'].intercalate (next :: rest), by simp [shape],
            firstPlain⟩, last, ?_, lastPlain⟩
          rw [restShape] at final
          rw [List.getLast?_append, restShape, List.getLast?_cons_cons, final, Option.some_or]

theorem SlashFree.stripTrailingSlash (free : SlashFree parts) :
    stripTrailingSlash (['/'].intercalate parts) = ['/'].intercalate parts := by
  cases parts with
  | nil => rfl
  | cons part rest =>
      obtain ⟨-, c, final, plain⟩ := free.ends (by simp)
      simp [LakehouseEngine.stripTrailingSlash, final, plain]

/-- Two slashes never stand side by side in a joined text. -/
theorem SlashFree.no_double_slash (free : SlashFree parts)
    (before after : List Char) : ['/'].intercalate parts ≠ before ++ '/' :: '/' :: after := by
  induction parts generalizing before with
  | nil => simp [List.intercalate]
  | cons part rest ih =>
      have partFree := (free part (by simp)).2
      have restFree : SlashFree rest := fun part member => free part (by simp [member])
      intro same
      cases rest with
      | nil =>
          have single : part = before ++ '/' :: '/' :: after := by
            simpa [List.intercalate] using same
          exact partFree (by simp [single])
      | cons next rest =>
          rw [intercalate_cons_cons, List.append_eq_append_iff] at same
          rcases same with ⟨gap, rfl, tail⟩ | ⟨gap, inPart, tail⟩
          · cases gap with
            | nil =>
                -- the slash that joins is the first of the two
                obtain ⟨⟨c, others, shape, plain⟩, -⟩ := restFree.ends (by simp)
                simp only [List.nil_append, List.cons.injEq, true_and] at tail
                rw [shape] at tail
                exact plain (by simpa using congrArg List.head? tail)
            | cons c gap =>
                simp only [List.cons_append, List.cons.injEq] at tail
                exact ih restFree gap tail.2
          · cases gap with
            | nil =>
                obtain ⟨⟨c, others, shape, plain⟩, -⟩ := restFree.ends (by simp)
                simp only [List.nil_append, List.cons.injEq, true_and] at tail
                rw [shape] at tail
                exact plain (by simpa using (congrArg List.head? tail).symm)
            | cons c gap =>
                simp only [List.cons_append, List.cons.injEq] at tail
                rw [inPart, ← tail.1] at partFree
                simp at partFree

theorem StorePath.parse_of_splitOn {text : List Char} {path : StorePath}
    (nonempty : stripLeadingSlash text ≠ [])
    (cut : (stripTrailingSlash (stripLeadingSlash text)).splitOn '/' = path.segments) :
    StorePath.parse text = .ok path := by
  have legal : path.segments.find? (!isKeySegment ·) = none := by
    simpa using path.legal
  unfold StorePath.parse
  simp only [nonempty, if_false, cut]
  split
  case h_1 => rfl
  case h_2 found => simp [cut, legal] at found
  case h_3 found => simp [cut, legal] at found

theorem StorePath.parse_pathText (path : StorePath) :
    StorePath.parse ('/' :: path.raw) = .ok path := by
  by_cases empty : path.segments = []
  · have root : path = StorePath.storeRoot := by
      cases path
      simpa [StorePath.storeRoot] using empty
    rw [root]
    rfl
  · obtain ⟨⟨c, rest, shape, -⟩, -⟩ := path.slashFree.ends empty
    apply StorePath.parse_of_splitOn
    · simp [stripLeadingSlash, StorePath.raw, shape]
    · rw [show stripLeadingSlash ('/' :: path.raw) = ['/'].intercalate path.segments from rfl,
        path.slashFree.stripTrailingSlash, List.splitOn_intercalate]
      · exact fun part member => (path.slashFree part member).2
      · exact empty

/-! ## Reading an entry back -/

/-- A location whose store root is a `scheme://authority` in normal form. -/
structure RootedLocation (rules : Url.Rules) extends ObjectLocation where
  normal : storeRoot.Normal rules

namespace ObjectLocation

/-- What the scan makes of a location's wire form: nothing behind the authority of the store
root is written. -/
def readBack (location : ObjectLocation) : ObjectLocation :=
  { location with storeRoot := location.storeRoot.root }

end ObjectLocation

/-- The segments of a wire path. -/
def wireParts (parts : List (List Char)) : List (List Char) :=
  if parts = [] then [[]] else parts.map (percentEncode wireEscaped)

theorem pathText_wireParts (parts : List (List Char)) :
    Url.pathText (wireParts parts) = '/' :: escapeParts parts := by
  by_cases empty : parts = []
  · simp [wireParts, empty, escapeParts, Url.pathText, List.intercalate]
  · rw [wireParts, if_neg empty, Url.pathText_eq_cons (by simpa using empty), escapeParts]

theorem plain_wireParts (path : StorePath) : Url.Plain (wireParts path.segments) where
  ne_nil := by
    unfold wireParts
    split <;> simp_all
  char := by
    intro text member c inText
    unfold wireParts at member
    split at member
    · simp_all
    · obtain ⟨segment, inPath, rfl⟩ := List.mem_map.mp member
      exact escaped_char (path.legal segment inPath) inText
  decoded := by
    intro text member
    unfold wireParts at member
    split at member
    · rw [List.mem_singleton.mp member]
      decide +kernel
    · obtain ⟨segment, inPath, rfl⟩ := List.mem_map.mp member
      rw [decodeText_escaped]
      have legal := path.legal segment inPath
      constructor <;>
      · intro same
        rw [Option.some.injEq] at same
        simp [same, isKeySegment] at legal

/-- The path of a wire URL decodes to the key. -/
theorem fromUrlPath_wireParts (path : StorePath) :
    StorePath.fromUrlPath
      (Url.pathText ((wireParts path.segments).map (percentEncode Url.inPathSet))) =
      .ok path := by
  have joined : Url.pathText (wireParts path.segments) =
      percentEncode wireEscaped ('/' :: path.raw) := by
    by_cases empty : path.segments = []
    · simp [wireParts, empty, StorePath.raw, Url.pathText, List.intercalate, percentEncode,
        wireEscaped]
    · rw [wireParts, if_neg empty, Url.pathText_map_percentEncode (by decide),
        Url.pathText_eq_cons empty]
      rfl
  have read : decodeText (Url.pathText ((wireParts path.segments).map
      (percentEncode Url.inPathSet))) = some ('/' :: path.raw) := by
    rw [Url.pathText_map_percentEncode (by decide), decodeText, Url.percentDecode_inPathSet, joined]
    exact decodeText_escaped _
  rw [StorePath.fromUrlPath, read]
  exact path.parse_pathText

namespace ObjectLocation

variable {rules : Url.Rules} {location : ObjectLocation}

theorem parseWire_eq {path : List Char} {url root : Url} {key : StorePath}
    (read : Url.parse rules path = .ok url) (keyRead : StorePath.fromUrlPath url.path = .ok key)
    (rootRead : storeRootUrl rules url.text = .ok root) :
    parseWire rules path = .ok { storeRoot := root, key } := by
  simp [parseWire, read, keyRead, rootRead, Except.mapError, bind, Except.bind, pure, Except.pure]

/-- The URL that the wire form of a location is read as. -/
def wireUrl (location : ObjectLocation) : Url :=
  { location.storeRoot.root with
    path := Url.pathText ((wireParts location.key.segments).map (percentEncode Url.inPathSet)) }

theorem parse_toWire (normal : location.storeRoot.Normal rules) :
    Url.parse rules location.toWire = .ok location.wireUrl := by
  have plain := plain_wireParts location.key
  have wire : location.toWire =
      location.storeRoot.beforePath ++ Url.pathText (wireParts location.key.segments) := by
    rw [pathText_wireParts]
    rfl
  rw [wire, normal.parse_pathText plain, plain.assemble]
  rfl

/-- The URL is written as it is read, so its store root is found again. -/
theorem storeRootUrl_wireUrl (normal : location.storeRoot.Normal rules) :
    storeRootUrl rules location.wireUrl.text = .ok location.storeRoot.root := by
  have plain := (plain_wireParts location.key).percentEncode
  have text : location.wireUrl.text = location.storeRoot.beforePath ++
      Url.pathText ((wireParts location.key.segments).map (percentEncode Url.inPathSet)) := by
    simp [Url.text, wireUrl, Url.root, Url.beforePath]
  rw [storeRootUrl, text, normal.parse_pathText plain, plain.assemble]
  have root := normal.parse_beforePath
  simp only [Url.beforePath] at root
  simp only [Except.mapError, bind, Except.bind, Url.beforePath, root]

theorem parseWire_toWire (normal : location.storeRoot.Normal rules) :
    parseWire rules location.toWire = .ok location.readBack := by
  apply parseWire_eq (parse_toWire normal)
  · exact fromUrlPath_wireParts location.key
  · exact storeRootUrl_wireUrl normal

theorem relativeTo_eq_some {location root : ObjectLocation} {relative : List Char}
    (found : location.relativeTo root = some relative) :
    location.storeRoot = root.storeRoot ∧ ∃ below, below ≠ [] ∧
      location.key.segments = root.key.segments ++ below ∧ relative = escapeParts below := by
  unfold relativeTo at found
  split_ifs at found with other
  refine ⟨not_not.mp other, ?_⟩
  unfold StorePath.prefixMatch at found
  split_ifs at found with under
  split at found
  · cases found
  · cases found
  case h_3 below nonempty shape =>
    rw [Option.some.injEq] at shape found
    refine ⟨below, nonempty, ?_, found.symm⟩
    rw [← shape]
    exact (List.prefix_iff_eq_append.mp under).symm

/-- The location of an entry below a root. -/
def below (root : ObjectLocation) (parts : List (List Char))
    (legal : ∀ part ∈ parts, isKeySegment part = true) : ObjectLocation where
  storeRoot := root.storeRoot
  key :=
    { segments := root.key.segments ++ parts
      legal := by
        intro segment member
        rcases List.mem_append.mp member with member | member
        · exact root.key.legal segment member
        · exact legal segment member }

theorem escapeParts_append {front back : List (List Char)} (frontNonempty : front ≠ [])
    (backNonempty : back ≠ []) :
    escapeParts (front ++ back) = escapeParts front ++ '/' :: escapeParts back := by
  rw [escapeParts, List.map_append, intercalate_append (by simpa using frontNonempty)
    (by simpa using backNonempty), escapeParts, escapeParts]

/-- A relative entry is joined to the root's own wire form. -/
theorem reconstructAbsUri_relative (root : ObjectLocation) {parts : List (List Char)}
    (legal : ∀ part ∈ parts, isKeySegment part = true) (nonempty : parts ≠ []) :
    reconstructAbsUri (escapeParts parts) root.toWire = (root.below parts legal).toWire := by
  have free := slashFree_escaped legal
  have mapped : parts.map (percentEncode wireEscaped) ≠ [] := by simpa using nonempty
  have relative : ¬"://".toList <:+: escapeParts parts := by
    rintro ⟨before, after, shape⟩
    apply free.no_double_slash (before ++ [':']) after
    rw [← escapeParts, ← shape]
    simp
  obtain ⟨⟨first, others, shape, firstPlain⟩, -⟩ := free.ends mapped
  have unstripped : stripLeadingSlash (escapeParts parts) = escapeParts parts := by
    rw [escapeParts, shape]
    unfold stripLeadingSlash
    split
    · simp_all
    · rfl
  rw [reconstructAbsUri, if_neg relative, unstripped]
  by_cases empty : root.key.segments = []
  · have bare : root.toWire = root.rootStr ++ ['/'] := by
      simp [toWire, empty, escapeParts, List.intercalate]
    have stripped : stripTrailingSlash (root.rootStr ++ ['/']) = root.rootStr := by
      simp [stripTrailingSlash]
    rw [bare, stripped]
    simp [toWire, below, rootStr, empty]
  · obtain ⟨-, last, final, lastPlain⟩ :=
      (slashFree_escaped root.key.legal).ends (by simpa using empty)
    have ending : root.toWire.getLast? = some last := by
      rw [toWire, List.getLast?_append_cons, escapeParts, List.getLast?_cons, final]
      rfl
    rw [stripTrailingSlash, ending, if_neg (by simpa using lastPlain)]
    simp [toWire, below, rootStr, escapeParts_append empty nonempty]

/-- Reading back treats an entry below the root as it treats the location itself. -/
theorem readBack_below {location root : ObjectLocation} {parts : List (List Char)}
    (legal : ∀ part ∈ parts, isKeySegment part = true)
    (sameRoot : location.readBack.storeRoot = root.readBack.storeRoot)
    (under : location.key.segments = root.key.segments ++ parts) :
    (root.below parts legal).readBack = location.readBack := by
  refine ObjectLocation.ext sameRoot.symm ?_
  cases key : location.key
  simp only [readBack, below, key, StorePath.mk.injEq]
  simpa [key] using under.symm

/-- The scan reads every entry the planner writes as the location's own wire form. -/
theorem parseEntry_relativize {root : ObjectLocation} (normal : location.storeRoot.Normal rules)
    (rootNormal : root.storeRoot.Normal rules) :
    parseEntry rules
      (relativizePathToRoot rules location.toWire (parseWire rules root.toWire).toOption)
      root.toWire = .ok location.readBack := by
  have absolute : "://".toList <:+: location.toWire :=
    ⟨location.storeRoot.scheme, location.storeRoot.authority ++
      '/' :: escapeParts location.key.segments, by simp [toWire, rootStr, Url.beforePath]⟩
  have entry : relativizePathToRoot rules location.toWire (parseWire rules root.toWire).toOption =
      (location.readBack.relativeTo root.readBack).getD location.toWire := by
    simp only [relativizePathToRoot, parseWire_toWire normal, parseWire_toWire rootNormal,
      Except.toOption, absolute, decide_true, Option.filter_some, if_true, Option.bind_some]
  rw [entry]
  cases found : location.readBack.relativeTo root.readBack with
  | none =>
      rw [Option.getD_none, parseEntry, reconstructAbsUri, if_pos absolute]
      exact parseWire_toWire normal
  | some relative =>
      obtain ⟨sameRoot, parts, nonempty, under, rfl⟩ := relativeTo_eq_some found
      have legal : ∀ part ∈ parts, isKeySegment part = true := by
        intro part member
        apply location.readBack.key.legal
        simp [under, member]
      rw [Option.getD_some, parseEntry, reconstructAbsUri_relative root legal nonempty,
        parseWire_toWire (by exact rootNormal), readBack_below legal sameRoot under]

/-- A store root with nothing behind its authority. -/
def SurvivesWire (location : ObjectLocation) : Prop := location.storeRoot.root = location.storeRoot

theorem readBack_eq_self_iff : location.readBack = location ↔ location.SurvivesWire :=
  ⟨congrArg ObjectLocation.storeRoot, fun bare => ObjectLocation.ext bare rfl⟩

end ObjectLocation

instance (location : ObjectLocation) : Decidable location.SurvivesWire :=
  inferInstanceAs (Decidable (_ = _))

/-- The entry the planner writes for a location, relative to the table root below it. -/
def wireEntry (rules : Url.Rules) (root location : ObjectLocation) : List Char :=
  relativizePathToRoot rules location.toWire (ObjectLocation.parseWire rules root.toWire).toOption

/-- The scan reads an entry back as the location it was written for exactly if nothing stands
behind the authority of its store root; such locations never share an entry. -/
theorem wire_round_trip_iff (rules : Url.Rules) (location root : RootedLocation rules) :
    (ObjectLocation.parseEntry rules (wireEntry rules root.toObjectLocation
        location.toObjectLocation) root.toWire = .ok location.toObjectLocation ↔
      location.SurvivesWire) ∧
    ∀ other : RootedLocation rules, location.SurvivesWire → other.SurvivesWire →
      wireEntry rules root.toObjectLocation location.toObjectLocation =
        wireEntry rules root.toObjectLocation other.toObjectLocation →
      location.toObjectLocation = other.toObjectLocation := by
  have read (location : RootedLocation rules) : ObjectLocation.parseEntry rules
      (wireEntry rules root.toObjectLocation location.toObjectLocation) root.toWire =
        .ok location.readBack :=
    ObjectLocation.parseEntry_relativize location.normal root.normal
  constructor
  · rw [read, Except.ok.injEq, ObjectLocation.readBack_eq_self_iff]
  · intro other survives otherSurvives same
    have both := read other
    rw [← same, read location, Except.ok.injEq, ObjectLocation.readBack_eq_self_iff.mpr survives,
      ObjectLocation.readBack_eq_self_iff.mpr otherSurvives] at both
    exact both

/-- A key of the bucket `b`, with what its address has behind the bucket's name. -/
def bucketKey (query : Option (List Char)) (segments : List (List Char))
    (legal : ∀ segment ∈ segments, isKeySegment segment = true) :
    RootedLocation Url.Rules.literal where
  storeRoot := { scheme := "s3".toList, authority := ['b'], path := [], query, fragment := none }
  key := { segments, legal }
  normal := ⟨rfl, rfl, rfl⟩

/-- Characters that a URL parse would act on come back below the root. -/
theorem wire_round_trip_reserved :
    let root := bucketKey none ["t#".toList] (by decide)
    let location := bucketKey none ["t#".toList, "a%2F?b \\".toList] (by decide)
    location.SurvivesWire ∧
      ObjectLocation.parseEntry .literal (wireEntry .literal root.toObjectLocation
        location.toObjectLocation) root.toWire = .ok location.toObjectLocation :=
  ⟨by decide, (wire_round_trip_iff .literal
    (bucketKey none ["t#".toList, "a%2F?b \\".toList] (by decide))
    (bucketKey none ["t#".toList] (by decide))).1.mpr (by decide)⟩

/-- The addresses `s3://b?x/k` and `s3://b/k` are two locations with one entry, and the first is
read back as the second. -/
theorem query_root_shares_entry :
    let root := bucketKey none [['t']] (by decide)
    let marked := bucketKey (some ['x']) [['k']] (by decide)
    let plain := bucketKey none [['k']] (by decide)
    (ObjectLocation.fromRaw .literal "s3://b?x/k".toList).toOption = some marked.toObjectLocation ∧
      (ObjectLocation.fromRaw .literal "s3://b/k".toList).toOption = some plain.toObjectLocation ∧
      wireEntry .literal root.toObjectLocation marked.toObjectLocation =
        wireEntry .literal root.toObjectLocation plain.toObjectLocation ∧
      (ObjectLocation.parseEntry .literal (wireEntry .literal root.toObjectLocation
        marked.toObjectLocation) root.toWire).toOption = some plain.toObjectLocation ∧
      plain.toObjectLocation ≠ marked.toObjectLocation := by
  decide +kernel

end LakehouseEngine
