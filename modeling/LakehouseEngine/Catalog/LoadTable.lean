import LakehouseEngine.Data.ListRelation
import LakehouseEngine.Text.Url

/-!
# Addressing a table

An identifier `level.level.table` is split at its dots.  The namespace is written into the
URL of the table percent-encoded, the name of the table as it stands, so the parse of the URL
decides which resource is loaded.
-/

namespace LakehouseEngine

structure NamespaceIdent where
  levels : List (List Char)
  nonempty : levels ≠ []
  deriving DecidableEq

def NamespaceIdent.fromVec (levels : List (List Char)) : Option NamespaceIdent :=
  if nonempty : levels ≠ [] then some { levels, nonempty } else none

inductive IdentError where
  | notQualified (qualified : List Char)
  | invalidNamespace (qualified : List Char)
  deriving DecidableEq, Repr

/-- The last segment is the table name, all preceding ones are the namespace. -/
def parseTableIdent (qualified : List Char) : Except IdentError (NamespaceIdent × List Char) :=
  let parts := qualified.splitOn '.'
  if parts.length < 2 then .error (.notQualified qualified)
  else
    match NamespaceIdent.fromVec parts.dropLast with
    | none => .error (.invalidNamespace qualified)
    | some ns => .ok (ns, parts.getLast?.getD [])

/-- The catalog's address and the prefix its configuration gives. -/
structure CatalogSession where
  catalogUri : List Char
  restPrefix : List Char
  deriving DecidableEq, Repr

def catalogUrl (session : CatalogSession) (path : List Char) : List Char :=
  let base := session.catalogUri.rdropWhile (· = '/')
  if session.restPrefix = [] then base ++ "/v1/".toList ++ path
  else base ++ "/v1/".toList ++ session.restPrefix ++ '/' :: path

def buildLoadTableUrl (session : CatalogSession) (ns tableName : List Char) : List Char :=
  catalogUrl session
    ("namespaces/".toList ++ ns ++ "/tables/".toList ++ tableName ++ "?snapshots=refs".toList)

/-- How the catalog client percent-encodes a namespace: whatever else it escapes, it escapes
what a URL parse decodes, cuts at, reads as `/` or removes. -/
structure NamespaceEncoding where
  escaped : Char → Bool
  reserved : ∀ c ∈ "%/\\?#\t\n\r".toList, escaped c = true

/-- The levels of a namespace, joined by the unit separator. -/
def NamespaceIdent.joined (ns : NamespaceIdent) : List Char := ['\x1f'].intercalate ns.levels

def NamespaceIdent.toUrlString (encoding : NamespaceEncoding) (ns : NamespaceIdent) : List Char :=
  percentEncode encoding.escaped ns.joined

/-- An identifier the adapter accepts. -/
structure TableIdent where
  qualified : List Char
  ns : NamespaceIdent
  name : List Char
  parsed : parseTableIdent qualified = .ok (ns, name)

/-- The URL that `load_table` requests. -/
def TableIdent.loadUrl (encoding : NamespaceEncoding) (session : CatalogSession)
    (table : TableIdent) : List Char :=
  buildLoadTableUrl session (table.ns.toUrlString encoding) table.name

/-! ## What a URL addresses -/

namespace Url

/-- The segments of the path, each decoded. -/
def decodedSegments (url : Url) : List (Option (List Char)) :=
  (url.path.splitOn '/').map decodeText

/-- What the server is asked for. -/
def resource (url : Url) : List (Option (List Char)) × Option (List Char) :=
  (url.decodedSegments, url.query)

end Url

/-- The URL addresses the table: its path ends in the table's own segments, and the query is
the one that was written. -/
def Url.Addresses (url : Url) (table : TableIdent) : Prop :=
  url.decodedSegments.rtake 4 =
      [some "namespaces".toList, some table.ns.joined, some "tables".toList, some table.name] ∧
    url.query = some "snapshots=refs".toList

instance (url : Url) (table : TableIdent) : Decidable (url.Addresses table) :=
  inferInstanceAs (Decidable (_ ∧ _))

/-- A session with an `http` or `https` catalog, whose address and prefix have no query and
no fragment. -/
structure WebSession (rules : Url.Rules) extends CatalogSession where
  scheme : List Char
  host : List Char
  authority : List Char
  base : List Char
  written : catalogUri.rdropWhile (· = '/') = scheme ++ "://".toList ++ host ++ base
  web : scheme.map Char.toLower = "http".toList ∨ scheme.map Char.toLower = "https".toList
  hosted : Url.Host rules (scheme.map Char.toLower) host authority
  rooted : ∀ c, base.head? = some c → c = '/'
  noMarks : ∀ c ∈ base ++ restPrefix, c ≠ '?' ∧ c ≠ '#'

namespace WebSession

variable {rules : Url.Rules}

/-- The text between the host and the namespace. -/
def front (session : WebSession rules) : List Char :=
  session.base ++ "/v1/".toList ++
    (if session.restPrefix = [] then [] else session.restPrefix ++ ['/'])

theorem catalogUrl_eq (session : WebSession rules) (path : List Char) :
    catalogUrl session.toCatalogSession path =
      session.scheme ++ "://".toList ++ session.host ++ (session.front ++ path) := by
  unfold catalogUrl front
  rw [session.written]
  split_ifs <;> simp

theorem front_eq (session : WebSession rules) :
    ∃ inner, session.front = '/' :: inner ++ ['/'] ∧ ∀ c ∈ inner, c ≠ '?' ∧ c ≠ '#' := by
  have marks := session.noMarks
  have version : ∀ c ∈ "v1".toList, c ≠ '?' ∧ c ≠ '#' := forall_mem_of_all (by decide)
  -- what stands between the first slash and the prefix
  obtain ⟨start, shape, startMarks⟩ : ∃ start, session.base ++
    "/v1/".toList = '/' :: start ++ ['/'] ∧
      ∀ c ∈ start, c ≠ '?' ∧ c ≠ '#' := by
    cases baseShape : session.base with
    | nil => exact ⟨"v1".toList, rfl, version⟩
    | cons first rest =>
        have slash : first = '/' := session.rooted first (by rw [baseShape]; rfl)
        refine ⟨rest ++ '/' :: "v1".toList, by simp [slash], ?_⟩
        intro c member
        rcases List.mem_append.mp member with member | member
        · exact marks c (by simp [baseShape, member])
        · rcases List.mem_cons.mp member with rfl | member
          · decide
          · exact version c member
  unfold front
  rw [shape]
  by_cases empty : session.restPrefix = []
  · exact ⟨start, by simp [empty], startMarks⟩
  · refine ⟨start ++ '/' :: session.restPrefix, by simp [empty], ?_⟩
    intro c member
    rcases List.mem_append.mp member with member | member
    · exact startMarks c member
    · rcases List.mem_cons.mp member with rfl | member
      · decide
      · exact marks c (by simp [member])

end WebSession

/-- Nothing in an encoded namespace ends its segment or is removed. -/
theorem mem_toUrlString {encoding : NamespaceEncoding} {ns : NamespaceIdent} {c : Char}
    (member : c ∈ ns.toUrlString encoding) :
    c ≠ '/' ∧ c ∉ "?#\\".toList ∧ Url.isTabOrNewline c = false := by
  have unreserved : c ∉ "/\\?#\t\n\r".toList := by
    intro listed
    have escaped : encoding.escaped c = true := by
      apply encoding.reserved
      exact List.mem_cons_of_mem _ listed
    rcases mem_percentEncode member with ⟨-, kept⟩ | rfl | digit
    · rw [escaped] at kept
      cases kept
    · exact absurd listed (by decide)
    · have noDigit : ∀ mark ∈ "/\\?#\t\n\r".toList, (hexValue mark).isSome = false :=
        forall_mem_of_all (by decide)
      rw [noDigit c listed] at digit
      cases digit
  simp_all [Url.isTabOrNewline]

namespace TableIdent

variable {rules : Url.Rules} {session : WebSession rules} {encoding : NamespaceEncoding}
  {table : TableIdent}

/-- What the parse keeps of the name. -/
def keptName (table : TableIdent) : List Char := table.name.filter (!Url.isTabOrNewline ·)

/-- The path from the namespaces on to the name. -/
def beforeName (encoding : NamespaceEncoding) (table : TableIdent) : List Char :=
  "namespaces/".toList ++ table.ns.toUrlString encoding ++ "/tables/".toList

theorem mem_beforeName {c : Char} (member : c ∈ table.beforeName encoding) :
    c ∉ "?#\\".toList ∧ Url.isTabOrNewline c = false := by
  have words : ∀ c ∈ "namespaces/".toList ++ "/tables/".toList,
      c ∉ "?#\\".toList ∧ Url.isTabOrNewline c = false := forall_mem_of_all (by decide)
  unfold beforeName at member
  rw [List.mem_append, List.mem_append] at member
  rcases member with (member | member) | member
  · exact words c (List.mem_append_left _ member)
  · exact (mem_toUrlString member).2
  · exact words c (List.mem_append_right _ member)

def snapshotsQuery : List Char := "snapshots=refs".toList

/-- The parse of the URL, cut in front of the namespaces. -/
theorem parse_loadUrl (session : WebSession rules) (encoding : NamespaceEncoding)
    (table : TableIdent) : ∃ front, (∀ c ∈ front, c ≠ '?' ∧ c ≠ '#') ∧
      Url.parse rules (table.loadUrl encoding session.toCatalogSession) =
        .ok (Url.assemble (session.scheme.map Char.toLower) session.authority
          ('/' :: front ++ '/' :: (table.beforeName encoding ++ table.keptName ++
            '?' :: snapshotsQuery))) := by
  obtain ⟨inner, front, innerMarks⟩ := session.front_eq
  have text : table.loadUrl encoding session.toCatalogSession =
      session.scheme ++ "://".toList ++ session.host ++ ('/' :: inner ++
        '/' :: (table.beforeName encoding ++ table.name ++ '?' :: snapshotsQuery)) := by
    rw [loadUrl, buildLoadTableUrl, session.catalogUrl_eq, front]
    unfold beforeName snapshotsQuery
    simp
  refine ⟨inner.filter (!Url.isTabOrNewline ·), ?_, ?_⟩
  · intro c member
    exact innerMarks c (List.mem_of_mem_filter member)
  · have valid : Url.isScheme (session.scheme.map Char.toLower) = true := by
      rcases session.web with web | web <;> rw [web] <;> decide
    rw [text, Url.parse_eq rules valid session.hosted]
    · have slash (text : List Char) : ('/' :: text).filter (!Url.isTabOrNewline ·) =
          '/' :: text.filter (!Url.isTabOrNewline ·) := rfl
      have before : (table.beforeName encoding).filter (!Url.isTabOrNewline ·) =
          table.beforeName encoding := by
        rw [List.filter_eq_self]
        intro c member
        simp [(mem_beforeName member).2]
      have query : ('?' :: snapshotsQuery).filter (!Url.isTabOrNewline ·) =
        '?' :: snapshotsQuery := by
        decide
      rw [List.filter_append, slash, slash, List.filter_append, List.filter_append, before, query,
        keptName]
    · simp [Url.endsAuthority]
    · intro c final
      have visible : ∀ c ∈ '?' :: snapshotsQuery, 0x20 < c.toNat := forall_mem_of_all (by decide)
      rw [← List.cons_append, ← List.append_assoc, List.getLast?_append_of_ne_nil _
        (by simp)] at final
      exact visible c (List.mem_of_getLast? final)

/-- The path ends in the table's segments, with the name split again. -/
theorem path_loadUrl (session : WebSession rules) (encoding : NamespaceEncoding)
    (table : TableIdent) : ∃ url read,
    Url.parse rules (table.loadUrl encoding session.toCatalogSession) = .ok url ∧
      url.path = Url.pathText (Url.resolve false read ("namespaces".toList ::
        table.ns.toUrlString encoding :: "tables".toList ::
          (Url.pathPart table.keptName).splitOn '/')) := by
  obtain ⟨front, marks, parsed⟩ := parse_loadUrl session encoding table
  have special : Url.isSpecial (session.scheme.map Char.toLower) = true ∧
      session.scheme.map Char.toLower ≠ Url.fileScheme := by
    rcases session.web with web | web <;> rw [web] <;> decide
  obtain ⟨read, path⟩ := Url.path_assemble special.1 special.2 marks
    (table.beforeName encoding ++ table.keptName ++ '?' :: snapshotsQuery)
  refine ⟨_, read, parsed, ?_⟩
  have part : Url.pathPart (table.beforeName encoding ++ table.keptName ++ '?' :: snapshotsQuery) =
      "namespaces".toList ++ '/' :: (table.ns.toUrlString encoding ++ '/' :: ("tables".toList ++
        '/' :: Url.pathPart table.keptName)) := by
    rw [List.append_assoc, Url.pathPart_append fun c member => (mem_beforeName member).1,
      Url.pathPart_query]
    unfold beforeName
    simp
  have whole (segment : List Char) (free : '/' ∉ segment) (rest : List Char) :
      (segment ++ '/' :: rest).splitOn '/' = segment :: rest.splitOn '/' := by
    have single : segment.splitOn '/' = [segment] := List.splitOn_eq_singleton free
    rw [List.splitOn, List.splitOnP_append_cons _ _ (by simp)]
    exact congrArg (· ++ _) single
  rw [path, part, whole _ (by decide), whole _ fun member => (mem_toUrlString member).1 rfl,
    whole _ (by decide)]

/-- A name that stands in a path as it is. -/
def isCleanName (name : List Char) : Bool :=
  name.all (fun c => !"/\\?#\t\n\r".toList.contains c) && !hasEscape name

theorem isCleanName_iff {name : List Char} : isCleanName name = true ↔
    (∀ c ∈ name, c ≠ '/' ∧ c ∉ "?#\\".toList ∧ Url.isTabOrNewline c = false) ∧
      hasEscape name = false := by
  simp only [isCleanName, Bool.and_eq_true, List.all_eq_true, Bool.not_eq_true']
  apply and_congr_left'
  apply forall₂_congr
  intro c _
  simp [Url.isTabOrNewline]
  tauto

theorem parseTableIdent_cases {qualified : List Char} {ns : NamespaceIdent} {name : List Char}
    (parsed : parseTableIdent qualified = .ok (ns, name)) :
    qualified.splitOn '.' = ns.levels ++ [name] := by
  unfold parseTableIdent at parsed
  simp only at parsed
  split_ifs at parsed with short
  split at parsed
  · cases parsed
  case h_2 found =>
    unfold NamespaceIdent.fromVec at found
    split_ifs at found with nonempty
    cases found
    cases parsed
    cases last : (qualified.splitOn '.').getLast? with
    | none => exact absurd (List.getLast?_eq_none_iff.mp last) (List.splitOn_ne_nil '.' qualified)
    | some name => exact (List.dropLast_append_getLast? name last).symm

/-- No part of an identifier has a dot. -/
theorem no_dot (table : TableIdent) {part : List Char}
    (member : part ∈ table.ns.levels ++ [table.name]) :
    '.' ∉ part := by
  rw [← parseTableIdent_cases table.parsed] at member
  exact not_mem_of_mem_splitOn member

theorem no_dot_joined (table : TableIdent) : '.' ∉ table.ns.joined := by
  intro member
  rcases mem_intercalate member with dot | ⟨level, inLevels, inLevel⟩
  · exact absurd dot (by decide)
  · exact table.no_dot (by simp [inLevels]) inLevel

theorem decodeText_toUrlString (encoding : NamespaceEncoding) (ns : NamespaceIdent) :
    decodeText (ns.toUrlString encoding) = some ns.joined := by
  have read := percentDecode_percentEncode (encoding.reserved '%' (by decide)) ns.joined []
  rw [List.append_nil] at read
  rw [decodeText, NamespaceIdent.toUrlString, read]
  simp [percentDecode]

/-- A segment that keeps its place in a path and decodes to a text. -/
structure Stays (segment text : List Char) : Prop where
  noSlash : '/' ∉ segment
  decoded : decodeText segment = some text
  noDot : '.' ∉ text

theorem slash_percentEncode {segment : List Char} (free : '/' ∉ segment) :
    '/' ∉ percentEncode Url.inPathSet segment := by
  intro member
  rcases mem_percentEncode member with ⟨inside, -⟩ | percent | digit
  · exact free inside
  · exact absurd percent (by decide)
  · exact absurd digit (by decide)

theorem decodeText_inPathSet (segment : List Char) :
    decodeText (percentEncode Url.inPathSet segment) = decodeText segment := by
  rw [decodeText, Url.percentDecode_inPathSet, decodeText]

theorem map_decodeText {segments texts : List (List Char)}
    (stay : List.Forall₂ Stays segments texts) :
    segments.map decodeText = texts.map some := by
  induction stay with
  | nil => rfl
  | cons head _ ih => rw [List.map_cons, List.map_cons, head.decoded, ih]

/-- A path that ends in segments which stay is decoded to their texts. -/
theorem decodedSegments_resolve {url : Url} {read segments texts : List (List Char)}
    (stay : List.Forall₂ Stays segments texts)
    (path : url.path = Url.pathText (Url.resolve false read segments)) :
    ∃ others, url.decodedSegments = others ++ texts.map some := by
  have each : ∀ segment ∈ segments, ∃ text, Stays segment text := by
    intro segment member
    obtain ⟨text, -, stays⟩ := exists_related_of_mem (List.Forall₂.flip stay) member
    exact ⟨text, stays⟩
  have notDots : ∀ segment ∈ segments, segment ∉ Url.doubleDots ∧ segment ∉ Url.singleDots := by
    intro segment member
    obtain ⟨text, stays⟩ := each segment member
    exact Url.not_dots_of_no_dot stays.decoded stays.noDot
  have free : ∀ segment ∈ segments.map (percentEncode Url.inPathSet), '/' ∉ segment := by
    intro segment member
    obtain ⟨source, inSegments, rfl⟩ := List.mem_map.mp member
    obtain ⟨text, stays⟩ := each source inSegments
    exact slash_percentEncode stays.noSlash
  rw [Url.resolve_plain false _ _ notDots] at path
  rw [Url.decodedSegments, path, Url.splitOn_pathText _ free, List.map_append, List.map_map]
  refine ⟨_, congrArg (_ ++ ·) ?_⟩
  rw [← map_decodeText stay]
  exact List.map_congr_left fun segment _ => decodeText_inPathSet segment

theorem addresses_of_clean {url : Url} (clean : isCleanName table.name = true)
    (parsed : Url.parse rules (table.loadUrl encoding session.toCatalogSession) = .ok url) :
    url.Addresses table := by
  obtain ⟨plain, unescaped⟩ := isCleanName_iff.mp clean
  have kept : table.keptName = table.name := by
    rw [keptName, List.filter_eq_self]
    intro c member
    simp [(plain c member).2.2]
  have part : Url.pathPart table.keptName = table.name := by
    have whole := Url.pathPart_append (fun c member => (plain c member).2.1) []
    simpa [kept, Url.pathPart] using whole
  have single : table.name.splitOn '/' = [table.name] :=
    List.splitOn_eq_singleton fun member => (plain '/' member).1 rfl
  constructor
  · obtain ⟨url', read, parsed', path⟩ := path_loadUrl session encoding table
    cases parsed'.symm.trans parsed
    rw [part, single] at path
    have stay : List.Forall₂ Stays
        ["namespaces".toList, table.ns.toUrlString encoding, "tables".toList, table.name]
        ["namespaces".toList, table.ns.joined, "tables".toList, table.name] := by
      refine .cons ⟨by decide, by decide +kernel, by decide⟩ (.cons ⟨?_, ?_, ?_⟩
        (.cons ⟨by decide, by decide +kernel, by decide⟩ (.cons ⟨?_, ?_, ?_⟩ .nil)))
      · exact fun member => (mem_toUrlString member).1 rfl
      · exact decodeText_toUrlString encoding table.ns
      · exact table.no_dot_joined
      · exact fun member => (plain '/' member).1 rfl
      · exact decodeText_unescaped unescaped
      · exact table.no_dot (by simp)
    obtain ⟨others, segments⟩ := decodedSegments_resolve stay path
    rw [segments]
    simp [List.rtake]
  · obtain ⟨front, marks, parsed'⟩ := parse_loadUrl session encoding table
    cases parsed'.symm.trans parsed
    have shape : '/' :: front ++ '/' :: (table.beforeName encoding ++ table.keptName ++
        '?' :: snapshotsQuery) = ('/' :: front ++
          '/' :: (table.beforeName encoding ++ table.name)) ++
          '?' :: snapshotsQuery := by
      simp [kept]
    rw [shape, Url.query_assemble]
    · cases Url.isSpecial (session.scheme.map Char.toLower) <;> decide +kernel
    · intro c member
      have unmarked {c : Char} (unlisted : c ∉ "?#\\".toList) : c ≠ '?' ∧ c ≠ '#' := by
        constructor <;> rintro rfl <;> exact unlisted (by decide)
      rcases List.mem_append.mp member with member | member
      · rcases List.mem_cons.mp member with rfl | member
        · decide
        · exact marks c member
      · rcases List.mem_cons.mp member with rfl | member
        · decide
        · rcases List.mem_append.mp member with member | member
          · exact unmarked (mem_beforeName member).1
          · exact unmarked (plain c member).2.1
    · decide

/-- A last segment that decodes to the whole name leaves nothing of the name out. -/
theorem clean_of_decoded {raw : List Char}
    (last : ((Url.pathPart table.keptName).splitOn '/').getLast? = some raw) (free : '/' ∉ raw)
    (decoded : decodeText raw = some table.name) : isCleanName table.name = true := by
  let cut := table.keptName.takeWhile fun c => c ≠ '?' && c ≠ '#'
  obtain ⟨part, partSuffix, mapped⟩ : ∃ part, part <:+ cut ∧ part.map Url.slashed = raw := by
    have under := suffix_of_getLast?_splitOn last
    rw [List.suffix_iff_eq_drop, Url.pathPart, ← List.map_drop] at under
    exact ⟨_, List.drop_suffix _ cut, under.symm⟩
  have plain : ∀ c ∈ part, c ≠ '/' ∧ c ≠ '\\' := by
    intro c member
    have noSlash : Url.slashed c ≠ '/' := fun slash =>
      free (mapped ▸ slash ▸ List.mem_map_of_mem member)
    constructor <;> rintro rfl <;> exact noSlash (by decide)
  have same : part = raw := by
    have each (c : Char) (member : c ∈ part) : Url.slashed c = id c := if_neg (plain c member).2
    rw [← mapped, List.map_congr_left each, List.map_id]
  have cutSub : cut.Sublist table.keptName := (List.takeWhile_prefix _).sublist
  have keptSub : table.keptName.Sublist table.name := List.filter_sublist
  have sub : raw.Sublist table.name := same ▸ (partSuffix.sublist.trans cutSub).trans keptSub
  have long : (percentDecode raw).length = (utf8Bytes table.name).length := by
    rw [← eq_utf8Bytes_of_fromUtf8 decoded]
  obtain ⟨short, shorter⟩ := length_percentDecode raw
  have whole : part = table.name := same ▸ eq_of_sublist_of_length_utf8Bytes sub (by omega)
  rw [isCleanName_iff, ← whole]
  refine ⟨?_, ?_⟩
  · intro c member
    have inCut := partSuffix.subset member
    have unmarked := List.mem_takeWhile_imp inCut
    have kept := List.of_mem_filter (cutSub.subset inCut)
    obtain ⟨noSlash, noBackslash⟩ := plain c member
    simp only [Bool.and_eq_true, decide_eq_true_eq] at unmarked
    exact ⟨noSlash, by simp [unmarked, noBackslash], by simpa using kept⟩
  · have equal : (utf8Bytes raw).length = (utf8Bytes table.name).length := by rw [← same, whole]
    rw [Bool.eq_false_iff, same]
    intro escape
    have := shorter escape
    omega

theorem clean_of_addresses {url : Url} (addressed : url.Addresses table)
    (parsed : Url.parse rules (table.loadUrl encoding session.toCatalogSession) = .ok url) :
    isCleanName table.name = true := by
  obtain ⟨url', read, parsed', path⟩ := path_loadUrl session encoding table
  cases parsed'.symm.trans parsed
  obtain ⟨raw, last⟩ : ∃ raw, ((Url.pathPart table.keptName).splitOn '/').getLast? = some raw := by
    cases last : ((Url.pathPart table.keptName).splitOn '/').getLast? with
    | none => exact absurd (List.getLast?_eq_none_iff.mp last) (List.splitOn_ne_nil _ _)
    | some raw => exact ⟨raw, rfl⟩
  have rawFree : '/' ∉ raw := not_mem_of_mem_splitOn (List.mem_of_getLast? last)
  obtain ⟨final, resolved, finalFree, decodes⟩ : ∃ final, (Url.resolve false read
      ("namespaces".toList :: table.ns.toUrlString encoding :: "tables".toList ::
        (Url.pathPart table.keptName).splitOn '/')).getLast? = some final ∧ '/' ∉ final ∧
      (decodeText final = some [] ∨ decodeText final = decodeText raw) := by
    have whole : ("namespaces".toList :: table.ns.toUrlString encoding :: "tables".toList ::
        (Url.pathPart table.keptName).splitOn '/').getLast? = some raw := by
      simp [List.getLast?_cons, last]
    rcases Url.getLast?_resolve read _ whole with final | final
    · exact ⟨[], final, by simp, .inl (by decide +kernel)⟩
    · exact ⟨_, final, slash_percentEncode rawFree, .inr (decodeText_inPathSet raw)⟩
  have named : decodeText final = some table.name := by
    obtain ⟨others, shape⟩ := List.getLast?_eq_some_iff.mp resolved
    have decoded := addressed.1
    rw [Url.decodedSegments, path, shape, Url.splitOn_pathText _ (by simpa using finalFree),
      List.map_append, List.map_singleton, List.rtake_concat_succ] at decoded
    have ends := congrArg List.getLast? decoded
    simpa using ends
  rcases decodes with empty | decodes
  · rw [empty, Option.some.injEq] at named
    rw [← named]
    decide
  · exact clean_of_decoded last rawFree (decodes ▸ named)

end TableIdent

/-- Two identifiers whose namespaces differ, but not once their levels are joined. -/
def SeparatorClash (first second : TableIdent) : Prop :=
  first.ns.joined = second.ns.joined ∧ first.name = second.name ∧ first.qualified ≠ second.qualified

/-- The URLs of two tables address them, and one resource only if they are one table, exactly
if each name stands in a path as it is and the identifiers do not differ in a separator
only. -/
theorem load_addresses_iff (rules : Url.Rules) (session : WebSession rules)
    (encoding : NamespaceEncoding) (first second : TableIdent) :
    (∃ firstUrl secondUrl,
      Url.parse rules (first.loadUrl encoding session.toCatalogSession) = .ok firstUrl ∧
      Url.parse rules (second.loadUrl encoding session.toCatalogSession) = .ok secondUrl ∧
      firstUrl.Addresses first ∧ secondUrl.Addresses second ∧
      (firstUrl.resource = secondUrl.resource → first.qualified = second.qualified)) ↔
    TableIdent.isCleanName first.name = true ∧ TableIdent.isCleanName second.name = true ∧
      ¬SeparatorClash first second := by
  obtain ⟨firstUrl, -, firstParsed, -⟩ := TableIdent.path_loadUrl session encoding first
  obtain ⟨secondUrl, -, secondParsed, -⟩ := TableIdent.path_loadUrl session encoding second
  simp only [firstParsed, secondParsed, Except.ok.injEq, exists_eq_left', exists_and_left]
  constructor
  · rintro ⟨firstAddressed, secondAddressed, same⟩
    refine ⟨TableIdent.clean_of_addresses firstAddressed firstParsed,
      TableIdent.clean_of_addresses secondAddressed secondParsed, ?_⟩
    rintro ⟨joined, name, different⟩
    apply different
    apply same
    have urls : first.loadUrl encoding session.toCatalogSession =
        second.loadUrl encoding session.toCatalogSession := by
      rw [TableIdent.loadUrl, TableIdent.loadUrl, NamespaceIdent.toUrlString,
        NamespaceIdent.toUrlString, joined, name]
    rw [urls, secondParsed, Except.ok.injEq] at firstParsed
    rw [firstParsed]
  · rintro ⟨firstClean, secondClean, noClash⟩
    have firstAddressed := TableIdent.addresses_of_clean firstClean firstParsed
    have secondAddressed := TableIdent.addresses_of_clean secondClean secondParsed
    refine ⟨firstAddressed, secondAddressed, ?_⟩
    intro same
    by_contra different
    have segments := firstAddressed.1
    rw [show firstUrl.decodedSegments = secondUrl.decodedSegments from congrArg Prod.fst same,
      secondAddressed.1] at segments
    simp only [List.cons.injEq, Option.some.injEq, true_and, and_true] at segments
    exact noClash ⟨segments.1.symm, segments.2.symm, different⟩

/-- A namespace as the client encodes it, with all but letters and digits escaped. -/
def NamespaceEncoding.nonAlphanumeric : NamespaceEncoding where
  escaped := fun c => !c.isAlphanum
  reserved := forall_mem_of_all (by decide)

/-- The catalog at `http://h/catalog`. -/
def WebSession.plain : WebSession .literal where
  catalogUri := "http://h/catalog".toList
  restPrefix := []
  scheme := "http".toList
  host := ['h']
  authority := ['h']
  base := "/catalog".toList
  written := by decide
  web := by decide
  hosted := Url.Host.normalized (by rfl : Url.Rules.literal.authority _ ['h'] = .ok ['h'])
  rooted := by simp
  noMarks := forall_mem_of_all (by decide)

/-- The table named `x/%2E%2E/t` is checked, and the URL built for it loads `t`. -/
theorem dotted_name_loads_other_table :
    let load := fun table : TableIdent =>
      (Url.parse .literal
        (table.loadUrl .nonAlphanumeric WebSession.plain.toCatalogSession)).toOption
    let checked : TableIdent :=
      ⟨"a.x/%2E%2E/t".toList, ⟨[['a']], by decide⟩, "x/%2E%2E/t".toList, rfl⟩
    let other : TableIdent := ⟨"a.t".toList, ⟨[['a']], by decide⟩, ['t'], rfl⟩
    load checked = load other ∧
      (load checked).all (fun url => url.Addresses other ∧ ¬url.Addresses checked) = true ∧
      (load checked).isSome := by
  decide +kernel

end LakehouseEngine
