import LakehouseEngine.Data.ListRelation
import Mathlib.Data.List.DropRight
import Mathlib.Data.List.Infix
import Mathlib.Tactic.Common

/-!
# Percent-encoding and URLs

The part of URL parsing that decides which resource a hierarchical URL names:
percent-encoding, the dot segments of the path, and the split into scheme, authority, path,
query and fragment.  The parsing of hosts is left to the parameters collected in `Url.Rules`.
-/

namespace LakehouseEngine

/-! ## Percent-encoding -/

def utf8Bytes (text : List Char) : List UInt8 := text.flatMap String.utf8EncodeChar

def fromUtf8 (bytes : List UInt8) : Option (List Char) :=
  (String.fromUTF8? bytes.toByteArray).map String.toList

@[simp] theorem fromUtf8_utf8Bytes (text : List Char) : fromUtf8 (utf8Bytes text) = some text := by
  have read : String.fromUTF8? text.utf8Encode = some (String.ofList text) :=
    dif_pos ⟨text, rfl⟩
  simp [fromUtf8, utf8Bytes, show (text.flatMap String.utf8EncodeChar).toByteArray =
    text.utf8Encode from rfl, read]

section Escapes

variable {text : List Char} {escaped : Char → Bool}

theorem eq_utf8Bytes_of_fromUtf8 {bytes : List UInt8}
    (read : fromUtf8 bytes = some text) : bytes = utf8Bytes text := by
  have valid : bytes.toByteArray.IsValidUTF8 := by
    by_contra invalid
    simp [fromUtf8, String.fromUTF8?, invalid] at read
  obtain ⟨written, same⟩ := valid
  have bytesSame : bytes = utf8Bytes written := List.toByteArray_inj.mp same
  rw [bytesSame, fromUtf8_utf8Bytes, Option.some.injEq] at read
  rw [bytesSame, read]

theorem utf8Bytes_injective {left right : List Char} (same : utf8Bytes left = utf8Bytes right) :
    left = right := by
  have read := congrArg fromUtf8 same
  simpa using read

def hexDigit (value : Nat) : Char :=
  if value < 10 then Char.ofNat (48 + value) else Char.ofNat (55 + value)

def hexValue (c : Char) : Option Nat :=
  if '0' ≤ c ∧ c ≤ '9' then some (c.toNat - 48)
  else if 'A' ≤ c ∧ c ≤ 'F' then some (c.toNat - 55)
  else if 'a' ≤ c ∧ c ≤ 'f' then some (c.toNat - 87)
  else none

theorem hexValue_hexDigit : ∀ value < 16, hexValue (hexDigit value) = some value := by
  decide

def percentByte (byte : UInt8) : List Char :=
  ['%', hexDigit (byte.toNat / 16), hexDigit (byte.toNat % 16)]

/-- Every character of the set `escaped` becomes the escapes of its UTF-8 bytes. -/
def percentEncode (escaped : Char → Bool) (text : List Char) : List Char :=
  text.flatMap fun c =>
    if escaped c then (String.utf8EncodeChar c).flatMap percentByte else [c]

/-- A `%` that two hexadecimal digits do not follow stands for itself. -/
def percentDecode : List Char → List UInt8
  | [] => []
  | '%' :: high :: low :: rest =>
      match hexValue high, hexValue low with
      | some high, some low => UInt8.ofNat (16 * high + low) :: percentDecode rest
      | _, _ => String.utf8EncodeChar '%' ++ percentDecode (high :: low :: rest)
  | c :: rest => String.utf8EncodeChar c ++ percentDecode rest

/-- The text starts with two hexadecimal digits. -/
def hexPair : List Char → Bool
  | high :: low :: _ => (hexValue high).isSome && (hexValue low).isSome
  | _ => false

/-- Percent-decoding to text, which fails on bytes that are not UTF-8. -/
def decodeText (text : List Char) : Option (List Char) := fromUtf8 (percentDecode text)

theorem percentDecode_cons {c : Char} (plain : c ≠ '%') (rest : List Char) :
    percentDecode (c :: rest) = String.utf8EncodeChar c ++ percentDecode rest := by
  cases rest with
  | nil => simp [percentDecode]
  | cons second rest =>
      cases rest with
      | nil => simp [percentDecode]
      | cons third rest => simp [percentDecode, plain]

theorem percentDecode_percentByte (byte : UInt8) (rest : List Char) :
    percentDecode (percentByte byte ++ rest) = byte :: percentDecode rest := by
  have bound : byte.toNat < 256 := byte.toNat_lt_size
  have halves : 16 * (byte.toNat / 16) + byte.toNat % 16 = byte.toNat := by omega
  have high := hexValue_hexDigit (byte.toNat / 16) (by omega)
  have low := hexValue_hexDigit (byte.toNat % 16) (by omega)
  simp [percentByte, percentDecode, high, low, halves]

theorem percentDecode_escapes (bytes : List UInt8) (rest : List Char) :
    percentDecode (bytes.flatMap percentByte ++ rest) = bytes ++ percentDecode rest := by
  induction bytes with
  | nil => simp
  | cons byte bytes ih =>
      rw [List.flatMap_cons, List.append_assoc, percentDecode_percentByte, ih, List.cons_append]

/-- What an encoder that escapes `%` writes is read back. -/
theorem percentDecode_percentEncode (percent : escaped '%' = true)
    (text rest : List Char) :
    percentDecode (percentEncode escaped text ++ rest) = utf8Bytes text ++ percentDecode rest := by
  induction text with
  | nil => simp [percentEncode, utf8Bytes]
  | cons c text ih =>
      have step : percentEncode escaped (c :: text) ++ rest =
          (if escaped c then (String.utf8EncodeChar c).flatMap percentByte else [c]) ++
            (percentEncode escaped text ++ rest) := by
        simp [percentEncode]
      rw [step]
      by_cases special : escaped c = true
      · rw [if_pos special, percentDecode_escapes, ih]
        simp [utf8Bytes]
      · have plain : c ≠ '%' := fun same => special (same ▸ percent)
        rw [if_neg special, List.singleton_append, percentDecode_cons plain, ih]
        simp [utf8Bytes]

theorem percentDecode_percent {rest : List Char} (bare : hexPair rest = false) :
    percentDecode ('%' :: rest) = String.utf8EncodeChar '%' ++ percentDecode rest := by
  cases rest with
  | nil => rfl
  | cons high rest =>
      cases rest with
      | nil => simp [percentDecode]
      | cons low rest =>
          cases highRead : hexValue high with
          | none => simp [percentDecode, highRead]
          | some value =>
              have lowRead : hexValue low = none := by simpa [hexPair, highRead] using bare
              simp [percentDecode, highRead, lowRead]

theorem utf8EncodeChar_ne_nil (c : Char) : String.utf8EncodeChar c ≠ [] := by
  intro empty
  have length := String.length_utf8EncodeChar c
  rw [empty] at length
  have positive := c.utf8Size_pos
  simp at length
  omega

/-- The first character an encoder writes is the first character it reads, or a `%`. -/
theorem percentEncode_cons (escaped : Char → Bool) (c : Char) (text : List Char) :
    (escaped c = false ∧ percentEncode escaped (c :: text) = c :: percentEncode escaped text) ∨
    (escaped c = true ∧ ∃ rest, percentEncode escaped (c :: text) = '%' :: rest) := by
  cases special : escaped c with
  | false => exact .inl ⟨rfl, by simp [percentEncode, special]⟩
  | true =>
      refine .inr ⟨rfl, ?_⟩
      obtain ⟨byte, bytes, shape⟩ := List.exists_cons_of_ne_nil (utf8EncodeChar_ne_nil c)
      simp [percentEncode, special, shape, percentByte]

/-- An encoder that leaves `%` and the hexadecimal digits alone changes no escape. -/
theorem hexPair_percentEncode
    (digits : ∀ c, (hexValue c).isSome → escaped c = false) (text : List Char) :
    hexPair (percentEncode escaped text) = hexPair text := by
  have percent : hexValue '%' = none := by decide
  have blocked : ∀ c, escaped c = true → hexValue c = none := by
    intro c special
    cases read : hexValue c with
    | none => rfl
    | some value => simp [digits c (by simp [read])] at special
  cases text with
  | nil => rfl
  | cons high text =>
      rcases percentEncode_cons escaped high text with ⟨-, shape⟩ | ⟨special, rest, shape⟩
      · rw [shape]
        cases text with
        | nil => rfl
        | cons low text =>
            rcases percentEncode_cons escaped low text with ⟨-, inner⟩ | ⟨special, rest, inner⟩
            · rw [inner]
              rfl
            · simp [inner, hexPair, percent, blocked low special]
      · rw [shape]
        cases rest <;> cases text <;> simp [hexPair, percent, blocked high special]

theorem percentDecode_reencode (percent : escaped '%' = false)
    (digits : ∀ c, (hexValue c).isSome → escaped c = false) (text : List Char) :
    percentDecode (percentEncode escaped text) = percentDecode text := by
  fun_induction percentDecode text with
  | case1 => rfl
  | case2 high low rest highValue lowValue lowRead highRead ih =>
      have kept : percentEncode escaped ('%' :: high :: low :: rest) =
          '%' :: high :: low :: percentEncode escaped rest := by
        simp [percentEncode, percent, digits high (by simp [highRead]),
          digits low (by simp [lowRead])]
      rw [kept]
      simp [percentDecode, highRead, lowRead, ih]
  | case3 high low rest unread ih =>
      have bare : hexPair (high :: low :: rest) = false := by
        simp only [hexPair, Bool.and_eq_false_iff]
        cases highRead : hexValue high with
        | none => simp
        | some highValue =>
            cases lowRead : hexValue low with
            | none => simp
            | some lowValue => exact (unread highValue lowValue highRead lowRead).elim
      have kept : percentEncode escaped ('%' :: high :: low :: rest) =
          '%' :: percentEncode escaped (high :: low :: rest) := by
        simp [percentEncode, percent]
      rw [kept, percentDecode_percent (by rw [hexPair_percentEncode digits, bare]), ih]
  | case4 c rest short ih =>
      by_cases sign : c = '%'
      · have bare : hexPair rest = false := by
          cases rest with
          | nil => rfl
          | cons high rest =>
              cases rest with
              | nil => rfl
              | cons low rest => exact (short high low rest sign rfl).elim
        have kept : percentEncode escaped (c :: rest) = '%' :: percentEncode escaped rest := by
          simp [percentEncode, sign, percent]
        rw [kept, percentDecode_percent (by rw [hexPair_percentEncode digits, bare]), ih, sign]
      · cases special : escaped c with
        | false =>
            have kept : percentEncode escaped (c :: rest) = c :: percentEncode escaped rest := by
              simp [percentEncode, special]
            rw [kept, percentDecode_cons sign, ih]
        | true =>
            have written : percentEncode escaped (c :: rest) =
                (String.utf8EncodeChar c).flatMap percentByte ++ percentEncode escaped rest := by
              simp [percentEncode, special]
            rw [written, percentDecode_escapes, ih]

/-- Whether a percent sign stands in front of two hexadecimal digits. -/
def hasEscape : List Char → Bool
  | [] => false
  | c :: rest => (c = '%' && hexPair rest) || hasEscape rest

theorem percentDecode_unescaped (unescaped : hasEscape text = false) :
    percentDecode text = utf8Bytes text := by
  induction text with
  | nil => rfl
  | cons c rest ih =>
      simp only [hasEscape, Bool.or_eq_false_iff, Bool.and_eq_false_iff, decide_eq_false_iff_not]
        at unescaped
      have head : percentDecode (c :: rest) = String.utf8EncodeChar c ++ percentDecode rest := by
        by_cases percent : c = '%'
        · rw [percent, percentDecode_percent (by simpa [percent] using unescaped.1)]
        · exact percentDecode_cons percent rest
      rw [head, ih unescaped.2]
      simp [utf8Bytes]

theorem decodeText_unescaped (unescaped : hasEscape text = false) :
    decodeText text = some text := by
  rw [decodeText, percentDecode_unescaped unescaped, fromUtf8_utf8Bytes]

theorem length_utf8EncodeChar_pos (c : Char) : 0 < (String.utf8EncodeChar c).length :=
  List.length_pos_iff.mpr (utf8EncodeChar_ne_nil c)

theorem length_utf8Bytes_cons (c : Char) (text : List Char) :
    (utf8Bytes (c :: text)).length =
      (String.utf8EncodeChar c).length + (utf8Bytes text).length := by
  simp [utf8Bytes]

theorem length_utf8Bytes_le_of_sublist {part : List Char} (sub : part.Sublist text) :
    (utf8Bytes part).length ≤ (utf8Bytes text).length := by
  induction sub with
  | slnil => simp
  | cons c _ ih =>
      rw [length_utf8Bytes_cons]
      omega
  | cons_cons c _ ih =>
      rw [length_utf8Bytes_cons, length_utf8Bytes_cons]
      omega

/-- Every character left out of a text is missed in its length. -/
theorem eq_of_sublist_of_length_utf8Bytes {part : List Char} (sub : part.Sublist text)
    (long : (utf8Bytes text).length ≤ (utf8Bytes part).length) : part = text := by
  induction sub with
  | slnil => rfl
  | cons c sub ih =>
      have less := length_utf8Bytes_le_of_sublist sub
      have positive := length_utf8EncodeChar_pos c
      rw [length_utf8Bytes_cons] at long
      omega
  | cons_cons c sub ih =>
      rw [length_utf8Bytes_cons, length_utf8Bytes_cons] at long
      rw [ih (by omega)]

/-- An escape is longer than the byte it stands for. -/
theorem length_percentDecode (text : List Char) :
    (percentDecode text).length ≤ (utf8Bytes text).length ∧
      (hasEscape text = true → (percentDecode text).length < (utf8Bytes text).length) := by
  fun_induction percentDecode text with
  | case1 => simp [hasEscape]
  | case2 high low rest first second _ _ ih =>
      have highLength := length_utf8EncodeChar_pos high
      have percentLength := length_utf8EncodeChar_pos '%'
      simp only [length_utf8Bytes_cons, List.length_cons]
      omega
  | case3 high low rest digits ih =>
      have bare : hexPair (high :: low :: rest) = false := by
        cases highValue : hexValue high with
        | none => simp [hexPair, highValue]
        | some first =>
            cases lowValue : hexValue low with
            | none => simp [hexPair, lowValue]
            | some second => exact (digits first second highValue lowValue).elim
      rw [length_utf8Bytes_cons, List.length_append, hasEscape, bare]
      simp only [Bool.and_false, Bool.false_or]
      exact ⟨by omega, fun escape => by have := ih.2 escape; omega⟩
  | case4 c rest single ih =>
      have bare : (decide (c = '%') && hexPair rest) = false := by
        by_cases percent : c = '%'
        · match rest with
          | [] => simp [hexPair]
          | [_] => simp [hexPair]
          | high :: low :: others => exact (single high low others percent rfl).elim
        · simp [percent]
      rw [length_utf8Bytes_cons, List.length_append, hasEscape, bare, Bool.false_or]
      exact ⟨by omega, fun escape => by have := ih.2 escape; omega⟩

theorem mem_percentEncode {c : Char}
    (member : c ∈ percentEncode escaped text) :
    c ∈ text ∧ escaped c = false ∨ c = '%' ∨ (hexValue c).isSome := by
  simp only [percentEncode, List.mem_flatMap] at member
  obtain ⟨source, inText, written⟩ := member
  cases special : escaped source with
  | false =>
      rw [special, if_neg (by simp), List.mem_singleton] at written
      exact .inl (written ▸ ⟨inText, special⟩)
  | true =>
      rw [special, if_pos rfl, List.mem_flatMap] at written
      obtain ⟨byte, -, written⟩ := written
      have bound : byte.toNat < 256 := byte.toNat_lt_size
      simp only [percentByte, List.mem_cons, List.not_mem_nil, or_false] at written
      rcases written with rfl | rfl | rfl
      · exact .inr (.inl rfl)
      · exact .inr (.inr (by simp [hexValue_hexDigit (byte.toNat / 16) (by omega)]))
      · exact .inr (.inr (by simp [hexValue_hexDigit (byte.toNat % 16) (by omega)]))

theorem not_mem_of_mem_splitOn {mark : Char} {part : List Char}
    (member : part ∈ text.splitOn mark) : mark ∉ part := by
  induction text generalizing part with
  | nil => simp_all [List.splitOn]
  | cons c text ih =>
      rw [List.splitOn, List.splitOnP_cons_eq_if_modifyHead] at member
      split at member
      · rcases List.mem_cons.mp member with rfl | member
        · simp
        · exact ih member
      case isFalse other =>
        cases shape : text.splitOn mark with
        | nil => exact absurd shape (List.splitOn_ne_nil mark text)
        | cons first rest =>
            rw [show text.splitOnP (· == mark) = first :: rest from shape] at member
            rcases List.mem_cons.mp member with rfl | member
            · have free : mark ∉ first := ih (by simp [shape])
              simp only [beq_iff_eq] at other
              simp [Ne.symm other, free]
            · exact ih (by simp [shape, member])

/-- The last part of a text stands at its end. -/
theorem suffix_of_getLast?_splitOn {mark : Char} {part : List Char}
    (last : (text.splitOn mark).getLast? = some part) : part <:+ text := by
  obtain ⟨others, shape⟩ := List.getLast?_eq_some_iff.mp last
  have joined : [mark].intercalate (others ++ [part]) = text := by
    rw [← shape, List.intercalate_splitOn]
  rw [← joined]
  clear joined shape last
  induction others with
  | nil => simp
  | cons other others ih =>
      rw [List.cons_append, List.intercalate_cons_of_ne_nil (by simp)]
      exact ih.trans (List.suffix_append _ _)

theorem mem_intercalate {mark c : Char} {parts : List (List Char)}
    (member : c ∈ [mark].intercalate parts) : c = mark ∨ ∃ part ∈ parts, c ∈ part := by
  induction parts with
  | nil => simp at member
  | cons part parts ih =>
      by_cases empty : parts = []
      · simp_all
      · rw [List.intercalate_cons_of_ne_nil empty] at member
        simp only [List.mem_append, List.mem_singleton] at member
        rcases member with (member | rfl) | member
        · exact .inr ⟨part, by simp, member⟩
        · exact .inl rfl
        · rcases ih member with rfl | ⟨other, inParts, inOther⟩
          · exact .inl rfl
          · exact .inr ⟨other, by simp [inParts], inOther⟩

end Escapes

/-! ## The parts of a URL -/

structure Url where
  scheme : List Char
  authority : List Char
  path : List Char
  query : Option (List Char)
  fragment : Option (List Char)
  deriving DecidableEq, Repr

namespace Url

def fileScheme : List Char := "file".toList

/-- The schemes for which a backslash separates path segments. -/
def specialSchemes : List (List Char) :=
  ["http", "https", "ws", "wss", "ftp", "file"].map String.toList

def isSpecial (scheme : List Char) : Bool := specialSchemes.contains scheme

/-- C0 controls and the space, which are cut off at both ends. -/
def isTrimmed (c : Char) : Bool := c.toNat ≤ 0x20

def isTabOrNewline (c : Char) : Bool := c = '\t' || c = '\n' || c = '\r'

def isSchemeTail (c : Char) : Bool := c.isAlphanum || c = '+' || c = '-' || c = '.'

def isScheme : List Char → Bool
  | first :: rest => first.isAlpha && rest.all isSchemeTail
  | [] => false

/-- A letter and a colon or a bar. -/
def isDriveLetter : List Char → Bool
  | [letter, mark] => letter.isAlpha && (mark = ':' || mark = '|')
  | _ => false

def singleDots : List (List Char) := [".", "%2e", "%2E"].map String.toList

def doubleDots : List (List Char) :=
  ["..", ".%2e", ".%2E", "%2e.", "%2E.", "%2e%2e", "%2e%2E", "%2E%2e", "%2E%2E"].map String.toList

/-- The path percent-encode set. -/
def inPathSet (c : Char) : Bool :=
  c.toNat ≤ 0x20 || 0x7f ≤ c.toNat || "\"#<>?`\x7b\x7d".toList.contains c

/-- The query percent-encode set, which a special scheme widens. -/
def inQuerySet (special : Bool) (c : Char) : Bool :=
  c.toNat ≤ 0x20 || 0x7f ≤ c.toNat || "\"#<>".toList.contains c || (special && c = '\'')

/-- The fragment percent-encode set. -/
def inFragmentSet (c : Char) : Bool :=
  c.toNat ≤ 0x20 || 0x7f ≤ c.toNat || "\"<>`".toList.contains c

/-- Leave the last segment, which in a `file` URL is never the drive letter. -/
def shorten (file : Bool) (done : List (List Char)) : List (List Char) :=
  match done with
  | [[letter, ':']] => if file && letter.isAlpha then done else []
  | _ => done.dropLast

/-- A dot segment at the end leaves an empty segment behind. -/
def closing (rest done : List (List Char)) : List (List Char) :=
  if rest.isEmpty then done ++ [[]] else done

/-- The segments of a path, with `.` and `..` resolved. -/
def resolve (file : Bool) (done : List (List Char)) : List (List Char) → List (List Char)
  | [] => done
  | segment :: rest =>
      if doubleDots.contains segment then
        resolve file (closing rest (shorten file done)) rest
      else if singleDots.contains segment then
        resolve file (closing rest done) rest
      else
        resolve file (done ++ [percentEncode inPathSet segment]) rest

/-- The segments of a path text, which is empty or starts with a separator. -/
def pathSegments (scheme text : List Char) : List (List Char) :=
  let text := if isSpecial scheme then text.map fun c => if c = '\\' then '/' else c else text
  match text with
  | [] => if isSpecial scheme then [[]] else []
  | _ :: rest => resolve (scheme = fileScheme) [] (rest.splitOn '/')

def pathText (segments : List (List Char)) : List Char := segments.flatMap ('/' :: ·)

/-- What the reading of a URL takes from the parsing of hosts, and from texts that are not
of the form `scheme://…`. -/
structure Rules where
  /-- The normalised authority of a scheme. -/
  authority : List Char → List Char → Except String (List Char)
  other : List Char → Except String Url
  authority_plain : ∀ {scheme text result}, authority scheme text = .ok result →
    ∀ c ∈ result, 0x20 < c.toNat ∧ c ≠ '/' ∧ c ≠ '?' ∧ c ≠ '#' ∧ c ≠ '\\'
  authority_idem : ∀ {scheme text result}, authority scheme text = .ok result →
    authority scheme result = .ok result
  authority_ne_nil : ∀ {scheme text result}, authority scheme text = .ok result →
    isSpecial scheme → scheme ≠ fileScheme → result ≠ []
  authority_not_drive : ∀ {text result}, authority fileScheme text = .ok result →
    isDriveLetter result = false

def endsAuthority (scheme : List Char) (c : Char) : Bool :=
  c = '/' || c = '?' || c = '#' || (isSpecial scheme && c = '\\')

/-- The part after a mark, if the mark occurs. -/
def after (mark : Char) (text : List Char) : Option (List Char) :=
  match text.dropWhile (· ≠ mark) with
  | [] => none
  | _ :: rest => some rest

/-- The URL of a scheme and an authority, from the text that follows the authority. -/
def assemble (scheme authority tail : List Char) : Url :=
  let beforeFragment := tail.takeWhile (· ≠ '#')
  { scheme
    authority
    path := pathText (pathSegments scheme (beforeFragment.takeWhile (· ≠ '?')))
    query := (after '?' beforeFragment).map (percentEncode (inQuerySet (isSpecial scheme)))
    fragment := (after '#' tail).map (percentEncode inFragmentSet) }

def parse (rules : Rules) (text : List Char) : Except String Url :=
  let text := ((text.dropWhile isTrimmed).rdropWhile isTrimmed).filter (!isTabOrNewline ·)
  let scheme := (text.takeWhile (· ≠ ':')).map Char.toLower
  match text.dropWhile (· ≠ ':') with
  | ':' :: '/' :: '/' :: rest =>
      -- Further slashes in front of the host of `http` and the like are skipped.
      let rest :=
        if isSpecial scheme && scheme != fileScheme then
          rest.dropWhile fun c => c = '/' || c = '\\'
        else rest
      let host := rest.takeWhile (!endsAuthority scheme ·)
      if !isScheme scheme || (scheme == fileScheme && isDriveLetter host) then
        rules.other text
      else
        (rules.authority scheme host).map fun authority =>
          assemble scheme authority (rest.dropWhile (!endsAuthority scheme ·))
  | _ => rules.other text

/-- The part in front of the path, `scheme://userinfo@host:port`. -/
def beforePath (url : Url) : List Char := url.scheme ++ "://".toList ++ url.authority

def text (url : Url) : List Char :=
  url.beforePath ++ url.path ++ (url.query.elim [] ('?' :: ·)) ++ (url.fragment.elim [] ('#' :: ·))

/-! ## Cutting a text into the parts of a URL -/

theorem isTrimmed_eq_false {c : Char} : isTrimmed c = false ↔ 0x20 < c.toNat := by
  simp [isTrimmed]

variable {text scheme front segment : List Char} {escaped : Char → Bool}
  {segments : List (List Char)}

theorem trimmed_eq_self (first : ∀ c, text.head? = some c → 0x20 < c.toNat)
    (last : ∀ c, text.getLast? = some c → 0x20 < c.toNat) :
    (text.dropWhile isTrimmed).rdropWhile isTrimmed = text := by
  have front : text.dropWhile isTrimmed = text := by
    cases text with
    | nil => rfl
    | cons c rest => simp [isTrimmed_eq_false.mpr (first c rfl)]
  rw [front, List.rdropWhile_eq_self_iff]
  intro nonempty
  simp [isTrimmed_eq_false.mpr (last _ (List.getLast?_eq_some_getLast nonempty))]

theorem isAlpha_range {c : Char} (letter : c.isAlpha = true) :
    0x41 ≤ c.toNat ∧ c.toNat ≤ 0x7a := by
  have cases : c.isAlpha = (decide ('A'.val ≤ c.val ∧ c.val ≤ 'Z'.val) ||
      (decide ('a'.val ≤ c.val) && decide (c.val ≤ 'z'.val))) := rfl
  rw [cases] at letter
  simp only [Bool.or_eq_true, Bool.and_eq_true, decide_eq_true_eq, UInt32.le_iff_toNat_le] at letter
  rcases letter with ⟨low, high⟩ | ⟨low, high⟩
  · exact ⟨low, high.trans (by decide)⟩
  · exact ⟨le_trans (by decide) low, high⟩

theorem lt_toNat_of_isSchemeTail {c : Char} (valid : isSchemeTail c = true) : 0x20 < c.toNat := by
  simp only [isSchemeTail, Char.isAlphanum, Bool.or_eq_true, decide_eq_true_eq] at valid
  rcases valid with (((letter | digit) | rfl) | rfl) | rfl
  · have range := isAlpha_range letter
    omega
  · simp only [Char.isDigit, Bool.and_eq_true, decide_eq_true_eq, ge_iff_le,
      UInt32.le_iff_toNat_le] at digit
    exact lt_of_lt_of_le (by decide) digit.1
  · decide
  · decide
  · decide

theorem plain_of_isSchemeTail_lower {c : Char} (valid : isSchemeTail c.toLower = true) :
    0x20 < c.toNat ∧ c ≠ ':' := by
  constructor
  · by_cases upper : c.val ≥ 65 ∧ c.val ≤ 90
    · have : 65 ≤ c.toNat := upper.1
      omega
    · have fixed : c.toLower = c := by
        unfold Char.toLower
        exact dif_neg upper
      exact lt_toNat_of_isSchemeTail (fixed ▸ valid)
  · intro colon
    subst colon
    exact absurd valid (by decide)

theorem not_isTabOrNewline {c : Char} (visible : 0x20 < c.toNat) : isTabOrNewline c = false := by
  have plain : c ≠ '\t' ∧ c ≠ '\n' ∧ c ≠ '\r' := by
    refine ⟨?_, ?_, ?_⟩ <;> rintro rfl <;> exact absurd visible (by decide)
  simp [isTabOrNewline, plain]

theorem filter_visible (visible : ∀ c ∈ text, 0x20 < c.toNat) :
    text.filter (!isTabOrNewline ·) = text := by
  rw [List.filter_eq_self]
  intro c member
  simp [not_isTabOrNewline (visible c member)]

theorem visible_of_endsAuthority {c : Char}
    (ends : endsAuthority scheme c = true) : 0x20 < c.toNat := by
  simp only [endsAuthority, Bool.or_eq_true, Bool.and_eq_true, decide_eq_true_eq] at ends
  rcases ends with ((rfl | rfl) | rfl) | ⟨-, rfl⟩ <;> decide

theorem takeWhile_before {p : Char → Bool} {back : List Char}
    (all : ∀ c ∈ front, p c = true) (stop : ∀ c, back.head? = some c → p c = false) :
    (front ++ back).takeWhile p = front := by
  rw [List.takeWhile_append_of_pos all]
  cases back with
  | nil => simp
  | cons c rest => simp [stop c rfl]

theorem dropWhile_before {p : Char → Bool} {back : List Char}
    (all : ∀ c ∈ front, p c = true) (stop : ∀ c, back.head? = some c → p c = false) :
    (front ++ back).dropWhile p = back := by
  rw [List.dropWhile_append_of_pos all]
  cases back with
  | nil => simp
  | cons c rest => simp [stop c rfl]

/-- The text of a host, and the authority it is read as. -/
structure Host (rules : Rules) (scheme host authority : List Char) : Prop where
  plain : ∀ c ∈ host, 0x20 < c.toNat ∧ endsAuthority scheme c = false
  ne_nil : isSpecial scheme → scheme ≠ fileScheme → host ≠ []
  not_drive : scheme = fileScheme → isDriveLetter host = false
  read : rules.authority scheme host = .ok authority

theorem Host.normalized {rules : Rules} {authority : List Char}
    (read : rules.authority scheme text = .ok authority) :
    Host rules scheme authority authority where
  plain := by
    intro c member
    have plain := rules.authority_plain read c member
    simp [endsAuthority, plain]
  ne_nil := rules.authority_ne_nil read
  not_drive := by
    intro file
    subst file
    exact rules.authority_not_drive read
  read := rules.authority_idem read

theorem plain_of_isScheme_lower (valid : isScheme (scheme.map Char.toLower) = true) :
    scheme ≠ [] ∧ ∀ c ∈ scheme, 0x20 < c.toNat ∧ c ≠ ':' := by
  cases scheme with
  | nil => simp [isScheme] at valid
  | cons first rest =>
      simp only [List.map_cons, isScheme, Bool.and_eq_true, List.all_map, List.all_eq_true] at valid
      refine ⟨by simp, ?_⟩
      intro c member
      apply plain_of_isSchemeTail_lower
      rcases List.mem_cons.mp member with rfl | member
      · simp [isSchemeTail, Char.isAlphanum, valid.1]
      · exact valid.2 c member

/-- A text `scheme://host` with a tail is cut where it was joined. -/
theorem parse_eq (rules : Rules) {scheme host tail authority : List Char}
    (valid : isScheme (scheme.map Char.toLower) = true)
    (hosted : Host rules (scheme.map Char.toLower) host authority)
    (start : ∀ c, tail.head? = some c → endsAuthority (scheme.map Char.toLower) c = true)
    (last : ∀ c, tail.getLast? = some c → 0x20 < c.toNat) :
    parse rules (scheme ++ "://".toList ++ host ++ tail) =
      .ok (assemble (scheme.map Char.toLower) authority (tail.filter (!isTabOrNewline ·))) := by
  obtain ⟨nonempty, schemePlain⟩ := plain_of_isScheme_lower valid
  set lower := scheme.map Char.toLower with lowerEq
  set kept := tail.filter (!isTabOrNewline ·) with keptEq
  have frontVisible : ∀ c ∈ scheme ++ "://".toList ++ host, 0x20 < c.toNat := by
    intro c member
    rcases List.mem_append.mp member with member | member
    · rcases List.mem_append.mp member with member | member
      · exact (schemePlain c member).1
      · exact forall_mem_of_all (by decide : "://".toList.all (0x20 < ·.toNat)) c member
    · exact (hosted.plain c member).1
  have trimmed : ((scheme ++ "://".toList ++ host ++ tail).dropWhile isTrimmed).rdropWhile
      isTrimmed = scheme ++ "://".toList ++ host ++ tail := by
    apply trimmed_eq_self
    · intro c head
      apply frontVisible
      obtain ⟨first, rest, rfl⟩ := List.exists_cons_of_ne_nil nonempty
      simp at head
      simp [head]
    · intro c final
      rw [List.getLast?_append] at final
      cases tailLast : tail.getLast? with
      | none =>
          rw [tailLast, Option.none_or] at final
          exact frontVisible c (List.mem_of_getLast? final)
      | some d =>
          rw [tailLast, Option.some_or] at final
          exact last c (final ▸ tailLast)
  have filtered : (scheme ++ "://".toList ++ host ++ tail).filter (!isTabOrNewline ·) =
      scheme ++ ':' :: '/' :: '/' :: (host ++ kept) := by
    rw [List.filter_append, filter_visible frontVisible]
    simp [keptEq]
  have stop : ∀ c, kept.head? = some c → endsAuthority lower c = true := by
    intro c head
    cases tail with
    | nil => simp [keptEq] at head
    | cons first rest =>
        have ends := start first rfl
        have stays := not_isTabOrNewline (visible_of_endsAuthority ends)
        simp [keptEq, stays] at head
        exact head ▸ ends
  have taken : (scheme ++ ':' :: '/' :: '/' :: (host ++ kept)).takeWhile (· ≠ ':') = scheme :=
    takeWhile_before (by simpa using fun c member => (schemePlain c member).2) (by simp)
  have dropped : (scheme ++ ':' :: '/' :: '/' :: (host ++ kept)).dropWhile (· ≠ ':') =
      ':' :: '/' :: '/' :: (host ++ kept) :=
    dropWhile_before (by simpa using fun c member => (schemePlain c member).2) (by simp)
  have hostStays : ∀ c ∈ host, (!endsAuthority lower c) = true := by
    intro c member
    simp [(hosted.plain c member).2]
  have stops : ∀ c, kept.head? = some c → (!endsAuthority lower c) = false := by
    intro c head
    simp [stop c head]
  have skipped : (if isSpecial lower && lower != fileScheme then
      (host ++ kept).dropWhile fun c => c = '/' || c = '\\' else host ++ kept) =
      host ++ kept := by
    split
    case isFalse => rfl
    case isTrue special =>
      simp only [Bool.and_eq_true, bne_iff_ne, ne_eq] at special
      obtain ⟨first, rest, shape⟩ :=
        List.exists_cons_of_ne_nil (hosted.ne_nil special.1 special.2)
      have plain := (hosted.plain first (by simp [shape])).2
      simp only [endsAuthority, special.1, Bool.true_and, Bool.or_eq_false_iff] at plain
      simp [shape, plain.1.1.1, plain.2]
  have drive : (lower == fileScheme && isDriveLetter host) = false := by
    by_cases file : lower = fileScheme
    · simp [hosted.not_drive file]
    · simp [file]
  simp only [parse, trimmed, filtered, taken, dropped, ← lowerEq, skipped,
    takeWhile_before hostStays stops, dropWhile_before hostStays stops, valid, drive, hosted.read]
  rfl

/-- A scheme in lower case and an authority that its own parsing leaves alone. -/
structure Normal (rules : Rules) (url : Url) : Prop where
  scheme : isScheme url.scheme = true
  lower : url.scheme.map Char.toLower = url.scheme
  authority : rules.authority url.scheme url.authority = .ok url.authority

/-- The URL without what follows the authority. -/
def root (url : Url) : Url :=
  { url with path := pathText (pathSegments url.scheme []), query := none, fragment := none }

theorem Normal.parse {rules : Rules} {url : Url} (normal : url.Normal rules) {tail : List Char}
    (start : ∀ c, tail.head? = some c → c = '/')
    (last : ∀ c, tail.getLast? = some c → 0x20 < c.toNat) :
    Url.parse rules (url.beforePath ++ tail) =
      .ok (assemble url.scheme url.authority (tail.filter (!isTabOrNewline ·))) := by
  have hosted : Host rules (url.scheme.map Char.toLower) url.authority url.authority := by
    rw [normal.lower]
    exact Host.normalized normal.authority
  have cut := @parse_eq rules url.scheme url.authority tail url.authority
    (by rw [normal.lower]; exact normal.scheme) hosted
    (by
      intro c head
      simp [endsAuthority, start c head])
    last
  rw [normal.lower] at cut
  exact cut

theorem assemble_nil (scheme authority : List Char) :
    assemble scheme authority [] =
      { scheme, authority, path := pathText (pathSegments scheme []),
        query := none, fragment := none } := by
  simp [assemble, after]

theorem Normal.parse_beforePath {rules : Rules} {url : Url} (normal : url.Normal rules) :
    Url.parse rules url.beforePath = .ok url.root := by
  have cut := @Normal.parse rules url normal [] (by simp) (by simp)
  rw [List.append_nil] at cut
  rw [cut, List.filter_nil, assemble_nil]
  rfl

/-! ## Paths -/

theorem hexValue_range {c : Char} (digit : (hexValue c).isSome) :
    0x30 ≤ c.toNat ∧ c.toNat ≤ 0x66 := by
  have bounds {low high : Char} (range : low ≤ c ∧ c ≤ high) :
      low.toNat ≤ c.toNat ∧ c.toNat ≤ high.toNat := range
  unfold hexValue at digit
  split_ifs at digit with decimal upper lower
  · have := bounds decimal
    simp at this
    omega
  · have := bounds upper
    simp at this
    omega
  · have := bounds lower
    simp at this
    omega
  · simp at digit

theorem inPathSet_hexDigit (c : Char) (digit : (hexValue c).isSome) : inPathSet c = false := by
  obtain ⟨low, high⟩ := hexValue_range digit
  have unlisted : c ∉ "\"#<>?`\x7b\x7d".toList := by
    intro listed
    have unread : ∀ mark ∈ "\"#<>?`\x7b\x7d".toList, (hexValue mark).isSome = false :=
      forall_mem_of_all (by decide)
    simp [unread c listed] at digit
  have visible : ¬c.toNat ≤ 0x20 := by omega
  have ascii : ¬0x7f ≤ c.toNat := by omega
  simp only [inPathSet, visible, ascii, decide_false, Bool.or_self, Bool.false_or]
  simpa using unlisted

theorem percentDecode_inPathSet (text : List Char) :
    percentDecode (percentEncode inPathSet text) = percentDecode text :=
  percentDecode_reencode (by decide) inPathSet_hexDigit text

/-- Segments that are no dot segments stay. -/
theorem resolve_plain (file : Bool) (segments done : List (List Char))
    (plain : ∀ segment ∈ segments, segment ∉ doubleDots ∧ segment ∉ singleDots) :
    resolve file done segments = done ++ segments.map (percentEncode inPathSet) := by
  induction segments generalizing done with
  | nil => simp [resolve]
  | cons segment rest ih =>
      have here := plain segment (by simp)
      have later := ih (done ++ [percentEncode inPathSet segment])
        (fun segment member => plain segment (by simp [member]))
      simp [resolve, here, later]

/-- Segments in front of others only change what has been read so far. -/
theorem resolve_append (file : Bool) (done front back : List (List Char)) :
    ∃ read, resolve file done (front ++ back) = resolve file read back := by
  induction front generalizing done with
  | nil => exact ⟨done, rfl⟩
  | cons segment front ih =>
      rw [List.cons_append, resolve]
      split
      · exact ih _
      · split
        · exact ih _
        · exact ih _

/-- The last segment of a resolved path is empty or the last one of its text. -/
theorem getLast?_resolve (done segments : List (List Char)) {last : List Char}
    (final : segments.getLast? = some last) :
    (resolve false done segments).getLast? = some [] ∨
      (resolve false done segments).getLast? =
        some (LakehouseEngine.percentEncode inPathSet last) := by
  induction segments generalizing done with
  | nil => cases final
  | cons segment rest ih =>
      cases rest with
      | nil =>
          simp only [List.getLast?_singleton, Option.some.injEq] at final
          rw [resolve]
          split
          · simp [resolve, closing]
          · split
            · simp [resolve, closing]
            · simp [resolve, final]
      | cons next others =>
          rw [List.getLast?_cons_cons] at final
          rw [resolve]
          split
          · exact ih _ final
          · split
            · exact ih _ final
            · exact ih _ final

theorem pathText_map_percentEncode (slash : escaped '/' = false)
    (segments : List (List Char)) :
    pathText (segments.map (percentEncode escaped)) =
      percentEncode escaped (pathText segments) := by
  induction segments with
  | nil => rfl
  | cons segment rest ih =>
      have step : pathText (segment :: rest) = '/' :: (segment ++ pathText rest) := by
        simp [pathText]
      simp only [List.map_cons, step]
      simp only [pathText, List.flatMap_cons] at ih ⊢
      rw [ih]
      simp [percentEncode, slash]

/-! ## Plain paths -/

/-- Segments that a URL parse cuts where they were joined and does not resolve away. -/
structure Plain (segments : List (List Char)) : Prop where
  ne_nil : segments ≠ []
  char : ∀ segment ∈ segments, ∀ c ∈ segment, 0x20 < c.toNat ∧ c ∉ "/#?\\".toList
  decoded : ∀ segment ∈ segments,
    decodeText segment ≠ some ['.'] ∧ decodeText segment ≠ some ['.', '.']

theorem not_dots_of_decodeText
    (decoded : decodeText segment ≠ some ['.'] ∧ decodeText segment ≠ some ['.', '.']) :
    segment ∉ doubleDots ∧ segment ∉ singleDots := by
  have double : ∀ dots ∈ doubleDots, decodeText dots = some ['.', '.'] := by decide +kernel
  have single : ∀ dots ∈ singleDots, decodeText dots = some ['.'] := by decide +kernel
  exact ⟨fun listed => decoded.2 (double segment listed),
    fun listed => decoded.1 (single segment listed)⟩

theorem not_dots_of_no_dot (decoded : decodeText segment = some text)
    (free : '.' ∉ text) : segment ∉ doubleDots ∧ segment ∉ singleDots := by
  apply not_dots_of_decodeText
  rw [decoded, Ne, Ne, Option.some.injEq, Option.some.injEq]
  constructor <;> rintro rfl <;> simp at free

theorem Plain.not_dots (plain : Plain segments)
    (member : segment ∈ segments) : segment ∉ doubleDots ∧ segment ∉ singleDots :=
  not_dots_of_decodeText (plain.decoded segment member)

theorem pathText_eq_cons (nonempty : segments ≠ []) :
    pathText segments = '/' :: ['/'].intercalate segments := by
  induction segments with
  | nil => exact absurd rfl nonempty
  | cons segment rest ih =>
      cases rest with
      | nil => simp [pathText, List.intercalate]
      | cons next rest =>
          have later := ih (by simp)
          simp only [pathText, List.flatMap_cons] at later ⊢
          rw [later]
          simp [List.intercalate]

/-- A path text splits into the segments at its end. -/
theorem splitOn_pathText (front : List (List Char)) {back : List (List Char)}
    (free : ∀ segment ∈ back, '/' ∉ segment) :
    (pathText (front ++ back)).splitOn '/' = (pathText front).splitOn '/' ++ back := by
  by_cases empty : back = []
  · simp [empty]
  · have joined : pathText (front ++ back) = pathText front ++ '/' :: ['/'].intercalate back := by
      rw [← pathText_eq_cons empty]
      simp [pathText]
    have cut : (['/'].intercalate back).splitOn '/' = back :=
      List.splitOn_intercalate '/' free empty
    rw [joined, List.splitOn, List.splitOnP_append_cons _ _ (by simp)]
    exact congrArg (_ ++ ·) cut

theorem mem_pathText {c : Char} (member : c ∈ pathText segments) :
    c = '/' ∨ ∃ segment ∈ segments, c ∈ segment := by
  simp only [pathText, List.mem_flatMap, List.mem_cons] at member
  obtain ⟨segment, inSegments, rfl | inSegment⟩ := member
  · exact .inl rfl
  · exact .inr ⟨segment, inSegments, inSegment⟩

theorem Plain.pathText_char (plain : Plain segments) {c : Char}
    (member : c ∈ pathText segments) : 0x20 < c.toNat ∧ c ∉ "#?\\".toList := by
  rcases mem_pathText member with rfl | ⟨segment, inSegments, inSegment⟩
  · decide
  · obtain ⟨visible, unlisted⟩ := plain.char segment inSegments c inSegment
    refine ⟨visible, ?_⟩
    simp at unlisted ⊢
    exact unlisted.2

theorem Plain.pathSegments (plain : Plain segments)
    (scheme : List Char) :
    pathSegments scheme (pathText segments) = segments.map (percentEncode inPathSet) := by
  have unchanged : (if isSpecial scheme then
      (pathText segments).map fun c => if c = '\\' then '/' else c else pathText segments) =
      pathText segments := by
    split
    · rw [List.map_congr_left (g := id), List.map_id]
      intro c member
      have unlisted := (plain.pathText_char member).2
      simp at unlisted
      simp [unlisted]
    · rfl
  have cut : (['/'].intercalate segments).splitOn '/' = segments := by
    apply List.splitOn_intercalate
    · intro segment member slash
      exact (plain.char segment member '/' slash).2 (by simp)
    · exact plain.ne_nil
  unfold Url.pathSegments
  simp only [unchanged]
  rw [pathText_eq_cons plain.ne_nil]
  simp only [cut]
  rw [resolve_plain _ _ _ fun segment member => plain.not_dots member, List.nil_append]

theorem Plain.percentEncode (plain : Plain segments) :
    Plain (segments.map (percentEncode inPathSet)) where
  ne_nil := by simpa using plain.ne_nil
  char := by
    intro text member c inText
    obtain ⟨segment, inSegments, rfl⟩ := List.mem_map.mp member
    rcases mem_percentEncode inText with ⟨inSegment, -⟩ | rfl | digit
    · exact plain.char segment inSegments c inSegment
    · decide
    · refine ⟨lt_of_lt_of_le (by decide) (hexValue_range digit).1, ?_⟩
      intro listed
      have unread : ∀ mark ∈ "/#?\\".toList, (hexValue mark).isSome = false :=
        forall_mem_of_all (by decide)
      simp [unread c listed] at digit
  decoded := by
    intro text member
    obtain ⟨segment, inSegments, rfl⟩ := List.mem_map.mp member
    rw [decodeText, percentDecode_inPathSet]
    exact plain.decoded segment inSegments

theorem takeWhile_eq_self_of_not_mem {mark : Char} (absent : mark ∉ text) :
    text.takeWhile (· ≠ mark) = text := by
  rw [List.takeWhile_eq_self_iff]
  intro c member
  simp only [decide_eq_true_eq]
  exact fun same => absent (same ▸ member)

theorem after_eq_none {mark : Char} (absent : mark ∉ text) :
    after mark text = none := by
  have dropped : text.dropWhile (· ≠ mark) = [] := by
    rw [List.dropWhile_eq_nil_iff]
    intro c member
    simp only [decide_eq_true_eq]
    exact fun same => absent (same ▸ member)
  simp only [after, dropped]

/-- The URL of a plain path. -/
theorem Plain.assemble (plain : Plain segments) (scheme authority : List Char) :
    assemble scheme authority (pathText segments) =
      { scheme
        authority
        path := pathText (segments.map (LakehouseEngine.percentEncode inPathSet))
        query := none
        fragment := none } := by
  have absent {mark : Char} (listed : mark ∈ "#?\\".toList) : mark ∉ pathText segments :=
    fun member => (plain.pathText_char member).2 listed
  have noFragment := takeWhile_eq_self_of_not_mem (absent (show '#' ∈ "#?\\".toList by decide))
  have noQuery := takeWhile_eq_self_of_not_mem (absent (show '?' ∈ "#?\\".toList by decide))
  unfold Url.assemble
  simp only [noFragment, noQuery, plain.pathSegments,
    after_eq_none (absent (show '#' ∈ "#?\\".toList by decide)),
    after_eq_none (absent (show '?' ∈ "#?\\".toList by decide)), Option.map_none]

theorem Normal.parse_pathText {rules : Rules} {url : Url} (normal : url.Normal rules)
    (plain : Plain segments) :
    Url.parse rules (url.beforePath ++ pathText segments) =
      .ok (assemble url.scheme url.authority (pathText segments)) := by
  have cut := @Normal.parse rules url normal (pathText segments)
    (by
      intro c head
      rw [pathText_eq_cons plain.ne_nil] at head
      simpa using head.symm)
    (fun c final => (plain.pathText_char (List.mem_of_getLast? final)).1)
  rw [cut, filter_visible fun c member => (plain.pathText_char member).1]

/-! ## Web URLs -/

/-- A character of a path in a URL of a special scheme. -/
def slashed (c : Char) : Char := if c = '\\' then '/' else c

/-- What the path takes of a text in a URL of a special scheme. -/
def pathPart (text : List Char) : List Char :=
  (text.takeWhile fun c => c ≠ '?' && c ≠ '#').map slashed

theorem pathPart_append (plain : ∀ c ∈ front, c ∉ "?#\\".toList)
    (back : List Char) : pathPart (front ++ back) = front ++ pathPart back := by
  have none_ {c : Char} (member : c ∈ front) : c ≠ '?' ∧ c ≠ '#' ∧ c ≠ '\\' := by
    simpa using plain c member
  have same : front.map slashed = front := by
    have each (c : Char) (member : c ∈ front) : slashed c = id c := if_neg (none_ member).2.2
    rw [List.map_congr_left each, List.map_id]
  rw [pathPart, List.takeWhile_append_of_pos, List.map_append, same, pathPart]
  intro c member
  simp [none_ member]

theorem pathPart_query (front back : List Char) :
    pathPart (front ++ '?' :: back) = pathPart front := by
  unfold pathPart
  congr 1
  induction front with
  | nil => simp
  | cons c front ih => rw [List.cons_append, List.takeWhile_cons, List.takeWhile_cons, ih]

/-- Behind a slash, the path of a web URL goes on with the segments of what follows. -/
theorem path_assemble {authority : List Char} (special : isSpecial scheme = true)
    (web : scheme ≠ fileScheme) (plain : ∀ c ∈ front, c ≠ '?' ∧ c ≠ '#')
    (back : List Char) :
    ∃ read, (assemble scheme authority ('/' :: front ++ '/' :: back)).path =
      pathText (resolve false read ((pathPart back).splitOn '/')) := by
  have cut : (('/' :: front ++ '/' :: back).takeWhile (· ≠ '#')).takeWhile (· ≠ '?') =
      '/' :: front ++ '/' :: back.takeWhile fun c => c ≠ '?' && c ≠ '#' := by
    rw [List.takeWhile_takeWhile, List.takeWhile_append_of_pos]
    · simp
    · intro c member
      rcases List.mem_cons.mp member with rfl | member
      · decide
      · simp [plain c member]
  have mapped : ('/' :: front ++ '/' :: back.takeWhile fun c => c ≠ '?' && c ≠ '#').map slashed =
      '/' :: (front.map slashed ++ '/' :: pathPart back) := by
    simp [slashed, pathPart]
  have segments : pathSegments scheme ('/' :: front ++ '/' :: back.takeWhile fun c =>
      c ≠ '?' && c ≠ '#') = resolve false []
        ((front.map slashed).splitOn '/' ++ (pathPart back).splitOn '/') := by
    have shaped : ('/' :: front ++ '/' :: back.takeWhile fun c => c ≠ '?' && c ≠ '#').map
        (fun c => if c = '\\' then '/' else c) =
          '/' :: (front.map slashed ++ '/' :: pathPart back) :=
      mapped
    simp only [pathSegments, special, if_true, shaped, web, decide_false, List.splitOn]
    rw [List.splitOnP_append_cons _ _ (by simp)]
  obtain ⟨read, same⟩ := resolve_append false [] ((front.map slashed).splitOn '/')
    ((pathPart back).splitOn '/')
  refine ⟨read, ?_⟩
  simp only [assemble, cut, segments, same]

theorem query_assemble {authority query : List Char}
    (plain : ∀ c ∈ front, c ≠ '?' ∧ c ≠ '#') (noFragment : '#' ∉ query) :
    (assemble scheme authority (front ++ '?' :: query)).query =
      some (LakehouseEngine.percentEncode (inQuerySet (isSpecial scheme)) query) := by
  have whole : '#' ∉ front ++ '?' :: query := by
    simp only [List.mem_append, List.mem_cons, not_or]
    exact ⟨fun member => (plain '#' member).2 rfl, by decide, noFragment⟩
  have found : after '?' (front ++ '?' :: query) = some query := by
    rw [after, dropWhile_before]
    · intro c member
      simp [(plain c member).1]
    · simp
  simp only [assemble, takeWhile_eq_self_of_not_mem whole, found, Option.map_some]

/-- A text that stands for itself as the host of a scheme. -/
def isLiteralHost (scheme text : List Char) : Bool :=
  (text.all fun c => 0x20 < c.toNat && c ≠ '/' && c ≠ '?' && c ≠ '#' && c ≠ '\\') &&
    (text ≠ [] || !isSpecial scheme || scheme = fileScheme) &&
    !(scheme = fileScheme && isDriveLetter text)

/-- Hosts that are read as they stand. -/
def Rules.literal : Rules where
  authority scheme text := if isLiteralHost scheme text then .ok text else .error "invalid host"
  other _ := .error "relative URL without a base"
  authority_plain := by
    intro scheme text result read c member
    split_ifs at read with literal
    cases read
    simp only [isLiteralHost, Bool.and_eq_true, List.all_eq_true] at literal
    simpa [and_assoc] using literal.1.1 c member
  authority_idem := by
    intro scheme text result read
    split_ifs at read with literal
    cases read
    exact if_pos literal
  authority_ne_nil := by
    intro scheme text result read special other
    split_ifs at read with literal
    cases read
    simp only [isLiteralHost, Bool.and_eq_true, special, other] at literal
    simpa using literal.1.2
  authority_not_drive := by
    intro text result read
    split_ifs at read with literal
    cases read
    simp only [isLiteralHost, Bool.and_eq_true] at literal
    simpa using literal.2

end Url

end LakehouseEngine
