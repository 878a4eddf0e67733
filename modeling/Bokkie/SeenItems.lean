import Bokkie.Accounts
import Bokkie.Urlencoded
import Bokkie.Urls
import Mathlib.Data.Char
import Mathlib.Data.List.Lex
import Mathlib.Data.List.Sort
import Mathlib.Data.Prod.Lex

/-!
# The ids of seen items

An item is named by an arXiv id, a DOI or a link, and filed under its canonical id. What text means
to Unicode and to the URL library are parameters.
-/

namespace Bokkie.Seen

open Texts

/-- A text, by its characters. -/
abbrev Text := List Char

/-- What the tables of Unicode say of a character. -/
structure Unicode where
  lowercase : Char → Text
  cased : Char → Bool
  caseIgnorable : Char → Bool

/-- What comes from outside: the tables, how the URL library reads text, and how bytes that are not
UTF-8 read. -/
structure Libraries where
  unicode : Unicode
  parse : String → Except UrlError Url
  lossy : List UInt8 → Text

section Lowercase

variable (unicode : Unicode)

def caseIgnorableThenCased (text : Text) : Bool :=
  (text.dropWhile unicode.caseIgnorable).head?.any unicode.cased

/-- The lower case of a text that stands after another, which is given from its end. -/
def lowercaseFrom (before : Text) : Text → Text
  | [] => []
  | c :: text =>
    -- a sigma is written in its final form at the end of a word
    (if c = 'Σ' then
      [if caseIgnorableThenCased unicode before && !caseIgnorableThenCased unicode text then 'ς'
        else 'σ']
    else unicode.lowercase c) ++ lowercaseFrom (c :: before) text

/-- `str::to_lowercase`. -/
def toLowercase (text : Text) : Text := lowercaseFrom unicode [] text

end Lowercase

def URL_CHARS : ℕ := 2048

/-- Query parameters that only track where a link was shared. -/
def TRACKING : List String :=
  ["fbclid", "gclid", "dclid", "gbraid", "wbraid", "msclkid", "yclid", "mc_cid", "mc_eid",
    "igshid", "_hsenc", "_hsmi", "mkt_tok"]

/-- What follows a beginning that is matched in either case. -/
def stripPrefixIgnoringCase (text beginning : Text) : Option Text :=
  if (text.take beginning.length).map Char.toLower = beginning then
    some (text.drop beginning.length)
  else none

/-- All of a text is digits, and it has so many. -/
def allDigits (text : Text) (least most : ℕ) : Bool :=
  least ≤ text.length ∧ text.length ≤ most ∧ text.all Char.isDigit

/-- Without the version at its end. -/
def unversioned (text : Text) : Text :=
  match rsplitOnce 'v' text with
  | some (before, version) => if before ≠ [] ∧ allDigits version 1 4 then before else text
  | none => text

/-- `YYMM.NNNNN`, with four or five digits after the dot. -/
def isNewStyle (text : Text) : Bool :=
  match splitOnce '.' text with
  | some (yearMonth, number) => allDigits yearMonth 4 4 && allDigits number 4 5
  | none => false

def archiveNameOk (name : Text) : Bool :=
  name ≠ [] ∧ name.head? ≠ some '-' ∧ name.getLast? ≠ some '-' ∧
    name.all fun c => c.isAlpha ∨ c = '-'

def subjectOk (subject : Text) : Bool := subject.length = 2 ∧ subject.all Char.isAlpha

/-- An archive's name and its subject, if it has one. -/
def splitArchive (archive : Text) : Text × Option Text :=
  match splitOnce '.' archive with
  | some (name, subject) => (name, some subject)
  | none => (archive, none)

/-- An older id: `archive[.XX]/YYMMNNN`. -/
def oldStyle (text : Text) : Option Text := do
  let (archive, number) ← splitOnce '/' text
  if !allDigits number 7 7 then none
  else
    let (name, subject) := splitArchive archive
    if archiveNameOk name ∧ subject.all subjectOk then
      some (name.map Char.toLower ++
        ((subject.map fun subject => '.' :: subject.map Char.toUpper).getD []) ++ '/' :: number)
    else none

/-- An arXiv id without its version, if the text is one. -/
def arxivId (text : Text) : Option Text :=
  let text := unversioned text
  if isNewStyle text then some text else oldStyle text

def ARXIV : Text := "arxiv:".toList

def DOI : Text := "doi:".toList

def HTTPS : Text := "https://".toList

def WWW : Text := "www.".toList

/-- What a DOI's prefix and its lower-case text make of it. -/
def registrantOk (registrant : Text) : Bool :=
  registrant ≠ [] ∧ (registrant.all fun c => c.isDigit ∨ c = '.') ∧ registrant.getLast? ≠ some '.'

/-- The arXiv id of a DOI of arXiv's. -/
def arxivDoi (beginning suffix : Text) : Option Text :=
  if beginning = "10.48550".toList then (suffix.dropPrefix? "arxiv.".toList).bind arxivId else none

/-- The canonical id of a DOI. -/
def doi (unicode : Unicode) (text : Text) : Option Text := do
  let lower := toLowercase unicode text
  let (beginning, suffix) ← splitOnce '/' lower
  let registrant ← beginning.dropPrefix? "10.".toList
  if !registrantOk registrant ∨ suffix = [] ∨ suffix.any isWhitespace then none
  else match arxivDoi beginning suffix with
    | some id => some (ARXIV ++ id)
    | none => some (DOI ++ lower)

/-- `trim_end_matches` with one character. -/
def trimEndMatches (c : Char) (text : Text) : Text := text.rdropWhile (· = c)

def trimStartMatches (c : Char) (text : Text) : Text := text.dropWhile (· = c)

/-- The arXiv id in the path of a link on `arxiv.org`. -/
def arxivPath (path : Text) : Option Text := do
  let rest ← ["/abs/", "/pdf/", "/html/"].findSome? fun beginning =>
    path.dropPrefix? beginning.toList
  let rest := trimEndMatches '/' rest
  arxivId ((rest.dropSuffix? ".pdf".toList).getD rest)

/-- The arXiv id in the path of a paper's page on `huggingface.co`. -/
def paperPath (path : Text) : Option Text := do
  let rest ← path.dropPrefix? "/papers/".toList
  arxivId (trimEndMatches '/' rest)

def utf8 (text : Text) : List UInt8 := text.flatMap String.utf8EncodeChar

def decodeUtf8 (bytes : List UInt8) : Option Text :=
  (ByteArray.utf8Decode? ⟨bytes.toArray⟩).map Array.toList

section Link

variable (libraries : Libraries)

/-- A link, or one without a scheme, which is read as https if it names a host with a dot. -/
def readLink (input : Text) : Option Url :=
  match libraries.parse (String.ofList input) with
  | .ok url => some url
  | .error .relativeUrlWithoutBase => match libraries.parse (String.ofList (HTTPS ++ input)) with
    | .ok url => if url.hostStr.any fun host => '.' ∈ host.toList then some url else none
    | .error _ => none
  | .error .other => none

/-- A host without dots at its end, or a `www.` before it. -/
def shortHost (host : Text) : Text :=
  let host := trimEndMatches '.' host
  (host.dropPrefix? WWW).getD host

/-- The path of a link on `doi.org` as it reads decoded, if it does. -/
def decodedPath (path : Text) : Option Text :=
  decodeUtf8 (Urlencoded.percentDecode (utf8 (trimStartMatches '/' path)))

/-- The paper that a link on some hosts is of, if any: `none` where the link cannot be read. -/
def paper (host path : Text) : Option (Option Text) :=
  if host = "arxiv.org".toList ∨ host = "export.arxiv.org".toList then
    some ((arxivPath path).map (ARXIV ++ ·))
  else if host = "doi.org".toList ∨ host = "dx.doi.org".toList then
    (decodedPath path).map (doi libraries.unicode)
  else if host = "huggingface.co".toList then some ((paperPath path).map (ARXIV ++ ·))
  else some none

/-- `String::from_utf8_lossy`. -/
def fromUtf8Lossy (bytes : List UInt8) : Text := (decodeUtf8 bytes).getD (libraries.lossy bytes)

def queryPairs (query : Text) : List (Text × Text) :=
  (Urlencoded.parse (utf8 query)).map fun (key, value) =>
    (fromUtf8Lossy libraries key, fromUtf8Lossy libraries value)

/-- The parameter does not only track. -/
def isKept (pair : Text × Text) : Bool :=
  let key := pair.1.map Char.toLower
  !("utm_".toList <+: key) && !(TRACKING.map String.toList).contains key

def sorted (pairs : List (Text × Text)) : List (Text × Text) :=
  pairs.insertionSort fun p q => toLex p ≤ toLex q

/-- Bytes that are ASCII, as text. -/
def ascii (bytes : List UInt8) : Text := bytes.map fun b => Char.ofNat b.toNat

/-- The query that pairs make, with its question mark. -/
def queryOf (pairs : List (Text × Text)) : Text :=
  if pairs = [] then []
  else '?' :: ascii (Urlencoded.serialize (pairs.map fun (key, value) => (utf8 key, utf8 value)))

def pathOf (path : Text) : Text :=
  match trimEndMatches '/' path with
  | [] => ['/']
  | trimmed => trimmed

def portOf (port : Option ℕ) : Text :=
  match port with
  | some port => ':' :: (decimal port).toList
  | none => []

/-- The parameters that a link's id has. -/
def keptPairs (url : Url) : List (Text × Text) :=
  sorted ((queryPairs libraries (url.query.getD "").toList).filter isKept)

/-- What a link is filed as where it is no paper's. -/
def plainLink (host : Text) (url : Url) : Text :=
  HTTPS ++ host ++ portOf url.port ++ pathOf url.path.toList ++ queryOf (keptPairs libraries url)

/-- The canonical id of an http(s) link. -/
def link (input : Text) : Option Text := do
  let parsed ← readLink libraries input
  if parsed.scheme ≠ "http" ∧ parsed.scheme ≠ "https" then none
  else
    let host ← parsed.hostStr
    let host := shortHost host.toList
    if host = [] then none
    else match ← paper libraries host parsed.path.toList with
      | some id => some id
      | none => some (plainLink libraries host parsed)

/-- The canonical id of an item's name that has been trimmed. -/
def canonicalText (input : Text) : Option Text :=
  match stripPrefixIgnoringCase input ARXIV with
  | some rest => (arxivId (trim (String.ofList rest)).toList).map (ARXIV ++ ·)
  | none => match stripPrefixIgnoringCase input DOI with
    | some rest => doi libraries.unicode (trim (String.ofList rest)).toList
    | none => match arxivId input with
      | some id => some (ARXIV ++ id)
      | none => if "10.".toList <+: input then doi libraries.unicode input
        else link libraries input

/-- The canonical id of an item named by an arXiv id, a DOI or an http(s) link. -/
def canonical (input : String) : Option String :=
  let input := trim input
  if input = "" ∨ URL_CHARS < input.utf8ByteSize then none
  else (canonicalText libraries input.toList).map String.ofList

end Link

/-- A link to an item by its canonical id. -/
def linkTo (id : Text) : Text :=
  match id.dropPrefix? ARXIV with
  | some arxiv => "https://arxiv.org/abs/".toList ++ arxiv
  | none => match id.dropPrefix? DOI with
    | some doi => "https://doi.org/".toList ++ doi
    | none => id

section Filed

variable (libraries : Libraries)

theorem decodeUtf8_utf8 (text : Text) : decodeUtf8 (utf8 text) = some text := by
  have hbytes : (⟨(utf8 text).toArray⟩ : ByteArray) = text.utf8Encode :=
    ByteArray.ext List.data_toByteArray.symm
  rw [decodeUtf8, hbytes, List.utf8Decode?_utf8Encode]
  rfl

theorem utf8_ascii {bytes : List UInt8} (h : ∀ b ∈ bytes, b.toNat < 128) :
    utf8 (ascii bytes) = bytes := by
  have hchar : ∀ b : UInt8, b.toNat < 128 → String.utf8EncodeChar (Char.ofNat b.toNat) = [b] := by
    intro b hb
    have hval : (Char.ofNat b.toNat).val.toNat = b.toNat := by
      rw [Char.ofNat, dif_pos (.inl (by omega))]
      rfl
    rw [String.utf8EncodeChar, hval, if_pos (by omega), UInt8.ofNat_toNat]
  unfold utf8 ascii
  rw [List.flatMap_map]
  induction bytes with
  | nil => rfl
  | cons b bytes ih =>
      rw [List.flatMap_cons, hchar b (h b List.mem_cons_self),
        ih fun b hb => h b (List.mem_cons_of_mem _ hb), List.singleton_append]

theorem fromUtf8Lossy_utf8 (text : Text) : fromUtf8Lossy libraries (utf8 text) = text := by
  rw [fromUtf8Lossy, decodeUtf8_utf8, Option.getD_some]

/-- Pairs written as a query are read from it. -/
theorem queryPairs_queryOf (pairs : List (Text × Text)) :
    queryPairs libraries (queryOf pairs).tail = pairs := by
  unfold queryPairs queryOf
  by_cases hpairs : pairs = []
  · rw [if_pos hpairs, hpairs]
    rfl
  · rw [if_neg hpairs, List.tail_cons, utf8_ascii fun b => Urlencoded.lt_of_mem_serialize,
      Urlencoded.parse_serialize, List.map_map]
    refine List.map_id'' (fun pair => ?_) pairs
    simp only [Function.comp_apply, fromUtf8Lossy_utf8]

theorem sorted_filter {pairs : List (Text × Text)} (h : ∀ pair ∈ pairs, isKept pair = true) :
    sorted ((sorted pairs).filter isKept) = sorted pairs := by
  have hkept : (sorted pairs).filter isKept = sorted pairs :=
    List.filter_eq_self.mpr fun pair hpair => h pair ((List.mem_insertionSort _).mp hpair)
  rw [hkept]
  exact (List.pairwise_insertionSort _ pairs).insertionSort_eq

theorem pathOf_pathOf (path : Text) : pathOf (pathOf path) = pathOf path := by
  have htrim := List.rdropWhile_idempotent (· = '/') path
  unfold pathOf trimEndMatches at *
  cases hpath : path.rdropWhile (· = '/') with
  | nil => rfl
  | cons c text =>
      rw [hpath] at htrim
      simp only [htrim]

/-- A link with the path and the query of its own id. -/
def filed (url : Url) : Url :=
  { url with
    path := String.ofList (pathOf url.path.toList)
    query := some (String.ofList (queryOf (keptPairs libraries url)).tail) }

/-- An id is not filed under another: reading its path and query changes neither. -/
theorem plainLink_filed (host : Text) (url : Url) :
    plainLink libraries host (filed libraries url) = plainLink libraries host url := by
  have hkept : keptPairs libraries (filed libraries url) = keptPairs libraries url := by
    unfold keptPairs filed
    simp only [Option.getD_some, String.toList_ofList]
    rw [queryPairs_queryOf]
    exact sorted_filter fun pair hpair => List.of_mem_filter hpair
  unfold plainLink
  rw [hkept]
  simp only [filed, String.toList_ofList, pathOf_pathOf]

end Filed

end Bokkie.Seen
