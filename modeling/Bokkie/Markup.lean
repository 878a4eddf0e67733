import Bokkie.ByteTexts

/-!
# Markup without scripts, styles and comments

What is taken out of a page's markup before it is parsed. The scan runs on a lower-cased copy, by
bytes, and copies from the markup itself; a slice that is not on a character boundary would be a
panic, which is `none` here. What is taken out can leave what makes a new piece of its two sides.
-/

namespace Bokkie.Markup

open ByteTexts

/-- Elements whose content is never reading text. -/
def RAW : List (List Char) :=
  ["script", "style", "noscript", "template", "svg", "iframe", "object", "canvas"].map
    String.toList

def COMMENT : List Char := ['<', '!', '-', '-']

def COMMENT_END : List Char := ['-', '-', '>']

/-- `str::to_ascii_lowercase`. -/
def lower (t : List Char) : List Char := t.map Char.toLower

/-- What may follow a raw element's name in its start tag. -/
def endsName (c : Char) : Bool :=
  c = ' ' ∨ c = '\t' ∨ c = '\n' ∨ c = '\x0C' ∨ c = '\r' ∨ c = '>' ∨ c = '/'

/-- A start tag of this element stands at the start of the text. -/
def opensRaw (rest : List Char) (name : List Char) : Bool :=
  match rest with
  | c :: t => c = '<' ∧ name <+: t ∧ (t.drop name.length).head?.any endsName
  | [] => false

def closing (name : List Char) : List Char := '<' :: '/' :: name

/-! ## The scan -/

/-- Where the comment that starts at `start` ends. -/
def commentEnd (text : List Char) (start : ℕ) : Option ℕ :=
  (sliceFrom text (start + 4)).map fun rest =>
    match find COMMENT_END rest with
    | some stop => start + 4 + stop + 3
    | none => size text

/-- Where the raw element that starts at `start` ends. -/
def rawEnd (text : List Char) (start : ℕ) (name : List Char) : Option ℕ :=
  (sliceFrom text (start + 1)).bind fun rest =>
    match find (closing name) rest with
    | some stop => (sliceFrom text (start + 1 + stop)).map fun tail =>
      match find ['>'] tail with
      | some gt => start + 1 + stop + gt + 1
      | none => size text
    | none => some (size text)

/-- Where to go on after what stands at `start`, if it is taken out. -/
def skipTo (text : List Char) (start : ℕ) (rest : List Char) : Option (Option ℕ) :=
  if COMMENT <+: rest then (commentEnd text start).map some
  else
    match RAW.find? (opensRaw rest) with
    | some name => (rawEnd text start name).map some
    | none => some none

/-- The output, how far the markup is copied or taken out, and how far it is read. -/
structure Scan where
  out : List Char
  copied : ℕ
  place : ℕ

/-- The next `<`, if there is one. -/
def step (html text : List Char) (s : Scan) : Option (Option Scan) :=
  (sliceFrom text s.place).bind fun ahead =>
    match find ['<'] ahead with
    | none => some none
    | some found =>
      let start := s.place + found
      (sliceFrom text start).bind fun rest =>
        (skipTo text start rest).bind fun
          | some next => (slice html s.copied start).map fun kept =>
            some ⟨s.out ++ kept, next, next⟩
          | none => some (some { s with place := start + 1 })

def scan (html text : List Char) (limit : ℕ) : ℕ → Scan → Option Scan
  | 0, _ => none
  | fuel + 1, s =>
    match step html text s with
    | none => none
    | some none => some s
    | some (some s) => if limit < size s.out then some s else scan html text limit fuel s

/-- The markup without comments or the elements in `RAW`, at most `limit` bytes of it, and whether
it was cut. -/
def prepare (html : List Char) (limit : ℕ) : Option (List Char × Bool) :=
  (scan html (lower html) limit (html.length + 1) ⟨[], 0, 0⟩).bind fun s =>
    (if size s.out ≤ limit then
      (sliceFrom html (min s.copied (size html))).map fun rest => s.out ++ rest
    else some s.out).bind fun out =>
      if limit < size out then
        (sliceTo out (floorBoundary out limit)).map fun out => (out, true)
      else some (out, false)

/-! ## What is taken out -/

/-- A comment's opening, or a raw element's start tag up to what ends its name. -/
inductive Opener : List Char → Prop
  | comment : Opener COMMENT
  | raw {name : List Char} {c : Char} (hname : name ∈ RAW) (hends : endsName c = true) :
      Opener ('<' :: (name ++ [c]))

/-- A comment or a raw element's start tag stands at the start of the text. -/
def Opening (t : List Char) : Prop := ∃ w, Opener w ∧ w <+: lower t

def NoOpening (t : List Char) : Prop := ∀ u, u <:+ t → ¬ Opening u

/-- The first `n` characters of the text are a comment or a raw element, up to its end or to the
text's. -/
inductive IsPiece (t : List Char) : ℕ → Prop
  | comment {k : ℕ} (hopens : COMMENT <+: lower t)
      (hends : First COMMENT_END ((lower t).drop 4) k) : IsPiece t (4 + k + 3)
  | openComment (hopens : COMMENT <+: lower t)
      (hends : ∀ m, ¬ COMMENT_END <+: ((lower t).drop 4).drop m) : IsPiece t t.length
  | raw {name : List Char} {k j : ℕ} (hname : name ∈ RAW) (hopens : opensRaw (lower t) name)
      (hcloses : First (closing name) ((lower t).drop 1) k)
      (hends : First ['>'] ((lower t).drop (1 + k)) j) : IsPiece t (1 + k + j + 1)
  | openTag {name : List Char} {k : ℕ} (hname : name ∈ RAW) (hopens : opensRaw (lower t) name)
      (hcloses : First (closing name) ((lower t).drop 1) k)
      (hends : ∀ m, ¬ ['>'] <+: ((lower t).drop (1 + k)).drop m) : IsPiece t t.length
  | openRaw {name : List Char} (hname : name ∈ RAW) (hopens : opensRaw (lower t) name)
      (hcloses : ∀ m, ¬ closing name <+: ((lower t).drop 1).drop m) : IsPiece t t.length

/-- A text with disjoint pieces taken out. -/
inductive Removed : List Char → List Char → Prop
  | nil : Removed [] []
  | keep (c : Char) {t kept : List Char} : Removed t kept → Removed (c :: t) (c :: kept)
  | remove {t kept : List Char} {n : ℕ} (hpiece : IsPiece t n) (hpos : 0 < n) :
      Removed (t.drop n) kept → Removed t kept

/-- The length of the piece that starts a text, if one does. -/
def pieceLength (t : List Char) : Option ℕ :=
  if COMMENT <+: lower t then
    some (match indexOf COMMENT_END ((lower t).drop 4) with
      | some k => 4 + k + 3
      | none => t.length)
  else
    (RAW.find? (opensRaw (lower t))).map fun name =>
      match indexOf (closing name) ((lower t).drop 1) with
      | some k =>
        match indexOf ['>'] ((lower t).drop (1 + k)) with
        | some j => 1 + k + j + 1
        | none => t.length
      | none => t.length

/-- A character before the first of the texts. -/
def consHead (c : Char) : List (List Char) → List (List Char)
  | [] => [[c]]
  | s :: ss => (c :: s) :: ss

/-- What stands between the pieces, after some characters that are passed over. -/
def segmentsFrom : ℕ → List Char → List (List Char)
  | _, [] => [[]]
  | 0, c :: t =>
    match pieceLength (c :: t) with
    | none => consHead c (segmentsFrom 0 t)
    | some n => [] :: segmentsFrom (n - 1) t
  | k + 1, _ :: t => segmentsFrom k t

/-- What stands between the pieces of a text: before the first, between each two, and after the
last. -/
def segments (t : List Char) : List (List Char) := segmentsFrom 0 t

/-- The text without its pieces. -/
def strip (t : List Char) : List Char := (segments t).flatten

/-- Somewhere a piece is taken out, what is kept before it and what is kept after it spell an
opening together. -/
def Joined (t : List Char) : Prop :=
  ∃ before after, segments t = before ++ after ∧ before ≠ [] ∧ after ≠ [] ∧
    ∃ x y, x ≠ [] ∧ y ≠ [] ∧ Opener (x ++ y) ∧
      x <:+ lower before.flatten ∧ y <+: lower after.flatten

end Bokkie.Markup
