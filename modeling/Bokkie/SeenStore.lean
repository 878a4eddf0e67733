import Bokkie.Json
import Bokkie.SeenItems

/-!
# The seen items of each Bot

The table of the items that Bots have shown their owners, and the two tools over it. A Bot keeps so
many items, the oldest going first, and an item so long from when it was last shown. `owner` is the
table of Bots: whose each is.
-/

namespace Bokkie.Seen

open Accounts (DAY_MS)
open Accounts.Tables (bind_eq_ok)

/-- How long an item is kept after it was last shown. -/
def RETENTION_MS : ℤ := 365 * DAY_MS

/-- The most items one call checks or marks. -/
def MAX_PER_CALL : ℕ := 50

/-- The most items kept for each Bot. -/
def MAX_PER_BOT : ℕ := 10000

/-- The longest title kept, in characters. -/
def TITLE_CHARS : ℕ := 300

/-- How much of an unrecognised item is repeated back, in characters. -/
def ECHO_CHARS : ℕ := 200

/-- An item as it was last shown. -/
structure Shown where
  title : String
  url : String
  shownAt : ℤ
deriving DecidableEq, Repr

/-- An item to mark as shown. -/
structure Item where
  id : String
  title : String
  url : String
deriving DecidableEq, Repr

/-- A row of the table. -/
structure Row where
  rowid : ℕ
  bot : ℕ
  user : ℕ
  item : String
  title : String
  url : String
  shownAt : ℤ
deriving DecidableEq, Repr

namespace Row

variable (r : Row)

def shown : Shown := ⟨r.title, r.url, r.shownAt⟩

/-- The row is of the Bot's items. -/
def IsOf (bot user : ℕ) : Prop := r.bot = bot ∧ r.user = user

instance (bot user : ℕ) : Decidable (r.IsOf bot user) := inferInstanceAs (Decidable (_ ∧ _))

/-- The row of the item, whoever's Bot it is. -/
def Names (bot : ℕ) (item : String) : Prop := r.bot = bot ∧ r.item = item

instance (bot : ℕ) (item : String) : Decidable (r.Names bot item) :=
  inferInstanceAs (Decidable (_ ∧ _))

/-- `ORDER BY shown_at DESC, rowid DESC`. -/
def Before (s : Row) : Prop := s.shownAt < r.shownAt ∨ s.shownAt = r.shownAt ∧ s.rowid ≤ r.rowid

instance : DecidableRel Before := fun _ _ => inferInstanceAs (Decidable (_ ∨ _))

/-- The row, shown anew. -/
def showAgain (now : ℤ) (item : Item) : Row :=
  { r with title := item.title, url := item.url, shownAt := now }

end Row

section Store

variable (owner : ℕ → Option ℕ) (rows : List Row) (now : ℤ) (user bot : ℕ)

/-- Which of these canonical ids the Bot showed not too long ago, with how each was last shown. -/
def shown (ids : List String) : List (String × Shown) :=
  ids.filterMap fun id =>
    (rows.find? fun r => r.IsOf bot user ∧ r.item = id ∧ now - RETENTION_MS < r.shownAt).map
      fun r => (id, r.shown)

def nextRowid : ℕ := (rows.map (·.rowid)).foldr max 0 + 1

/-- `INSERT … SELECT … FROM bots … ON CONFLICT … DO UPDATE`, with whether it changed a row. -/
def insertItem (item : Item) : List Row × Bool :=
  if owner bot = some user then
    match rows.find? (·.Names bot item.id) with
    | none =>
      (rows ++ [⟨nextRowid rows, bot, user, item.id, item.title, item.url, now⟩], true)
    | some r =>
      if r.user = user then
        (rows.map fun r => if r.Names bot item.id then r.showAgain now item else r, true)
      else (rows, false)
  else (rows, false)

def insertItems : List Row → List Item → List Row × Bool
  | rows, [] => (rows, true)
  | rows, item :: items =>
    let inserted := insertItem owner rows now user bot item
    let rest := insertItems inserted.1 items
    (rest.1, inserted.2 && rest.2)

/-- The ids of the Bot's rows past the most it keeps. -/
def pastMost : List ℕ :=
  (((rows.filter (·.IsOf bot user)).insertionSort Row.Before).drop MAX_PER_BOT).map (·.rowid)

/-- Drops the Bot's rows past the most it keeps. -/
def dropOldest : List Row :=
  rows.filter fun r => ¬ (r.IsOf bot user ∧ r.rowid ∈ pastMost rows user bot)

/-- Marks items as shown by the Bot. Returns whether the Bot is the user's. -/
def mark (items : List Item) : List Row × Bool :=
  let inserted := insertItems owner now user bot rows items
  (dropOldest inserted.1 user bot, inserted.2)

/-- How many items the Bot keeps. -/
def count : ℕ := (rows.filter (·.IsOf bot user)).length

/-- Deletes items last shown too long ago. Returns how many. -/
def prune : List Row × ℕ :=
  (rows.filter fun r => ¬ r.shownAt ≤ now - RETENTION_MS,
    (rows.filter fun r => r.shownAt ≤ now - RETENTION_MS).length)

end Store

section Tools

variable (libraries : Libraries)

def NOT_AN_ITEM : String := "not an arXiv id, DOI or http(s) link"

/-- A text, cut where it is long. -/
def echo (text : String) : String :=
  let echoed := text.toList.take ECHO_CHARS
  String.ofList (if echoed.length < text.toList.length then echoed ++ ['…'] else echoed)

/-- The items of a call. -/
def itemsOf (tool : String) (arguments : Json) : Except String (List Json) :=
  match arguments.get "items" with
  | some (.arr items) =>
    if items = [] then .error (tool ++ " needs at least one item.")
    else if MAX_PER_CALL < items.length then
      .error (tool ++ " takes at most 50 items at a time; split them up.")
    else .ok items
  | _ => .error (tool ++ " needs \x7b\"items\": [...]\x7d.")

/-- What `seen_check` says of one item. -/
inductive Checked where
  | notAnItem (item : String)
  | unseen (item id : String)
  | seen (item id : String) (shown : Shown) (daysAgo : ℤ)
deriving DecidableEq, Repr

/-- `seen_check`: which items are new, and how the others were last shown. -/
def checkTool (rows : List Row) (now : ℤ) (user bot : ℕ) (arguments : Json) :
    Except String (List Checked) := do
  let items ← itemsOf "seen_check" arguments
  let inputs ← items.mapM fun item =>
    match item.asStr with
    | some text => .ok (text, canonical libraries text)
    | none => .error "seen_check takes each item as a string: an arXiv id, a DOI or a link."
  let ids := inputs.filterMap (·.2)
  let found := shown rows now user bot ids
  return inputs.map fun (text, id) =>
    match id with
    | none => .notAnItem (echo text)
    | some id =>
      match found.lookup id with
      | none => .unseen (echo text) id
      | some seen => .seen (echo text) id seen ((now - seen.shownAt).tdiv DAY_MS)

/-- An item of a call to `seen_mark`, checked. -/
def markedItem (item : Json) : Except String Item := do
  let named ← match (item.get "id").bind (·.asStr) with
    | some named => .ok named
    | none => .error "seen_mark takes each item as \x7b\"id\": ..., \"title\": ...\x7d."
  let id ← match canonical libraries named with
    | some id => .ok id
    | none => .error ("Nothing was marked: \"" ++ echo named ++ "\" is " ++ NOT_AN_ITEM ++ ".")
  let title := trim (((item.get "title").bind (·.asStr)).getD "")
  if title = "" then .error ("Nothing was marked: \"" ++ echo named ++ "\" needs a title.")
  else
    let url ← match (item.get "url").bind (·.asStr) with
      | some url =>
        if URL_CHARS < url.utf8ByteSize ∨ (link libraries url.toList).isNone then
          .error ("Nothing was marked: the url of \"" ++ echo named ++ "\" is not an http(s) link.")
        else .ok (trim url)
      | none => .ok (String.ofList (linkTo id.toList))
    return ⟨id, String.ofList (title.toList.take TITLE_CHARS), url⟩

/-- The items that a call to `seen_mark` marks: all of them, or none. -/
def markedItems (arguments : Json) : Except String (List Item) := do
  let items ← itemsOf "seen_mark" arguments
  items.mapM (markedItem libraries)

/-- `seen_mark`: records items as shown now. -/
def markTool (owner : ℕ → Option ℕ) (rows : List Row) (now : ℤ) (user bot : ℕ)
    (arguments : Json) : Except String String × List Row :=
  match markedItems libraries arguments with
  | .error error => (.error error, rows)
  | .ok marked =>
    let ids := marked.map (·.id)
    let number := if ids.length = 1 then "1 item" else decimal ids.length ++ " items"
    (.ok ("Marked " ++ number ++ " as shown: " ++ String.intercalate ", " ids ++ "."),
      (mark owner rows now user bot marked).1)

theorem length_mapM {α β ε : Type} (f : α → Except ε β) {l : List α} {l' : List β}
    (h : l.mapM f = .ok l') : l'.length = l.length := by
  induction l generalizing l' with
  | nil =>
      obtain rfl : [] = l' := Except.ok.inj h
      rfl
  | cons a l ih =>
      rw [List.mapM_cons] at h
      obtain ⟨b, -, h⟩ := bind_eq_ok.mp h
      obtain ⟨bs, hbs, h⟩ := bind_eq_ok.mp h
      obtain rfl : b :: bs = l' := Except.ok.inj h
      rw [List.length_cons, List.length_cons, ih hbs]

theorem length_markedItems {arguments : Json} {items : List Item}
    (h : markedItems libraries arguments = .ok items) : items.length ≤ MAX_PER_CALL := by
  obtain ⟨given, hgiven, h⟩ := bind_eq_ok.mp h
  rw [length_mapM _ h]
  unfold itemsOf at hgiven
  split at hgiven
  · split at hgiven
    · cases hgiven
    · split at hgiven
      · cases hgiven
      · next hle =>
          obtain rfl := Except.ok.inj hgiven
          exact Nat.le_of_not_lt hle
  · cases hgiven

/-- A call to `seen_mark` marks a call's items, or none. -/
theorem markTool_rows (owner : ℕ → Option ℕ) (rows : List Row) (now : ℤ) (user bot : ℕ)
    (arguments : Json) :
    (markTool libraries owner rows now user bot arguments).2 = rows ∨
      ∃ items, items.length ≤ MAX_PER_CALL ∧ markedItems libraries arguments = .ok items ∧
        (markTool libraries owner rows now user bot arguments).2 =
          (mark owner rows now user bot items).1 := by
  cases hitems : markedItems libraries arguments with
  | error error => exact .inl (by simp [markTool, hitems])
  | ok items => exact .inr ⟨items, length_markedItems libraries hitems, rfl, by simp [markTool, hitems]⟩

end Tools

end Bokkie.Seen
