import Mathlib.Algebra.Group.Int.Defs
import Mathlib.Data.List.Basic
import Mathlib.Data.List.Infix

/-!
# JSON documents

Documents as they are written: an object keeps every member it was given. Reading a document as a
value fails where a number or the nesting is past the reader's limits; a member is looked up by the
last of its name, and a structure's fields by their names or, in an array, by their places.
-/

namespace Bokkie

inductive Json where
  | null
  | bool (b : Bool)
  | int (n : ℤ)
  | real (digits : String)
  /-- A number out of range, or a part nested too deep. -/
  | beyond
  | str (s : String)
  | arr (items : List Json)
  | obj (members : List (String × Json))

namespace Json

mutual

/-- Nothing in the document is past the reader's limits. -/
def readable : Json → Bool
  | .beyond => false
  | .arr items => readableItems items
  | .obj members => readableMembers members
  | .null | .bool _ | .int _ | .real _ | .str _ => true

def readableItems : List Json → Bool
  | [] => true
  | item :: items => item.readable && readableItems items

def readableMembers : List (String × Json) → Bool
  | [] => true
  | (_, value) :: members => value.readable && readableMembers members

end

/-- The last member of a name. -/
def lookup (members : List (String × Json)) (name : String) : Option Json :=
  (members.reverse.find? fun member => member.1 = name).map (·.2)

/-- `Value::get` with a string. -/
def get (j : Json) (name : String) : Option Json :=
  match j with
  | .obj members => lookup members name
  | _ => none

def asStr : Json → Option String
  | .str s => some s
  | _ => none

/-- A field of a structure: its name, and whether an array may stop before it. -/
structure Field where
  name : String
  default : Bool

/-- Fields read in order from an array, which may stop before those with a default. -/
def inOrder : List Field → List Json → Option (List (Option Json))
  | [], [] => some []
  | [], _ :: _ => none
  | field :: fields, [] => if field.default then (inOrder fields []).map (none :: ·) else none
  | _ :: fields, item :: items => (inOrder fields items).map (some item :: ·)

/-- A structure's fields, from an object by name or from an array in order. -/
def fields (shape : List Field) : Json → Option (List (Option Json))
  | .obj members => some (shape.map fun field => lookup members field.name)
  | .arr items => inOrder shape items
  | _ => none

/-- One field of a document, however it gives its fields. -/
def field (names : List String) (name : String) : Json → Option Json
  | .obj members => lookup members name
  | .arr items => items[names.idxOf name]?
  | _ => none

section Fields

variable {names : List String} {items : List Json} {found : List (Option Json)} {j : Json}

theorem inOrder_eq (h : inOrder (names.map (⟨·, false⟩)) items = some found) :
    found = items.map some ∧ items.length = names.length := by
  induction names generalizing items found with
  | nil =>
      cases items with
      | nil =>
          obtain rfl : [] = found := Option.some.inj h
          exact ⟨rfl, rfl⟩
      | cons item items => cases h
  | cons name names ih =>
      cases items with
      | nil => simp [inOrder] at h
      | cons item items =>
          obtain ⟨rest, hrest, rfl⟩ := Option.map_eq_some_iff.mp h
          obtain ⟨rfl, hlen⟩ := ih hrest
          exact ⟨rfl, congrArg Nat.succ hlen⟩

/-- The fields of a structure without defaults are those found by name or by place. -/
theorem fields_eq (hnodup : names.Nodup) (h : j.fields (names.map (⟨·, false⟩)) = some found) :
    found = names.map fun name => j.field names name := by
  cases j with
  | obj members =>
      obtain rfl := Option.some.inj h
      rw [List.map_map]
      rfl
  | arr items =>
      obtain ⟨rfl, hlen⟩ := inOrder_eq h
      apply List.ext_getElem
      · simp [hlen]
      · intro i hi hi'
        have hin : i < names.length := by simpa using hi'
        have hii : i < items.length := hlen ▸ hin
        simp [field, hnodup.idxOf_getElem i hin, hii]
  | _ => cases h

end Fields

section Types

/-- A required string. -/
def string : Option Json → Option String
  | some (.str s) => some s
  | _ => none

/-- `Option<T>`, from how a `T` reads: absent and null are none. -/
def optional {τ : Type} (read : Option Json → Option τ) : Option Json → Option (Option τ)
  | none | some .null => some none
  | some j => (read (some j)).map some

/-- An integer from `-2 ^ (bits - 1)` up to `2 ^ (bits - 1) - 1`. -/
def integer (bits : ℕ) : Option Json → Option ℤ
  | some (.int n) => if -2 ^ (bits - 1) ≤ n ∧ n < 2 ^ (bits - 1) then some n else none
  | _ => none

def boolean : Option Json → Option Bool
  | some (.bool b) => some b
  | _ => none

/-- A value of any kind. -/
def value : Option Json → Option Json
  | some j => if j.readable then some j else none
  | none => none

def values : Option Json → Option (List Json)
  | some (.arr items) => if readableItems items then some items else none
  | _ => none

end Types

end Json

end Bokkie
