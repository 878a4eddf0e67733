import Bokkie.Texts
import Mathlib.Tactic.IntervalCases

/-!
# Percent-encoding and form-encoded pairs

Bytes in text, and lists of pairs of bytes as a query holds them. What is written reads back.
-/

namespace Urlencoded

open Texts

/-- A hexadecimal digit's value, in either case. -/
def hexValue (b : UInt8) : Option ℕ :=
  if 48 ≤ b ∧ b ≤ 57 then some (b.toNat - 48)
  else if 65 ≤ b ∧ b ≤ 70 then some (b.toNat - 55)
  else if 97 ≤ b ∧ b ≤ 102 then some (b.toNat - 87)
  else none

/-- A digit below 16 in upper case. -/
def hexDigit (n : ℕ) : UInt8 := UInt8.ofNat (if n < 10 then 48 + n else 55 + n)

def PERCENT : UInt8 := 37

def PLUS : UInt8 := 43

def SPACE : UInt8 := 32

def AMPERSAND : UInt8 := 38

def EQUALS : UInt8 := 61

/-- What stands after a percent sign, as a byte. -/
def escaped (h l : UInt8) : Option UInt8 := do
  return UInt8.ofNat (16 * (← hexValue h) + (← hexValue l))

/-- A percent sign that no two digits follow stands for itself. -/
def percentDecode : List UInt8 → List UInt8
  | [] => []
  | b :: h :: l :: rest =>
    if b = PERCENT then match escaped h l with
      | some byte => byte :: percentDecode rest
      | none => b :: percentDecode (h :: l :: rest)
    else b :: percentDecode (h :: l :: rest)
  | [b, c] => [b, c]
  | [b] => [b]

/-- The bytes that a form's values are written with as they are. -/
def unchanged (b : UInt8) : Bool :=
  b = 42 ∨ b = 45 ∨ b = 46 ∨ (48 ≤ b ∧ b ≤ 57) ∨ (65 ≤ b ∧ b ≤ 90) ∨ b = 95 ∨ (97 ≤ b ∧ b ≤ 122)

def serializeByte (b : UInt8) : List UInt8 :=
  if unchanged b then [b]
  else if b = SPACE then [PLUS]
  else [PERCENT, hexDigit (b.toNat / 16), hexDigit (b.toNat % 16)]

def serializeBytes (bytes : List UInt8) : List UInt8 := bytes.flatMap serializeByte

def replacePlus (bytes : List UInt8) : List UInt8 :=
  bytes.map fun b => if b = PLUS then SPACE else b

def decodeBytes (bytes : List UInt8) : List UInt8 := percentDecode (replacePlus bytes)

/-- A name and a value as a query has them. -/
def serializePair (pair : List UInt8 × List UInt8) : List UInt8 :=
  serializeBytes pair.1 ++ EQUALS :: serializeBytes pair.2

def serialize (pairs : List (List UInt8 × List UInt8)) : List UInt8 :=
  [AMPERSAND].intercalate (pairs.map serializePair)

/-- A part of a query without `=` is a name, with an empty value. -/
def parsePair (part : List UInt8) : List UInt8 × List UInt8 :=
  match splitOnce EQUALS part with
  | some (name, value) => (decodeBytes name, decodeBytes value)
  | none => (decodeBytes part, [])

def parse (query : List UInt8) : List (List UInt8 × List UInt8) :=
  ((query.splitOn AMPERSAND).filter fun part => part ≠ []).map parsePair

section Reading

variable {b : UInt8} {bytes rest : List UInt8} {n : ℕ}

theorem hexValue_hexDigit (h : n < 16) : hexValue (hexDigit n) = some n := by
  interval_cases n <;> rfl

theorem hexDigit_ne_plus (h : n < 16) : hexDigit n ≠ PLUS := by
  interval_cases n <;> decide

theorem escaped_hexDigit (b : UInt8) :
    escaped (hexDigit (b.toNat / 16)) (hexDigit (b.toNat % 16)) = some b := by
  have hb : b.toNat < 256 := b.toNat_lt
  unfold escaped
  rw [hexValue_hexDigit (by omega), hexValue_hexDigit (by omega)]
  change some (UInt8.ofNat (16 * (b.toNat / 16) + b.toNat % 16)) = some b
  rw [Nat.div_add_mod, UInt8.ofNat_toNat]

theorem percentDecode_cons (h : b ≠ PERCENT) :
    percentDecode (b :: rest) = b :: percentDecode rest := by
  match rest with
  | [] => rfl
  | [_] => rfl
  | _ :: _ :: _ => rw [percentDecode, if_neg h]

/-- The bytes that stand for one byte read back as it. -/
theorem decodeBytes_serializeByte :
    decodeBytes (serializeByte b ++ rest) = b :: decodeBytes rest := by
  unfold decodeBytes replacePlus serializeByte
  split
  · next hunchanged =>
      have hplus : b ≠ PLUS := by
        rintro rfl
        cases hunchanged
      have hpercent : b ≠ PERCENT := by
        rintro rfl
        cases hunchanged
      rw [List.singleton_append, List.map_cons, if_neg hplus, percentDecode_cons hpercent]
  · split
    · next hspace =>
        rw [List.singleton_append, List.map_cons, if_pos rfl, percentDecode_cons (by decide), hspace]
    · have hb : b.toNat < 256 := b.toNat_lt
      simp only [List.cons_append, List.nil_append, List.map_cons]
      rw [if_neg (hexDigit_ne_plus (by omega)), if_neg (hexDigit_ne_plus (by omega)),
        if_neg (by decide), percentDecode, if_pos rfl, escaped_hexDigit]

theorem decodeBytes_serializeBytes : decodeBytes (serializeBytes bytes) = bytes := by
  have hrest : ∀ rest, decodeBytes (serializeBytes bytes ++ rest) = bytes ++ decodeBytes rest := by
    intro rest
    induction bytes with
    | nil => rfl
    | cons b bytes ih =>
        unfold serializeBytes at ih ⊢
        rw [List.flatMap_cons, List.append_assoc, decodeBytes_serializeByte, ih, List.cons_append]
  have hnil := hrest []
  rwa [List.append_nil, show decodeBytes [] = [] from rfl, List.append_nil] at hnil

/-- The bytes of a form's values, written. -/
def isWritten (b : UInt8) : Bool := unchanged b ∨ b = PLUS ∨ b = PERCENT

theorem isWritten_hexDigit (h : n < 16) : isWritten (hexDigit n) = true := by
  interval_cases n <;> decide

theorem isWritten_of_mem (h : b ∈ serializeBytes bytes) : isWritten b = true := by
  obtain ⟨a, -, hb⟩ := List.mem_flatMap.mp h
  unfold serializeByte at hb
  split at hb
  · next hunchanged =>
      rw [List.mem_singleton.mp hb]
      simp [isWritten, hunchanged]
  · split at hb
    · rw [List.mem_singleton.mp hb]
      rfl
    · have ha : a.toNat < 256 := a.toNat_lt
      simp only [List.mem_cons, List.not_mem_nil, or_false] at hb
      rcases hb with rfl | rfl | rfl
      · rfl
      · exact isWritten_hexDigit (by omega)
      · exact isWritten_hexDigit (by omega)

theorem parsePair_serializePair (pair : List UInt8 × List UInt8) :
    parsePair (serializePair pair) = pair := by
  have hnot : EQUALS ∉ serializeBytes pair.1 := fun h => by cases isWritten_of_mem h
  unfold parsePair serializePair
  rw [splitOnce_eq_some.mpr ⟨rfl, hnot⟩]
  simp only [decodeBytes_serializeBytes]

/-- Pairs that are written read back. -/
theorem parse_serialize (pairs : List (List UInt8 × List UInt8)) :
    parse (serialize pairs) = pairs := by
  cases hpairs : pairs with
  | nil => rfl
  | cons first others =>
      rw [← hpairs]
      have hparts : ∀ part ∈ pairs.map serializePair, AMPERSAND ∉ part := by
        intro part hpart hmem
        obtain ⟨pair, -, rfl⟩ := List.mem_map.mp hpart
        rcases List.mem_append.mp hmem with hname | hvalue
        · cases isWritten_of_mem hname
        · rcases List.mem_cons.mp hvalue with hequals | hvalue
          · cases hequals
          · cases isWritten_of_mem hvalue
      have hne : pairs.map serializePair ≠ [] := by
        rw [hpairs]
        exact List.cons_ne_nil _ _
      unfold parse serialize
      rw [List.splitOn_intercalate _ hparts hne, List.filter_eq_self.mpr, List.map_map]
      · exact List.map_id'' parsePair_serializePair pairs
      · intro part hpart
        obtain ⟨pair, -, rfl⟩ := List.mem_map.mp hpart
        simp [serializePair]

theorem lt_of_isWritten (h : isWritten b = true) : b.toNat < 128 := by
  simp only [isWritten, unchanged, PLUS, PERCENT, Bool.decide_or, Bool.decide_and, Bool.or_eq_true,
    decide_eq_true_eq, Bool.and_eq_true, UInt8.le_iff_toNat_le, ← UInt8.toNat_inj,
    UInt8.reduceToNat] at h
  omega

/-- What is written is ASCII. -/
theorem lt_of_mem_serialize {pairs : List (List UInt8 × List UInt8)} (h : b ∈ serialize pairs) :
    b.toNat < 128 := by
  have hpair : ∀ pair, ∀ b ∈ serializePair pair, b.toNat < 128 := by
    intro pair b hb
    rcases List.mem_append.mp hb with hname | hvalue
    · exact lt_of_isWritten (isWritten_of_mem hname)
    · rcases List.mem_cons.mp hvalue with rfl | hvalue
      · decide
      · exact lt_of_isWritten (isWritten_of_mem hvalue)
  unfold serialize at h
  induction pairs with
  | nil => cases h
  | cons pair pairs ih =>
      cases pairs with
      | nil =>
          rw [List.map_singleton, List.intercalate_singleton] at h
          exact hpair pair b h
      | cons next pairs =>
          rw [List.map_cons, List.map_cons, List.intercalate_cons_cons] at h
          rcases List.mem_append.mp h with h | h
          · rcases List.mem_append.mp h with h | h
            · exact hpair pair b h
            · rw [List.mem_singleton.mp h]
              decide
          · exact ih h

end Reading

end Urlencoded
