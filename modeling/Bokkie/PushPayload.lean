import Bokkie.Accounts
import Bokkie.Urls
import Mathlib.Data.List.DropRight
import Mathlib.Data.List.Induction

/-!
# The payload of a push

A push's message is JSON of a bounded size, and its body is cut to fit. The cut is found by halving,
between a length that fits and one that is taken to be too long.
-/

namespace Bokkie.Push

/-- A text, by its characters. -/
abbrev Text := List Char

def PAYLOAD_BYTES : ℕ := 3000

def QUOTE : Char := Char.ofNat 34

def BACKSLASH : Char := Char.ofNat 92

/-- The letter that a character is escaped with, if it has one. -/
def escapeLetter (c : Char) : Option Char :=
  if c = QUOTE ∨ c = BACKSLASH then some c
  else match c.toNat with
    | 8 => some 'b'
    | 9 => some 't'
    | 10 => some 'n'
    | 12 => some 'f'
    | 13 => some 'r'
    | _ => none

/-- A character of a JSON string. -/
def escape (c : Char) : Text :=
  match escapeLetter c with
  | some letter => [BACKSLASH, letter]
  | none =>
    if c.toNat < 32 then
      [BACKSLASH, 'u', '0', '0', Nat.digitChar (c.toNat / 16), Nat.digitChar (c.toNat % 16)]
    else [c]

def jsonString (text : Text) : Text := QUOTE :: text.flatMap escape ++ [QUOTE]

def jsonMember (member : String × Text) : Text := jsonString member.1.toList ++ ':' :: member.2

def jsonObject (members : List (String × Text)) : Text :=
  Char.ofNat 123 :: [','].intercalate (members.map jsonMember) ++ [Char.ofNat 125]

/-- The bytes of a text. -/
def toVec (text : Text) : List UInt8 := text.flatMap String.utf8EncodeChar

/-- A push's message with a body. The names of an object are in order. -/
def encode (title navigate tag : String) (badge : ℕ) (body : Text) : List UInt8 :=
  toVec (jsonObject [("mutable", "true".toList),
    ("notification", jsonObject [("app_badge", (decimal badge).toList), ("body", jsonString body),
      ("navigate", jsonString navigate.toList), ("tag", jsonString tag.toList),
      ("title", jsonString title.toList)]),
    ("web_push", "8030".toList)])

def trimEnd (text : Text) : Text := text.rdropWhile isWhitespace

/-- The body, cut to its first characters. -/
def cut (body : Text) (n : ℕ) : Text := trimEnd (body.take n) ++ ['…']

/-- Halves what is between a length that fits and one that is too long. -/
def search (fitsAt : ℕ → Bool) (fits tooLong : ℕ) : ℕ :=
  if 1 < tooLong - fits then
    let middle := (fits + tooLong) / 2
    if fitsAt middle then search fitsAt middle tooLong else search fitsAt fits middle
  else fits
termination_by tooLong - fits

/-- The message, with its body cut to fit. -/
def payload (title body navigate tag : String) (badge : ℕ) : List UInt8 :=
  let encode := encode title navigate tag badge
  let whole := encode body.toList
  if whole.length ≤ PAYLOAD_BYTES then whole
  else encode (cut body.toList (search
    (fun n => (encode (cut body.toList n)).length ≤ PAYLOAD_BYTES) 0 body.toList.length))

section Search

variable {fitsAt : ℕ → Bool} {fits tooLong n : ℕ}

/-- The search ends at a length that fits, and above it none does that is below its upper end. -/
theorem search_spec (hmono : ∀ {m n}, m ≤ n → fitsAt n = true → fitsAt m = true)
    (hfits : fitsAt fits = true) (hle : fits ≤ tooLong) :
    fitsAt (search fitsAt fits tooLong) = true ∧ search fitsAt fits tooLong ≤ tooLong ∧
      ∀ n, search fitsAt fits tooLong < n → n < tooLong → fitsAt n = false := by
  induction hn : tooLong - fits using Nat.strong_induction_on generalizing fits tooLong with
  | _ width ih =>
      unfold search
      by_cases hwide : 1 < tooLong - fits
      · rw [if_pos hwide]
        dsimp only
        by_cases hmiddle : fitsAt ((fits + tooLong) / 2) = true
        · rw [if_pos hmiddle]
          exact ih (tooLong - (fits + tooLong) / 2) (by omega) hmiddle (by omega) rfl
        · rw [if_neg hmiddle]
          obtain ⟨hspec, hupper, hlonger⟩ :=
            ih ((fits + tooLong) / 2 - fits) (by omega) hfits (by omega) rfl
          refine ⟨hspec, by omega, fun n hn hlt => ?_⟩
          by_cases hbelow : n < (fits + tooLong) / 2
          · exact hlonger n hn hbelow
          · refine Bool.eq_false_iff.mpr fun htrue => hmiddle ?_
            exact hmono (Nat.le_of_not_lt hbelow) htrue
      · rw [if_neg hwide]
        refine ⟨hfits, hle, fun n hn hlt => ?_⟩
        omega

end Search

section Sizes

variable {title navigate tag : String} {badge : ℕ} {body a b : Text}

/-- How many bytes a text takes in a JSON string. -/
def size (text : Text) : ℕ := (toVec (text.flatMap escape)).length

theorem toVec_append : toVec (a ++ b) = toVec a ++ toVec b := List.flatMap_append

theorem size_append : size (a ++ b) = size a + size b := by
  unfold size
  rw [List.flatMap_append, toVec_append, List.length_append]

theorem size_ellipsis : size ['…'] = 3 := by decide

/-- The body's place in the message. -/
theorem encode_eq : ∃ before after : Text, ∀ body,
    encode title navigate tag badge body = toVec (before ++ body.flatMap escape ++ after) := by
  refine ⟨Char.ofNat 123 :: jsonMember ("mutable", "true".toList) ++ [','] ++
      jsonString "notification".toList ++ [':', Char.ofNat 123] ++
      jsonMember ("app_badge", (decimal badge).toList) ++ [','] ++ jsonString "body".toList ++
      [':', QUOTE], [QUOTE, ','] ++ jsonMember ("navigate", jsonString navigate.toList) ++ [','] ++
      jsonMember ("tag", jsonString tag.toList) ++ [','] ++
      jsonMember ("title", jsonString title.toList) ++ [Char.ofNat 125, ','] ++
      jsonMember ("web_push", "8030".toList) ++ [Char.ofNat 125], fun body => ?_⟩
  simp [encode, jsonObject, jsonMember, List.intercalate, jsonString, List.intersperse]

/-- What the rest of the message takes. -/
theorem length_encode : ∃ rest, ∀ body,
    (encode title navigate tag badge body).length = rest + size body := by
  obtain ⟨before, after, heq⟩ := @encode_eq title navigate tag badge
  refine ⟨(toVec before).length + (toVec after).length, fun body => ?_⟩
  rw [heq, toVec_append, toVec_append, List.length_append, List.length_append]
  unfold size
  omega

/-- A longer text, without the white space at its end, goes on from a shorter one. -/
theorem trimEnd_start (h : a <+: b) : trimEnd a <+: trimEnd b := by
  obtain ⟨rest, rfl⟩ := h
  induction rest using List.reverseRecOn with
  | nil => exact (List.append_nil a).symm ▸ List.prefix_rfl
  | append_singleton rest c ih =>
      unfold trimEnd at ih ⊢
      rw [← List.append_assoc]
      by_cases hc : isWhitespace c = true
      · rw [List.rdropWhile_concat_pos _ _ _ hc]
        exact ih
      · rw [List.rdropWhile_concat_neg _ _ _ hc, List.append_assoc]
        exact (List.rdropWhile_prefix _ a).trans (List.prefix_append a _)

theorem size_le_of_start (h : a <+: b) : size a ≤ size b := by
  obtain ⟨rest, rfl⟩ := h
  rw [size_append]
  exact Nat.le_add_right _ _

theorem size_cut (n : ℕ) : size (cut body n) = size (trimEnd (body.take n)) + 3 := by
  rw [cut, size_append, size_ellipsis]

theorem size_cut_le {m n : ℕ} (h : m ≤ n) : size (cut body m) ≤ size (cut body n) := by
  rw [size_cut, size_cut]
  exact Nat.add_le_add_right (size_le_of_start (trimEnd_start (List.take_prefix_take_left h))) 3

theorem length_cut_le {m n : ℕ} (h : m ≤ n) : (cut body m).length ≤ (cut body n).length := by
  have hlength := (trimEnd_start (List.take_prefix_take_left h (l := body))).length_le
  simp only [cut, List.length_append]
  omega

theorem cut_zero : cut body 0 = ['…'] := rfl

/-- The whole body so cut is no shorter than the body, unless it ends with white space: then what is
before that is cut the same. -/
theorem cut_length (hne : body ≠ []) :
    size body ≤ size (cut body body.length) ∨
      cut body body.length = cut body (body.length - 1) := by
  obtain ⟨rest, c, rfl⟩ := (List.eq_nil_or_concat' body).resolve_left hne
  have hlast : (rest ++ [c]).length - 1 = rest.length := by simp
  rw [hlast]
  unfold cut trimEnd
  rw [List.take_length, List.take_left]
  by_cases hc : isWhitespace c = true
  · rw [List.rdropWhile_concat_pos _ _ _ hc]
    exact .inr rfl
  · rw [List.rdropWhile_concat_neg _ _ _ hc]
    exact .inl (size_le_of_start (List.prefix_append _ _))

end Sizes

section Bodies

variable {title navigate tag : String} {badge : ℕ} {a b s t : Text} {c d letter : Char}

theorem toVec_inj (h : toVec a = toVec b) : a = b := by
  have hbytes : a.utf8Encode = b.utf8Encode := congrArg List.toByteArray h
  have hstrings : String.ofList a = String.ofList b := String.toByteArray_inj.mp hbytes
  exact String.ofList_injective hstrings

/-- The character that a letter escapes. -/
def unescapeLetter (letter : Char) : Char :=
  match letter with
  | 'b' => Char.ofNat 8
  | 't' => Char.ofNat 9
  | 'n' => Char.ofNat 10
  | 'f' => Char.ofNat 12
  | 'r' => Char.ofNat 13
  | letter => letter

theorem unescapeLetter_eq (h : escapeLetter c = some letter) :
    unescapeLetter letter = c ∧ letter ≠ 'u' := by
  unfold escapeLetter at h
  split at h
  · next hquote =>
    obtain rfl := Option.some.inj h
    rcases hquote with rfl | rfl <;> exact ⟨rfl, by decide⟩
  · rw [← Char.ofNat_toNat c]
    split at h <;> first | (obtain rfl := Option.some.inj h; simp_all [unescapeLetter]) | cases h

/-- How a character is escaped: by a letter, by its number, or not at all. -/
theorem escape_cases (c : Char) :
    (∃ letter, escapeLetter c = some letter ∧ escape c = [BACKSLASH, letter]) ∨
    (c.toNat < 32 ∧ escape c =
      [BACKSLASH, 'u', '0', '0', Nat.digitChar (c.toNat / 16), Nat.digitChar (c.toNat % 16)]) ∨
    (c ≠ BACKSLASH ∧ escape c = [c]) := by
  unfold escape
  cases hletter : escapeLetter c with
  | some letter => exact .inl ⟨letter, rfl, rfl⟩
  | none =>
      have hne : c ≠ BACKSLASH := by
        rintro rfl
        cases hletter
      by_cases hlow : c.toNat < 32
      · exact .inr (.inl ⟨hlow, if_pos hlow⟩)
      · exact .inr (.inr ⟨hne, if_neg hlow⟩)

theorem toNat_of_digits (hc : c.toNat < 32) (hd : d.toNat < 32)
    (hhigh : Nat.digitChar (c.toNat / 16) = Nat.digitChar (d.toNat / 16))
    (hlow : Nat.digitChar (c.toNat % 16) = Nat.digitChar (d.toNat % 16)) : c = d := by
  have hdigits : ∀ m < 32, ∀ n < 32, Nat.digitChar (m / 16) = Nat.digitChar (n / 16) →
      Nat.digitChar (m % 16) = Nat.digitChar (n % 16) → m = n := by decide +kernel
  have hnat := hdigits _ hc _ hd hhigh hlow
  rw [← Char.ofNat_toNat c, hnat, Char.ofNat_toNat]

/-- No character's escape begins another's. -/
theorem escape_append_inj (h : escape c ++ s = escape d ++ t) : c = d ∧ s = t := by
  rcases escape_cases c with ⟨letter, hc, hec⟩ | ⟨hc, hec⟩ | ⟨hc, hec⟩ <;>
    rcases escape_cases d with ⟨letter', hd, hed⟩ | ⟨hd, hed⟩ | ⟨hd, hed⟩ <;>
    rw [hec, hed] at h <;> simp only [List.cons_append, List.nil_append, List.cons.injEq] at h
  · obtain ⟨-, rfl, hrest⟩ := h
    exact ⟨(unescapeLetter_eq hc).1.symm.trans (unescapeLetter_eq hd).1, hrest⟩
  · exact absurd h.2.1 (unescapeLetter_eq hc).2
  · exact absurd h.1.symm hd
  · exact absurd h.2.1.symm (unescapeLetter_eq hd).2
  · obtain ⟨-, -, -, -, hhigh, hlow, hrest⟩ := h
    exact ⟨toNat_of_digits hc hd hhigh hlow, hrest⟩
  · exact absurd h.1.symm hd
  · exact absurd h.1 hc
  · exact absurd h.1 hc
  · exact h

theorem escape_ne_nil (c : Char) : escape c ≠ [] := by
  rcases escape_cases c with ⟨letter, -, h⟩ | ⟨-, h⟩ | ⟨-, h⟩ <;> rw [h] <;> exact List.cons_ne_nil _ _

theorem flatMap_escape_inj (h : a.flatMap escape = b.flatMap escape) : a = b := by
  induction a generalizing b with
  | nil =>
      cases b with
      | nil => rfl
      | cons d b => exact absurd (List.append_eq_nil_iff.mp h.symm).1 (escape_ne_nil d)
  | cons c a ih =>
      cases b with
      | nil => exact absurd (List.append_eq_nil_iff.mp h).1 (escape_ne_nil c)
      | cons d b =>
          obtain ⟨rfl, hrest⟩ := escape_append_inj h
          rw [ih hrest]

/-- The message tells its body. -/
theorem encode_injective : Function.Injective (encode title navigate tag badge) := by
  intro a b h
  obtain ⟨before, after, heq⟩ := @encode_eq title navigate tag badge
  rw [heq, heq] at h
  exact flatMap_escape_inj (List.append_cancel_left (List.append_cancel_right (toVec_inj h)))

theorem size_replicate (n : ℕ) : size (List.replicate n 'x') = n := by
  induction n with
  | zero => rfl
  | succ n ih =>
      rw [List.replicate_succ', size_append, ih]
      rfl

end Bodies

/-- What a payload is, for a message that fits with no body but an ellipsis: it fits, it carries the
whole body if that fits, and else the body cut at a length beyond which no cut that carries more
fits. -/
theorem payload_spec (title body navigate tag : String) (badge : ℕ)
    (hleast : (encode title navigate tag badge ['…']).length ≤ PAYLOAD_BYTES) :
    (payload title body navigate tag badge).length ≤ PAYLOAD_BYTES ∧
    ((encode title navigate tag badge body.toList).length ≤ PAYLOAD_BYTES →
      payload title body navigate tag badge = encode title navigate tag badge body.toList) ∧
    (PAYLOAD_BYTES < (encode title navigate tag badge body.toList).length →
      ∃ n, payload title body navigate tag badge =
        encode title navigate tag badge (cut body.toList n) ∧
        ∀ m, (cut body.toList n).length < (cut body.toList m).length →
          PAYLOAD_BYTES < (encode title navigate tag badge (cut body.toList m)).length) := by
  obtain ⟨rest, hlength⟩ := @length_encode title navigate tag badge
  unfold payload
  dsimp only
  by_cases hwhole : (encode title navigate tag badge body.toList).length ≤ PAYLOAD_BYTES
  · rw [if_pos hwhole]
    exact ⟨hwhole, fun _ => rfl, fun hlong => absurd hwhole (Nat.not_le.mpr hlong)⟩
  · rw [if_neg hwhole]
    generalize hfitsAt : (fun n => decide
      ((encode title navigate tag badge (cut body.toList n)).length ≤ PAYLOAD_BYTES)) = fitsAt
    have hfits : ∀ n, fitsAt n = true ↔
        (encode title navigate tag badge (cut body.toList n)).length ≤ PAYLOAD_BYTES := by
      intro n
      rw [← hfitsAt, decide_eq_true_iff]
    have hmono : ∀ {m n}, m ≤ n → fitsAt n = true → fitsAt m = true := by
      intro m n hmn hn
      rw [hfits, hlength] at hn ⊢
      have hsize : size (cut body.toList m) ≤ size (cut body.toList n) := size_cut_le hmn
      omega
    have hzero : fitsAt 0 = true := by
      rw [hfits, cut_zero]
      exact hleast
    obtain ⟨hspec, hupper, hlonger⟩ := search_spec hmono hzero (Nat.zero_le body.toList.length)
    generalize search fitsAt 0 body.toList.length = n at hspec hupper hlonger ⊢
    have htoo : ∀ m, n < m → m < body.toList.length →
        PAYLOAD_BYTES < (encode title navigate tag badge (cut body.toList m)).length := by
      intro m hnm hm
      rw [← Nat.not_le, ← hfits, hlonger m hnm hm]
      exact Bool.false_ne_true
    refine ⟨(hfits n).mp hspec, fun h => absurd h hwhole, fun _ => ⟨n, rfl, fun m hm => ?_⟩⟩
    have hnm : n < m := by
      by_contra hle
      exact absurd (length_cut_le (Nat.le_of_not_lt hle)) (Nat.not_le.mpr hm)
    by_cases hmlength : m < body.toList.length
    · exact htoo m hnm hmlength
    · have hall : cut body.toList m = cut body.toList body.toList.length := by
        unfold cut
        rw [List.take_of_length_le (Nat.le_of_not_lt hmlength), List.take_length]
      have hne : body.toList ≠ [] := by
        intro hnil
        rw [hnil] at hm
        simp [cut] at hm
      rw [hall] at hm ⊢
      rcases cut_length hne with hsize | hsame
      · rw [hlength] at hwhole ⊢
        omega
      · rw [hsame] at hm ⊢
        refine htoo _ ?_ (Nat.sub_lt (List.length_pos_iff.mpr hne) Nat.one_pos)
        by_contra hle
        exact absurd (length_cut_le (Nat.le_of_not_lt hle)) (Nat.not_le.mpr hm)

/-- A body of four thousand characters is cut. -/
theorem payload_spec_long :
    (payload "Ann" (String.ofList (List.replicate 4000 'x')) "https://bokkie.example/bots/1" "bot-1"
      2).length ≤ PAYLOAD_BYTES ∧
    ∃ n, payload "Ann" (String.ofList (List.replicate 4000 'x')) "https://bokkie.example/bots/1"
        "bot-1" 2 =
      encode "Ann" "https://bokkie.example/bots/1" "bot-1" 2 (cut (List.replicate 4000 'x') n) := by
  obtain ⟨hfits, -, hcut⟩ := payload_spec "Ann" (String.ofList (List.replicate 4000 'x'))
    "https://bokkie.example/bots/1" "bot-1" 2 (by decide +kernel)
  rw [String.toList_ofList] at hcut
  obtain ⟨rest, hlength⟩ := @length_encode "Ann" "https://bokkie.example/bots/1" "bot-1" 2
  obtain ⟨n, hn, -⟩ := hcut (by
    rw [hlength, size_replicate]
    exact (by decide : PAYLOAD_BYTES < 4000).trans_le (Nat.le_add_left _ _))
  exact ⟨hfits, n, hn⟩

end Bokkie.Push
