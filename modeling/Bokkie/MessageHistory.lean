import Bokkie.Messages

/-!
# How the gateway's messages grow

A message keeps its id and its Bot, its text only grows while it streams, and once it has stopped
streaming it never changes. A page holds every message of its Bot from its cursor on.
-/

namespace Bokkie

variable {δ : Type}

/-- The message an event is about. -/
def Event.messageId : Event δ → Option ℕ
  | .messageCreated message | .messageCompleted message => some message.id
  | .messageDelta _ messageId _ _ => some messageId
  | _ => none

/-- What a message may become. -/
structure Message.Grows (m m' : Message δ) : Prop where
  id : m'.id = m.id
  botId : m'.botId = m.botId
  settled : m.state ≠ .streaming → m' = m
  streaming : m'.state = .streaming → m.state = .streaming ∧ m.text <+: m'.text

theorem Message.Grows.refl (m : Message δ) : m.Grows m :=
  ⟨rfl, rfl, fun _ => rfl, fun h => ⟨h, List.prefix_rfl⟩⟩

theorem Message.Grows.trans {m m' m'' : Message δ} (h : m.Grows m') (h' : m'.Grows m'') :
    m.Grows m'' where
  id := h'.id.trans h.id
  botId := h'.botId.trans h.botId
  settled hm := by
    have hm' := h.settled hm
    subst hm'
    exact h'.settled hm
  streaming hs :=
    have hs' := h'.streaming hs
    have hs := h.streaming hs'.1
    ⟨hs.1, hs.2.trans hs'.2⟩

namespace Table

variable {t : Table δ} {c : Change δ} {i : ℕ} {m : Message δ}

/-- Every row stands under its id. -/
def Keyed (t : Table δ) : Prop := ∀ (i : ℕ) m, t[i]? = some m → m.id = i

theorem appendText_self {now : ℤ} {text : List Char} (h : t[i]? = some m)
    (hs : m.state = .streaming) :
    (t.appendText now i text)[i]? = some { m with text := m.text ++ text, updatedAt := now } := by
  simp [appendText, h, hs]

theorem appendText_of_not_streaming {now : ℤ} {text : List Char}
    (h : ∀ m, t[i]? = some m → m.state ≠ .streaming) : t.appendText now i text = t := by
  unfold appendText
  split
  · next m hm => rw [if_neg (h m hm)]
  · rfl

theorem appendText_of_ne {now : ℤ} {text : List Char} {j : ℕ} (hne : i ≠ j) :
    (t.appendText now i text)[j]? = t[j]? := by
  unfold appendText
  split
  · split <;> simp [hne]
  · rfl

/-- A change leaves every message alone but the one its event is about. -/
theorem apply_of_ne (h : c.envelope.event.messageId ≠ some i) : (t.apply c)[i]? = t[i]? := by
  unfold apply
  split <;> simp_all [Event.messageId, appendText_of_ne]

theorem apply_keyed (h : t.Keyed) : (t.apply c).Keyed := by
  intro i m hm
  unfold apply at hm
  split at hm
  · rw [IdMap.getElem?_insert'] at hm
    split at hm
    · next hi => rw [← Option.some.inj hm, hi]
    · exact h i m hm
  · next bot id offset delta _ =>
      by_cases hi : id = i
      · subst hi
        cases hget : t[id]? with
        | none =>
            rw [appendText_of_not_streaming (by simp [hget]), hget] at hm
            cases hm
        | some m₀ =>
            by_cases hs : m₀.state = .streaming
            · rw [appendText_self hget hs] at hm
              rw [← Option.some.inj hm]
              exact h id m₀ hget
            · rw [appendText_of_not_streaming (by simpa [hget] using hs)] at hm
              exact h id m hm
      · rw [appendText_of_ne hi] at hm
        exact h i m hm
  · rw [IdMap.getElem?_insert'] at hm
    split at hm
    · next hi => rw [← Option.some.inj hm, hi]
    · exact h i m hm
  · exact h i m hm

theorem apply_grows (hk : t.Keyed) (hc : t.Allows c) (h : t[i]? = some m) :
    ∃ m', (t.apply c)[i]? = some m' ∧ m.Grows m' := by
  by_cases hi : c.envelope.event.messageId = some i
  · unfold Allows at hc
    unfold apply
    cases hevent : c.envelope.event with
    | messageCreated message =>
        rw [hevent] at hc hi
        simp only [Event.messageId, Option.some.injEq] at hi
        simp only [hi, h] at hc
        cases hc
    | messageDelta bot id offset delta =>
        rw [hevent] at hi
        obtain rfl : id = i := Option.some.inj hi
        by_cases hs : m.state = .streaming
        · exact ⟨_, appendText_self h hs, rfl, rfl, fun hn => absurd hs hn,
            fun _ => ⟨hs, List.prefix_append _ _⟩⟩
        · refine ⟨m, ?_, Message.Grows.refl m⟩
          dsimp only
          rwa [appendText_of_not_streaming (by simpa [h] using hs)]
    | messageCompleted message =>
        rw [hevent] at hc hi
        obtain rfl : message.id = i := Option.some.inj hi
        obtain ⟨m', hm', hbot, hs, hdone⟩ := hc
        obtain rfl : m = m' := Option.some.inj (h.symm.trans hm')
        exact ⟨message, by simp, (hk _ _ h).symm, hbot.symm, fun hn => absurd hs hn,
          fun hs' => absurd hs' hdone⟩
    | _ => rw [hevent] at hi; cases hi
  · exact ⟨m, by rw [apply_of_ne hi, h], Message.Grows.refl m⟩

/-- What the rows of a page have in common. -/
theorem mem_messages {bot : ℕ} {before : Option ℕ} {limit : ℕ} (ht : t.Keyed)
    (h : m ∈ (t.messages bot before limit).1) :
    t[m.id]? = some m ∧ m.botId = bot ∧ ∀ b, before = some b → m.id < b := by
  have hsub : m ∈ (IdMap.records t).filter fun m : Message δ =>
      m.botId = bot && before.all (m.id < ·) := by
    unfold messages at h
    dsimp only at h
    refine (List.mem_insertionSort fun a b => b.id ≤ a.id).mp ?_
    split at h
    · exact List.mem_of_mem_take (List.mem_of_mem_take (List.mem_reverse.mp h))
    · exact List.mem_of_mem_take (List.mem_reverse.mp h)
  obtain ⟨hrec, hp⟩ := List.mem_filter.mp hsub
  obtain ⟨i, hi⟩ := IdMap.mem_records.mp hrec
  obtain rfl := ht i m hi
  simp only [Bool.and_eq_true, decide_eq_true_eq] at hp
  refine ⟨hi, hp.1, fun b hb => ?_⟩
  simpa [hb] using hp.2

/-- In a list in descending order, what is at least the last element taken is taken. -/
theorem mem_take_of_le {l : List (Message δ)} (hl : l.Pairwise fun a b => b.id ≤ a.id)
    (hinj : ∀ a ∈ l, ∀ b ∈ l, a.id = b.id → a = b) {n : ℕ} {last : Message δ}
    (hlast : (l.take n).getLast? = some last) (hm : m ∈ l) (hle : last.id ≤ m.id) :
    m ∈ l.take n := by
  have hmem : last ∈ l.take n := List.mem_of_getLast? hlast
  rw [← List.take_append_drop n l] at hm
  rcases List.mem_append.mp hm with htake | hdrop
  · exact htake
  · rw [← List.take_append_drop n l, List.pairwise_append] at hl
    have hge := hl.2.2 last hmem m hdrop
    rwa [hinj m (List.mem_of_mem_drop hdrop) last (List.mem_of_mem_take hmem)
      (Nat.le_antisymm hge hle)]

/-- A page holds every message of its Bot from its cursor on. -/
theorem messages_complete {bot : ℕ} (before : Option ℕ) (limit : ℕ) (ht : t.Keyed)
    (h : t[i]? = some m) (hbot : m.botId = bot) (hbefore : ∀ b, before = some b → i < b)
    (holder : ∀ cursor, (t.messages bot before limit).2 = some cursor → cursor ≤ i) :
    m ∈ (t.messages bot before limit).1 := by
  obtain rfl := ht i m h
  set all := (IdMap.records t).filter fun m : Message δ =>
    m.botId = bot && before.all (m.id < ·) with hall
  set sorted := all.insertionSort fun a b => b.id ≤ a.id with hsorted
  have hperm : ∀ a, a ∈ sorted ↔ a ∈ all := fun a => List.mem_insertionSort _
  have hdesc : sorted.Pairwise fun a b => b.id ≤ a.id := by
    have : Std.Total fun a b : Message δ => b.id ≤ a.id := ⟨fun a b => Nat.le_total b.id a.id⟩
    have : IsTrans (Message δ) fun a b => b.id ≤ a.id := ⟨fun a b c hab hbc => hbc.trans hab⟩
    exact List.pairwise_insertionSort _ all
  have hinj : ∀ a ∈ sorted, ∀ b ∈ sorted, a.id = b.id → a = b := by
    intro a ha b hb hab
    obtain ⟨j, hj⟩ := IdMap.mem_records.mp (List.mem_filter.mp ((hperm a).mp ha)).1
    obtain ⟨k, hk⟩ := IdMap.mem_records.mp (List.mem_filter.mp ((hperm b).mp hb)).1
    rw [← ht j a hj, hab, ht k b hk, hk] at hj
    exact (Option.some.inj hj).symm
  have hm : m ∈ sorted := by
    rw [hperm, hall, List.mem_filter]
    refine ⟨IdMap.mem_records.mpr ⟨_, h⟩, ?_⟩
    cases hb : before with
    | none => simp [hbot]
    | some b => simp [hbot, hbefore b hb]
  unfold messages at holder ⊢
  dsimp only at holder ⊢
  rw [← hall, ← hsorted] at holder ⊢
  set n := min (max limit 1) 200 with hn
  split at holder
  · next hlong =>
      rw [if_pos hlong, List.mem_reverse]
      rw [List.take_take, Nat.min_eq_left (Nat.le_succ n)] at holder ⊢
      have hne : sorted.take n ≠ [] := by
        intro hnil
        have hlen := congrArg List.length hnil
        simp only [List.length_take, List.length_nil] at hlen hlong
        omega
      have hlast := List.getLast?_eq_some_getLast hne
      exact mem_take_of_le hdesc hinj hlast hm (holder _ (by rw [hlast]; rfl))
  · next hshort =>
      rw [if_neg hshort, List.mem_reverse, List.take_of_length_le]
      · exact hm
      · simp only [List.length_take] at hshort
        omega

end Table

namespace History

variable {H : History δ} {n n' i : ℕ} {m : Message δ}

theorem table_succ (h : n < H.changes.length) :
    H.table (n + 1) = (H.table n).apply H.changes[n] := by
  unfold table
  rw [← List.take_append_getElem h, List.foldl_append]
  rfl

theorem table_succ_of_le (h : H.changes.length ≤ n) : H.table (n + 1) = H.table n := by
  unfold table
  rw [List.take_of_length_le h, List.take_of_length_le (by omega)]

theorem table_keyed (H : History δ) (n : ℕ) : (H.table n).Keyed := by
  induction n with
  | zero => intro i m h; simp [table] at h
  | succ n ih =>
      by_cases hn : n < H.changes.length
      · rw [table_succ hn]
        exact Table.apply_keyed ih
      · rwa [table_succ_of_le (by omega)]

theorem grows_succ (hH : H.Valid) (h : (H.table n)[i]? = some m) :
    ∃ m', (H.table (n + 1))[i]? = some m' ∧ m.Grows m' := by
  by_cases hn : n < H.changes.length
  · rw [table_succ hn]
    exact Table.apply_grows (H.table_keyed n) (hH n hn) h
  · exact ⟨m, by rw [table_succ_of_le (by omega), h], Message.Grows.refl m⟩

/-- A message only grows as the history goes on. -/
theorem grows (hH : H.Valid) (hle : n ≤ n') (h : (H.table n)[i]? = some m) :
    ∃ m', (H.table n')[i]? = some m' ∧ m.Grows m' := by
  induction n', hle using Nat.le_induction with
  | base => exact ⟨m, h, Message.Grows.refl m⟩
  | succ n' _ ih =>
      obtain ⟨m', hm', hg⟩ := ih
      obtain ⟨m'', hm'', hg'⟩ := grows_succ hH hm'
      exact ⟨m'', hm'', hg.trans hg'⟩

/-- A change leaves every message alone but the one its event is about. -/
theorem table_succ_of_ne (h : n < H.changes.length)
    (hi : (H.changes[n]).envelope.event.messageId ≠ some i) :
    (H.table (n + 1))[i]? = (H.table n)[i]? := by
  rw [table_succ h, Table.apply_of_ne hi]

end History

end Bokkie
