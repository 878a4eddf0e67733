import Bokkie.ConversationCopy
import Bokkie.GatewayLists

/-!
# How the gateway's Bots change

What one change makes of a Bot's row, of its latest message and of whether it is unread.
-/

namespace Bokkie

variable {δ : Type}

namespace Table

variable {t t' : Table δ} {bot i : ℕ} {m g : Message δ} {p : Message δ → Bool}

theorem mem_keys_filter {j : ℕ} : j ∈ (t.filter fun _ m => p m).keys ↔
    ∃ m, t[j]? = some m ∧ p m = true := by
  rw [Std.ExtTreeMap.mem_keys, Std.ExtTreeMap.mem_iff_isSome_getElem?, Option.isSome_iff_exists]
  exact exists_congr fun m => IdMap.getElem?_filter_eq_some

theorem newestId_eq_some : t.newestId p = some i ↔
    (∃ m, t[i]? = some m ∧ p m = true) ∧ ∀ (j : ℕ) m, t[j]? = some m → p m = true → j ≤ i := by
  unfold newestId
  rw [List.max?_eq_some_iff, mem_keys_filter]
  refine and_congr_right fun _ => ⟨fun h j m hm hp => ?_, fun h j hj => ?_⟩
  · exact h j (mem_keys_filter.mpr ⟨m, hm, hp⟩)
  · obtain ⟨m, hm, hp⟩ := mem_keys_filter.mp hj
    exact h j m hm hp

theorem newestId_eq_none :
    t.newestId p = none ↔ ∀ (j : ℕ) m, t[j]? = some m → p m = false := by
  unfold newestId
  rw [List.max?_eq_none_iff, List.eq_nil_iff_forall_not_mem]
  constructor
  · intro h j m hm
    by_contra hp
    exact h j (mem_keys_filter.mpr ⟨m, hm, by simpa using hp⟩)
  · intro h j hj
    obtain ⟨m, hm, hp⟩ := mem_keys_filter.mp hj
    rw [h j m hm] at hp
    cases hp

/-- Tables with the same messages of a kind, by their ids. -/
theorem newestId_congr
    (h : ∀ j : ℕ, (∃ m, t[j]? = some m ∧ p m = true) ↔ ∃ m, t'[j]? = some m ∧ p m = true) :
    t.newestId p = t'.newestId p := by
  cases hnew : t'.newestId p with
  | none =>
      rw [newestId_eq_none] at hnew ⊢
      intro j m hm
      by_contra hp
      obtain ⟨m', hm', hp'⟩ := (h j).mp ⟨m, hm, by simpa using hp⟩
      rw [hnew j m' hm'] at hp'
      cases hp'
  | some i =>
      obtain ⟨hi, hmax⟩ := newestId_eq_some.mp hnew
      refine newestId_eq_some.mpr ⟨(h i).mpr hi, fun j m hm hp => ?_⟩
      obtain ⟨m', hm', hp'⟩ := (h j).mp ⟨m, hm, hp⟩
      exact hmax j m' hm' hp'

theorem latest_eq_some (ht : t.Keyed) : t.latest bot = some g ↔
    t[g.id]? = some g ∧ g.botId = bot ∧
      ∀ (j : ℕ) m, t[j]? = some m → m.botId = bot → j ≤ g.id := by
  unfold latest
  rw [Option.bind_eq_some_iff]
  constructor
  · rintro ⟨i, hi, hg⟩
    obtain ⟨⟨m, hm, hbot⟩, hmax⟩ := newestId_eq_some.mp hi
    obtain rfl := Option.some.inj (hm.symm.trans hg)
    obtain rfl := ht i m hm
    exact ⟨hm, of_decide_eq_true hbot, fun j m hm hbot => hmax j m hm (decide_eq_true hbot)⟩
  · rintro ⟨hg, hbot, hmax⟩
    exact ⟨g.id, newestId_eq_some.mpr ⟨⟨g, hg, decide_eq_true hbot⟩, fun j m hm hbot =>
      hmax j m hm (of_decide_eq_true hbot)⟩, hg⟩

/-- A Bot's latest message depends on its own messages only. -/
theorem latest_congr (ht : t.Keyed) (ht' : t'.Keyed)
    (h : ∀ (j : ℕ) m, m.botId = bot → (t[j]? = some m ↔ t'[j]? = some m)) :
    t.latest bot = t'.latest bot := by
  refine Option.ext fun g => ?_
  rw [latest_eq_some ht, latest_eq_some ht']
  constructor
  · rintro ⟨hg, hbot, hmax⟩
    exact ⟨(h _ g hbot).mp hg, hbot, fun j m hm hb => hmax j m ((h j m hb).mpr hm) hb⟩
  · rintro ⟨hg, hbot, hmax⟩
    exact ⟨(h _ g hbot).mpr hg, hbot, fun j m hm hb => hmax j m ((h j m hb).mp hm) hb⟩

end Table

namespace History

variable {H : History δ} {n q bot i : ℕ} {m g : Message δ}

theorem botRows_succ (h : n < H.changes.length) :
    H.botRows (n + 1) = applyBot (H.botRows n) H.changes[n].envelope.event := by
  unfold botRows
  rw [← List.take_append_getElem h, List.foldl_append]
  rfl

/-- Every Bot stands under its id. -/
theorem botRows_keyed (H : History δ) (n : ℕ) {row : BotRow δ}
    (h : (H.botRows n)[i]? = some row) : row.id = i := by
  induction n generalizing i row with
  | zero => simp [botRows] at h
  | succ n ih =>
      by_cases hn : n < H.changes.length
      · rw [botRows_succ hn] at h
        unfold applyBot at h
        split at h
        · rw [IdMap.getElem?_insert'] at h
          split at h
          · next hi => rw [← Option.some.inj h, hi]
          · exact ih h
        · rw [IdMap.getElem?_insert'] at h
          split at h
          · next hi => rw [← Option.some.inj h, hi]
          · exact ih h
        · split at h
          · next row' hrow' =>
              rw [IdMap.getElem?_insert'] at h
              split at h
              · next hi =>
                  subst hi
                  have hid := ih hrow'
                  rw [← Option.some.inj h]
                  exact hid
              · exact ih h
          · exact ih h
        · split at h
          · next row' hrow' =>
              rw [IdMap.getElem?_insert'] at h
              split at h
              · next hi =>
                  subst hi
                  have hid := ih hrow'
                  rw [← Option.some.inj h]
                  exact hid
              · exact ih h
          · exact ih h
        · exact ih h
      · have hsame : H.botRows (n + 1) = H.botRows n := by
          unfold botRows
          rw [List.take_of_length_le (by omega), List.take_of_length_le (by omega)]
        exact ih (hsame ▸ h)

theorem bots_get (H : History δ) (n b : ℕ) :
    (H.bots n)[b]? = ((H.botRows n)[b]?).map fun row => row.toApi (H.table n) := by
  unfold bots
  rw [Std.ExtTreeMap.getElem?_map]

theorem bots_keyed {b : Bot δ} (h : (H.bots n)[i]? = some b) : b.id = i := by
  rw [bots_get] at h
  obtain ⟨row, hrow, rfl⟩ := Option.map_eq_some_iff.mp h
  exact botRows_keyed H n hrow

/-- A list that the gateway read shows its Bots. -/
theorem collect_botList (seq : ℕ) :
    (IdMap.collect (·.id) (H.botList seq n).bots)[i]? = (H.bots n)[i]? := by
  refine Option.ext fun b => ⟨fun h => ?_, fun h => ?_⟩
  · obtain ⟨hlist, rfl⟩ := IdMap.mem_of_collect h
    obtain ⟨j, hj⟩ := IdMap.mem_records.mp hlist
    rwa [bots_keyed hj]
  · obtain rfl := bots_keyed h
    obtain ⟨w, hw, hget⟩ := IdMap.collect_of_mem (·.id)
      (IdMap.mem_records.mpr ⟨_, h⟩ : b ∈ (H.botList seq n).bots)
    obtain ⟨j, hj⟩ := IdMap.mem_records.mp hw
    obtain ⟨-, hid⟩ := IdMap.mem_of_collect hget
    rw [← bots_keyed hj, hid, h] at hj
    exact hget.trans hj.symm

/-- A message that a change brings is one it creates. -/
theorem table_none_succ (hH : H.Valid) (hq : q < H.changes.length)
    (hnone : (H.table q)[i]? = none)
    (hcreated : ∀ m, (H.changes[q]).envelope.event = .messageCreated m → m.id ≠ i) :
    (H.table (q + 1))[i]? = none := by
  cases hg : (H.table (q + 1))[i]? with
  | none => rfl
  | some g =>
      rcases table_pred hH hq hg with ⟨g₀, hg₀, -⟩ | ⟨m, hevent, hid⟩
      · rw [hnone] at hg₀
        cases hg₀
      · exact absurd hid (hcreated m hevent)

/-- A message is always its Bot's. -/
theorem botId_unique (hH : H.Valid) {n n' : ℕ} {m m' : Message δ} (hm : (H.table n)[i]? = some m)
    (hm' : (H.table n')[i]? = some m') : m.botId = m'.botId := by
  rcases Nat.le_total n n' with hle | hle
  · obtain ⟨g, hg, hgrows⟩ := grows hH hle hm
    rw [← Option.some.inj (hg.symm.trans hm'), hgrows.botId]
  · obtain ⟨g, hg, hgrows⟩ := grows hH hle hm'
    rw [← Option.some.inj (hg.symm.trans hm), hgrows.botId]

/-- A change that creates no message leaves the ids of a kind of messages alone. -/
theorem newestId_succ (hH : H.BotsValid) (hn : n < H.changes.length)
    (hnot : ∀ m, (H.changes[n]).envelope.event ≠ .messageCreated m) {p : Message δ → Bool}
    (hp : ∀ m m' : Message δ, m.botId = m'.botId → m.author = m'.author → p m = p m') :
    (H.table (n + 1)).newestId p = (H.table n).newestId p := by
  obtain ⟨hvalid, hbots⟩ := hH
  have hallows := hvalid n hn
  have hbot := hbots n hn
  unfold Table.Allows at hallows
  unfold BotAllows at hbot
  refine Table.newestId_congr fun j => ?_
  by_cases hj : (H.changes[n]).envelope.event.messageId = some j
  · rw [table_succ hn]
    unfold Table.apply
    cases hevent : (H.changes[n]).envelope.event with
    | messageCreated m => exact absurd hevent (hnot m)
    | messageDelta b id offset delta =>
        rw [hevent] at hj hbot
        obtain rfl : id = j := Option.some.inj hj
        obtain ⟨m, hm, hs⟩ := hbot
        simp only [Table.appendText_self hm hs, hm, Option.some.injEq, exists_eq_left']
        rw [hp { m with text := m.text ++ delta, updatedAt := H.changes[n].now } m rfl rfl]
    | messageCompleted m =>
        rw [hevent] at hj hbot hallows
        obtain rfl : m.id = j := Option.some.inj hj
        obtain ⟨m', hm', hauthor⟩ := hbot
        obtain ⟨m'', hm'', hbotId, -⟩ := hallows
        obtain rfl := Option.some.inj (hm'.symm.trans hm'')
        have hsame : p m' = p m := hp m' m hbotId hauthor
        simp [hm', hsame]
    | _ => simp [hevent, Event.messageId] at hj
  · rw [table_succ_of_ne hn hj]

/-- A message created is the newest of its kind. -/
theorem newestId_created (hH : H.BotsValid) (hn : n < H.changes.length)
    (hevent : (H.changes[n]).envelope.event = .messageCreated m) {p : Message δ → Bool} :
    (H.table (n + 1)).newestId p = if p m then some m.id else (H.table n).newestId p := by
  have hids := hH.2 n hn
  rw [hevent] at hids
  have hnone : (H.table n)[m.id]? = none := by
    have hallows := hH.1 n hn
    unfold Table.Allows at hallows
    rwa [hevent] at hallows
  have hget : ∀ j : ℕ, (H.table (n + 1))[j]? = if m.id = j then some m else (H.table n)[j]? := by
    intro j
    rw [table_succ hn]
    unfold Table.apply
    rw [hevent]
    exact IdMap.getElem?_insert'
  split
  · next hp =>
      refine Table.newestId_eq_some.mpr ⟨⟨m, by rw [hget, if_pos rfl], hp⟩, fun j m' hm' _ => ?_⟩
      rw [hget] at hm'
      split at hm'
      · next hj => exact hj.ge
      · exact (hids j (Std.ExtTreeMap.mem_iff_isSome_getElem?.mpr (by simp [hm']))).le
  · next hp =>
      refine Table.newestId_congr fun j => ?_
      rw [hget]
      split
      · next hj =>
          subst hj
          simp [hnone, hp]
      · rfl

/-- Whether a Bot is unread changes only by a message of its own. -/
theorem isUnread_succ (hH : H.BotsValid) (hn : n < H.changes.length) {readUpTo : Option ℕ}
    (hnot : ∀ m, (H.changes[n]).envelope.event ≠ .messageCreated m) :
    (H.table (n + 1)).isUnread bot readUpTo = (H.table n).isUnread bot readUpTo := by
  unfold Table.isUnread
  rw [newestId_succ hH hn hnot fun m m' hbot hauthor => by rw [hbot, hauthor]]

theorem isUnread_created (hH : H.BotsValid) (hn : n < H.changes.length) {readUpTo : Option ℕ}
    (hevent : (H.changes[n]).envelope.event = .messageCreated m) :
    (H.table (n + 1)).isUnread bot readUpTo =
      ((H.table n).isUnread bot readUpTo || (decide (m.botId = bot) && m.isUnread readUpTo)) := by
  have hnext := newestId_created hH hn hevent (p := fun m => m.botId = bot && m.author = .bot)
  unfold Table.isUnread
  rw [hnext]
  by_cases hp : (decide (m.botId = bot) && decide (m.author = .bot)) = true
  · obtain ⟨hbot, hauthor⟩ := Bool.and_eq_true_iff.mp hp
    rw [if_pos hp]
    simp only [Option.any_some, hbot, Message.isUnread, hauthor, Bool.true_and]
    -- what was unread before is unread now: the message comes after all others
    cases hnew : (H.table n).newestId fun m => decide (m.botId = bot) && decide (m.author = .bot)
      with
    | none => simp
    | some i =>
        have hids := hH.2 n hn
        rw [hevent] at hids
        obtain ⟨⟨g, hg, -⟩, -⟩ := Table.newestId_eq_some.mp hnew
        have hlt : i < m.id :=
          hids i (Std.ExtTreeMap.mem_iff_isSome_getElem?.mpr (by simp [hg]))
        cases readUpTo with
        | none => simp
        | some read =>
            simp only [Option.any_some, Option.all_some, gt_iff_lt]
            by_cases hread : read < i
            · simp [hread, hread.trans hlt]
            · simp [hread]
  · rw [if_neg hp]
    have hno : (decide (m.botId = bot) && m.isUnread readUpTo) = false := by
      rw [Bool.and_eq_false_iff]
      unfold Message.isUnread
      by_cases hbot : m.botId = bot
      · exact .inr (by simp_all)
      · exact .inl (decide_eq_false hbot)
    rw [hno, Bool.or_false]

/-- The latest message of a Bot after a change that is not about its messages. -/
theorem latest_succ_of_ne (hH : H.BotsValid) (hn : n < H.changes.length)
    (hbot : (H.changes[n]).envelope.event.messageBot ≠ some bot) :
    (H.table (n + 1)).latest bot = (H.table n).latest bot := by
  refine Table.latest_congr (H.table_keyed _) (H.table_keyed _) fun j m hm => ?_
  by_cases hj : (H.changes[n]).envelope.event.messageId = some j
  · have hafter : ∀ g, (H.table (n + 1))[j]? = some g → g.botId ≠ bot := fun g hg hb =>
      hbot (by rw [event_bot hH.1 hn hj hg, hb])
    refine ⟨fun h => absurd hm (hafter m h), fun h => ?_⟩
    obtain ⟨g, hg, hgrows⟩ := grows_succ hH.1 h
    exact absurd (hgrows.botId.trans hm) (hafter g hg)
  · rw [table_succ_of_ne hn hj]

/-- A Bot stays unread or not as long as nothing but messages come. -/
theorem isUnread_mono (hH : H.BotsValid) {readUpTo : Option ℕ} {n' : ℕ} (hle : n ≤ n')
    (h : (H.table n).isUnread bot readUpTo = true) :
    (H.table n').isUnread bot readUpTo = true := by
  induction n', hle using Nat.le_induction with
  | base => exact h
  | succ k _ ih =>
      by_cases hk : k < H.changes.length
      · by_cases hcreated : ∃ m, (H.changes[k]).envelope.event = .messageCreated m
        · obtain ⟨m, hevent⟩ := hcreated
          rw [isUnread_created hH hk hevent, ih, Bool.true_or]
        · rwa [isUnread_succ hH hk fun m hevent => hcreated ⟨m, hevent⟩]
      · rwa [table_succ_of_le (by omega)]

/-- A message created is the latest of its Bot. -/
theorem latest_created (hH : H.BotsValid) (hn : n < H.changes.length)
    (hevent : (H.changes[n]).envelope.event = .messageCreated m) :
    (H.table (n + 1)).latest m.botId = some m := by
  have hget : (H.table (n + 1))[m.id]? = some m := by
    rw [table_succ hn]
    simp [Table.apply, hevent]
  unfold Table.latest
  rw [newestId_created hH hn hevent, if_pos (by simp), Option.bind_some, hget]

/-- A change that creates no message leaves each Bot its latest one, as the change makes it. -/
theorem latest_succ (hH : H.BotsValid) (hn : n < H.changes.length)
    (hnot : ∀ m, (H.changes[n]).envelope.event ≠ .messageCreated m) :
    (H.table (n + 1)).latest bot =
      ((H.table n).latest bot).bind fun g => (H.table (n + 1))[g.id]? := by
  unfold Table.latest
  rw [newestId_succ hH hn hnot fun m m' hbot _ => by rw [hbot]]
  cases hnew : (H.table n).newestId fun m => m.botId = bot with
  | none => rfl
  | some i =>
      obtain ⟨⟨g, hg, -⟩, -⟩ := Table.newestId_eq_some.mp hnew
      rw [Option.bind_some, Option.bind_some, hg, Option.bind_some, H.table_keyed n i g hg]

/-- A Bot's latest message stays as it is while a change is about another. -/
theorem latest_same (hH : H.BotsValid) (hn : n < H.changes.length)
    (hnot : ∀ m, (H.changes[n]).envelope.event ≠ .messageCreated m)
    (hother : ∀ g, (H.table n).latest bot = some g →
      (H.changes[n]).envelope.event.messageId ≠ some g.id) :
    (H.table (n + 1)).latest bot = (H.table n).latest bot := by
  rw [latest_succ hH hn hnot]
  cases hlatest : (H.table n).latest bot with
  | none => rfl
  | some g =>
      obtain ⟨hg, -, -⟩ := (Table.latest_eq_some (H.table_keyed n)).mp hlatest
      rw [Option.bind_some, table_succ_of_ne hn (hother g hlatest), hg]

/-- What streams on still streams. -/
theorem delta_streaming (hH : H.BotsValid) (hn : n < H.changes.length) {b offset : ℕ}
    {delta : List Char}
    (hevent : (H.changes[n]).envelope.event = .messageDelta b i offset delta) :
    ∃ g, (H.table (n + 1))[i]? = some g ∧ g.state = .streaming := by
  have hbot := hH.2 n hn
  rw [hevent] at hbot
  obtain ⟨m, hm, hs⟩ := hbot
  rw [table_succ hn]
  unfold Table.apply
  rw [hevent]
  exact ⟨_, Table.appendText_self hm hs, hs⟩

/-- A table is as it was when a change is about no message. -/
theorem table_same (hn : n < H.changes.length)
    (hnone : (H.changes[n]).envelope.event.messageId = none) : H.table (n + 1) = H.table n :=
  Std.ExtTreeMap.ext_getElem? fun i => table_succ_of_ne hn (by simp [hnone])

end History

end Bokkie
