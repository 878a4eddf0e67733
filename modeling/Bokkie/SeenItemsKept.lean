import Bokkie.SeenRecency

/-!
# The items kept are those shown lately

Before the oldest rows are dropped the table holds every item that is to be remembered. Where the
rows of one instant are in the order of their marks, the cut drops those after which enough others
were marked, and no others.
-/

namespace Bokkie.Seen

open Recency

section Cut

variable {owner : ℕ → Option ℕ} {rows : List Row} {marks : ℕ → List Mark} {bot user : ℕ} {now : ℤ}

/-- How many items of a row's Bot were marked since its own. -/
def rank (marks : ℕ → List Mark) (r : Row) : ℕ := (laterItems (marks r.bot) r.item).length

/-- A Bot's rows before a cut: all that are to be remembered, and in order at each instant. -/
structure Ready (rows : List Row) (marks : ℕ → List Mark) (now : ℤ) (bot : ℕ) : Prop where
  times : (marks bot).Pairwise fun m m' => m'.time ≤ m.time
  present : ∀ id m, latestMark (marks bot) id = some m → now - RETENTION_MS < m.time →
    (laterItems (marks bot) id).length < MAX_PER_BOT → ∃ r ∈ rows, r.bot = bot ∧ r.item = id
  ordered : ∀ r ∈ rows, ∀ s ∈ rows, r.bot = bot → s.bot = bot → r.shownAt = s.shownAt →
    now - RETENTION_MS < r.shownAt → rank marks r < MAX_PER_BOT → MAX_PER_BOT ≤ rank marks s →
    s.rowid < r.rowid

theorem mem_ids_of_latestMark {l : List Mark} {id : String} {m : Mark}
    (h : latestMark l id = some m) : id ∈ l.map Mark.id := by
  have hid : m.id = id := by simpa using List.find?_some h
  exact hid ▸ List.mem_map_of_mem (List.mem_of_find?_eq_some h)

theorem Filed.mem_ids (h : Filed owner rows marks) {r : Row} (hr : r ∈ rows) :
    r.item ∈ (marks r.bot).map Mark.id :=
  mem_ids_of_latestMark (h.latest r hr)

/-- A row marked later was shown no earlier. -/
theorem Filed.shownAt_le (h : Filed owner rows marks) (hready : Ready rows marks now bot)
    {r s : Row} (hr : r ∈ rows) (hs : s ∈ rows) (hrbot : r.bot = bot) (hsbot : s.bot = bot)
    (hrank : rank marks r < rank marks s) : s.shownAt ≤ r.shownAt := by
  have hlatest := h.latest r hr
  have hlatest' := h.latest s hs
  have hmem := h.mem_ids hr
  unfold rank at hrank
  rw [hrbot] at hlatest hmem hrank
  rw [hsbot] at hlatest' hrank
  exact rel_of_later Mark.id hready.times hlatest hlatest' (mem_later_of_length_lt hmem hrank)

/-- What stands before a row that is to be remembered is to be remembered too. -/
theorem Filed.rank_lt_of_above (h : Filed owner rows marks) (hready : Ready rows marks now bot)
    {r s : Row} (hr : r ∈ rows) (hs : s ∈ rows) (hrbot : r.bot = bot) (hsbot : s.bot = bot)
    (hfresh : now - RETENTION_MS < r.shownAt) (hrank : rank marks r < MAX_PER_BOT)
    (habove : s.Above r) : rank marks s < MAX_PER_BOT := by
  by_contra hge
  have hge : MAX_PER_BOT ≤ rank marks s := Nat.le_of_not_lt hge
  have hle := h.shownAt_le hready hr hs hrbot hsbot (hrank.trans_le hge)
  have heq : r.shownAt = s.shownAt := by
    unfold Row.Above at habove
    omega
  have hlt := hready.ordered r hr s hs hrbot hsbot heq hfresh hrank hge
  unfold Row.Above at habove
  omega

/-- The items of the Bot's rows that stand before one. -/
def itemsAbove (rows : List Row) (user bot : ℕ) (r : Row) : List String :=
  ((rows.filter (·.IsOf bot user)).filter (·.Above r)).map (·.item)

theorem mem_itemsAbove {r : Row} {id : String} : id ∈ itemsAbove rows user bot r ↔
    ∃ s ∈ rows, s.IsOf bot user ∧ s.Above r ∧ s.item = id := by
  simp [itemsAbove, and_assoc, and_left_comm]

theorem length_itemsAbove (r : Row) : (itemsAbove rows user bot r).length =
    (rows.filter (·.IsOf bot user)).countP (·.Above r) := by
  rw [itemsAbove, List.length_map, List.countP_eq_length_filter]

theorem Filed.nodup_itemsAbove (h : Filed owner rows marks) (r : Row) :
    (itemsAbove rows user bot r).Nodup := by
  have hrows : ((rows.filter (·.IsOf bot user)).filter (·.Above r)).Nodup :=
    (List.Nodup.of_map _ h.distinct).filter _ |>.filter _
  refine List.Nodup.map_on (fun s hs t ht hitem => ?_) hrows
  have hs : s ∈ rows ∧ s.IsOf bot user := by simpa using List.mem_of_mem_filter hs
  have ht : t ∈ rows ∧ t.IsOf bot user := by simpa using List.mem_of_mem_filter ht
  exact h.named s hs.1 t ht.1 (hs.2.1.trans ht.2.1.symm) hitem

/-- The items marked most recently, as many as are kept. -/
def newest (marks : ℕ → List Mark) (bot : ℕ) : List String :=
  (order ((marks bot).map Mark.id)).take MAX_PER_BOT

theorem nodup_newest : (newest marks bot).Nodup := nodup_order.sublist (List.take_sublist _ _)

theorem Filed.mem_newest (h : Filed owner rows marks) {r : Row} (hr : r ∈ rows)
    (hbot : r.bot = bot) : r.item ∈ newest marks bot ↔ rank marks r < MAX_PER_BOT := by
  have hmem := h.mem_ids hr
  rw [hbot] at hmem
  rw [newest, mem_take_order hmem, rank, hbot]
  rfl

/-- A row that is to be remembered stays. -/
theorem Filed.stays (h : Filed owner rows marks) (hready : Ready rows marks now bot)
    {r : Row} (hr : r ∈ rows) (hof : r.IsOf bot user) (hfresh : now - RETENTION_MS < r.shownAt)
    (hrank : rank marks r < MAX_PER_BOT) : r ∈ dropOldest rows user bot := by
  refine mem_dropOldest.mpr ⟨hr, fun _ hpast => ?_⟩
  have hmost := (mem_pastMost_iff h.distinct hr hof).mp hpast
  have hself : r.item ∈ newest marks bot := (h.mem_newest hr hof.1).mpr hrank
  have hsubset : itemsAbove rows user bot r ⊆ (newest marks bot).erase r.item := by
    intro id hid
    obtain ⟨s, hs, hsof, habove, rfl⟩ := mem_itemsAbove.mp hid
    have hne : s.item ≠ r.item := by
      intro heq
      obtain rfl := h.named s hs r hr (hsof.1.trans hof.1.symm) heq
      exact Row.Above.asymm s s habove habove
    have hlt := h.rank_lt_of_above hready hr hs hof.1 hsof.1 hfresh hrank habove
    exact (List.mem_erase_of_ne hne).mpr ((h.mem_newest hs hsof.1).mpr hlt)
  have hle := (List.Nodup.subperm (h.nodup_itemsAbove r) hsubset).length_le
  have htake : (newest marks bot).length ≤ MAX_PER_BOT := List.length_take_le _ _
  have hpos := List.length_pos_of_mem hself
  rw [List.length_erase_of_mem hself, length_itemsAbove] at hle
  omega

/-- A row that enough others were marked after goes, unless it is too old to matter. -/
theorem Filed.goes (h : Filed owner rows marks) (howner : owner bot = some user)
    (hready : Ready rows marks now bot) {r : Row} (hr : r ∈ rows) (hof : r.IsOf bot user)
    (hfresh : now - RETENTION_MS < r.shownAt) (hrank : MAX_PER_BOT ≤ rank marks r) :
    r ∉ dropOldest rows user bot := by
  intro hstays
  refine (mem_dropOldest.mp hstays).2 hof ((mem_pastMost_iff h.distinct hr hof).mpr ?_)
  have hlatest := h.latest r hr
  have hrank' : MAX_PER_BOT ≤ (laterItems (marks bot) r.item).length := hof.1 ▸ hrank
  rw [hof.1] at hlatest
  have hsubset : newest marks bot ⊆ itemsAbove rows user bot r := by
    intro id hid
    have hids : id ∈ (marks bot).map Mark.id :=
      mem_order.mp (List.mem_of_mem_take hid)
    have hlt : (laterItems (marks bot) id).length < MAX_PER_BOT := (mem_take_order hids).mp hid
    obtain ⟨m, hm⟩ : ∃ m, latestMark (marks bot) id = some m := by
      obtain ⟨m, hm, hmid⟩ := List.mem_map.mp hids
      exact Option.isSome_iff_exists.mp (List.find?_isSome.mpr ⟨m, hm, by simpa using hmid⟩)
    have hlater : id ∈ later r.item ((marks bot).map Mark.id) :=
      mem_later_of_length_lt hids (hlt.trans_le hrank')
    have htime : r.shownAt ≤ m.time := rel_of_later Mark.id hready.times hm hlatest hlater
    obtain ⟨s, hs, hsbot, rfl⟩ := hready.present id m hm (hfresh.trans_le htime) hlt
    have hsm : s.shownAt = m.time := by
      have hslatest := h.latest s hs
      rw [hsbot, hm] at hslatest
      exact (congrArg Mark.time (Option.some.inj hslatest)).symm
    have hsuser : s.user = user := by
      have howned := h.owned s hs
      rw [hsbot, howner] at howned
      exact (Option.some.inj howned).symm
    have hsrank : rank marks s < MAX_PER_BOT := by
      rw [rank, hsbot]
      exact hlt
    refine mem_itemsAbove.mpr ⟨s, hs, ⟨hsbot, hsuser⟩, ?_, rfl⟩
    rcases (hsm ▸ htime).lt_or_eq with hlt' | heq
    · exact .inl hlt'
    · refine .inr ⟨heq, ?_⟩
      exact hready.ordered s hs r hr hsbot hof.1 heq.symm (heq ▸ hfresh) hsrank hrank
  have hlength : (newest marks bot).length = MAX_PER_BOT := length_take_order hrank'
  rw [← length_itemsAbove, ← hlength]
  exact (List.Nodup.subperm nodup_newest hsubset).length_le

end Cut

section Run

variable {owner : ℕ → Option ℕ} {w w' : World}

/-- What every call in order leaves. -/
structure Kept (owner : ℕ → Option ℕ) (w : World) : Prop where
  filed : Filed owner w.rows w.marks
  times : ∀ bot, (w.marks bot).Pairwise fun m m' => m'.time ≤ m.time
  past : ∀ bot, ∀ m ∈ w.marks bot, m.time ≤ w.clock
  within : ∀ r ∈ w.rows, w.clock - RETENTION_MS < r.shownAt → rank w.marks r < MAX_PER_BOT
  present : ∀ bot id m, latestMark (w.marks bot) id = some m → w.clock - RETENTION_MS < m.time →
    (laterItems (w.marks bot) id).length < MAX_PER_BOT → ∃ r ∈ w.rows, r.bot = bot ∧ r.item = id
  bounded : ∀ user bot, count w.rows user bot ≤ MAX_PER_BOT

theorem kept_start (clock : ℤ) : Kept owner (.start clock) where
  filed := ⟨List.nodup_nil, by simp [World.start], by simp [World.start], by simp [World.start]⟩
  times _ := List.Pairwise.nil
  past _ m hm := absurd hm List.not_mem_nil
  within r hr := absurd hr List.not_mem_nil
  present _ id m hm := by simp [World.start, latestMark, latest] at hm
  bounded _ _ := Nat.zero_le _

/-- Time passes, and rows too old to matter may go. -/
theorem Kept.later (h : Kept owner w) {now : ℤ} (hnow : w.clock ≤ now) {p : Row → Bool}
    (hp : ∀ r ∈ w.rows, now - RETENTION_MS < r.shownAt → p r = true) :
    Kept owner { w with clock := now, rows := w.rows.filter p } where
  filed := h.filed.filter p
  times := h.times
  past bot m hm := (h.past bot m hm).trans hnow
  within r hr hfresh := h.within r (List.mem_of_mem_filter hr) (by dsimp only at hfresh; omega)
  present bot id m hm hfresh hrank := by
    dsimp only at hfresh
    obtain ⟨r, hr, hbot, rfl⟩ := h.present bot id m hm (by omega) hrank
    have hlatest := h.filed.latest r hr
    rw [hbot, hm] at hlatest
    have htime : m.time = r.shownAt := congrArg Mark.time (Option.some.inj hlatest)
    exact ⟨r, List.mem_filter.mpr ⟨hr, hp r hr (htime ▸ hfresh)⟩, hbot, rfl⟩
  bounded user bot := by
    refine le_trans ?_ (h.bounded user bot)
    exact (List.filter_sublist.filter _).length_le

theorem Kept.passes (h : Kept owner w) {now : ℤ} (hnow : w.clock ≤ now) :
    Kept owner { w with clock := now } := by
  have hlater := h.later hnow (p := fun _ => true) fun _ _ _ => rfl
  simpa using hlater

/-- A call of a user whose Bot it is not changes nothing. -/
theorem insertItems_of_ne {rows : List Row} {user bot : ℕ} (howner : owner bot ≠ some user)
    (now : ℤ) (items : List Item) : (insertItems owner now user bot rows items).1 = rows := by
  induction items with
  | nil => rfl
  | cons item items ih =>
      have hone : (insertItem owner rows now user bot item).1 = rows := by
        simp [insertItem, howner]
      rw [insertItems]
      dsimp only
      rw [hone]
      exact ih

section Mark

variable {now : ℤ} {user bot : ℕ} {items : List Item}

theorem ids_marksOf : (marksOf now items).map Mark.id = (items.map (·.id)).reverse := by
  simp [marksOf, Mark.id, Function.comp_def]

theorem time_of_mem_marksOf {m : Mark} (hm : m ∈ marksOf now items) : m.time = now := by
  obtain ⟨item, -, rfl⟩ := List.mem_map.mp (List.mem_reverse.mp hm)
  rfl

/-- The marks of a Bot after a call of it. -/
def after (w : World) (now : ℤ) (bot : ℕ) (items : List Item) : ℕ → List Mark :=
  Function.update w.marks bot (marksOf now items ++ w.marks bot)

theorem after_self : after w now bot items bot = marksOf now items ++ w.marks bot :=
  Function.update_self ..

theorem after_of_ne {b : ℕ} (h : b ≠ bot) : after w now bot items b = w.marks b :=
  Function.update_of_ne h ..

theorem ids_after : (after w now bot items bot).map Mark.id =
    (items.map (·.id)).reverse ++ (w.marks bot).map Mark.id := by
  rw [after_self, List.map_append, ids_marksOf]

/-- An item of the call itself has few marked after it. -/
theorem rank_lt_of_mem (hlength : items.length ≤ MAX_PER_CALL) {id : String}
    (hid : id ∈ items.map (·.id)) :
    (laterItems (after w now bot items bot) id).length < MAX_PER_BOT := by
  have hlt : (later id ((items.map (·.id)).reverse ++ (w.marks bot).map Mark.id)).length <
      (items.map (·.id)).reverse.length := length_later_append_lt (List.mem_reverse.mpr hid)
  rw [laterItems, ids_after]
  rw [List.length_reverse, List.length_map] at hlt
  unfold MAX_PER_CALL at hlength
  unfold MAX_PER_BOT
  omega

/-- Before the cut of a call, the Bot's rows are ready for it. -/
theorem Kept.ready (h : Kept owner w) (howner : owner bot = some user) (hnow : w.clock ≤ now)
    (hlength : items.length ≤ MAX_PER_CALL)
    (hagrees : RowOrder w.rows (marksOf now items ++ w.marks bot) now bot) :
    Ready (insertItems owner now user bot w.rows items).1 (after w now bot items) now bot := by
  obtain ⟨hfiled, hgrown⟩ := insertItems_spec h.filed howner now items
  refine ⟨?_, fun id m hm hfresh hrank => ?_, ?_⟩
  · rw [after_self]
    refine List.pairwise_append.mpr ⟨?_, h.times bot, fun m hm m' hm' => ?_⟩
    · have hall : (marksOf now items).Pairwise fun _ _ => True :=
        List.pairwise_of_forall fun _ _ => trivial
      refine hall.imp_of_mem fun hm hm' _ => ?_
      rw [time_of_mem_marksOf hm, time_of_mem_marksOf hm']
    · rw [time_of_mem_marksOf hm]
      exact (h.past bot m' hm').trans hnow
  · by_cases hid : id ∈ items.map (·.id)
    · exact hgrown.marked id hid
    · have hnew : ∀ m ∈ marksOf now items, ¬ m.id = id := by
        rintro m' hm' rfl
        have hmem : m'.id ∈ (marksOf now items).map Mark.id := List.mem_map_of_mem hm'
        rw [ids_marksOf, List.mem_reverse] at hmem
        exact hid hmem
      have hm : latestMark (w.marks bot) id = some m := by
        have hnone : (marksOf now items).find? (Mark.id · = id) = none :=
          List.find?_eq_none.mpr fun m hm => by simpa using hnew m hm
        rw [after_self, latestMark, latest, List.find?_append, hnone] at hm
        simpa [latestMark, latest] using hm
      have hle : (laterItems (w.marks bot) id).length ≤
          (laterItems (after w now bot items bot) id).length := by
        rw [laterItems, laterItems, ids_after]
        exact length_later_append_le (by simpa using hid)
      obtain ⟨r, hr, hbot, hitem⟩ := h.present bot id m hm (by omega) (hle.trans_lt hrank)
      obtain ⟨r', hr', -, hbot', hitem'⟩ := hgrown.old r hr
      exact ⟨r', hr', hbot'.trans hbot, hitem'.trans hitem⟩
  · intro r hr s hs hrbot hsbot htime hfresh hrank hmost
    have hrlatest := hfiled.latest r hr
    have hslatest := hfiled.latest s hs
    rw [hrbot] at hrlatest
    rw [hsbot] at hslatest
    rw [rank, hrbot] at hrank
    rw [rank, hsbot] at hmost
    rcases hgrown.new s hs with ⟨s₀, hs₀, hsid, hsbot₀, hsitem⟩ | ⟨-, hid, -⟩
    · rcases hgrown.new r hr with ⟨r₀, hr₀, hrid, hrbot₀, hritem⟩ | ⟨-, -, hlast⟩
      · rw [← hrid, ← hsid]
        rw [← after_self] at hagrees
        refine hagrees r₀ hr₀ s₀ hs₀ (hrbot₀.trans hrbot) (hsbot₀.trans hsbot) _ _
          (hritem ▸ hrlatest) (hsitem ▸ hslatest) htime hfresh (hritem ▸ hrank) (hsitem ▸ hmost)
      · rw [← hsid]
        exact hlast s₀ hs₀
    · exact absurd hmost (Nat.not_le_of_lt (rank_lt_of_mem hlength hid))

/-- The cut concerns the Bot's own rows. -/
theorem dropOldest_others {rows : List Row} :
    (dropOldest rows user bot).filter (·.bot ≠ bot) = rows.filter (·.bot ≠ bot) := by
  rw [dropOldest, List.filter_filter]
  refine List.filter_congr fun r _ => ?_
  by_cases hbot : r.bot = bot <;> simp [Row.IsOf, hbot]

/-- A call changes no other Bot's rows. -/
theorem mark_others (h : Filed owner w.rows w.marks) :
    (mark owner w.rows now user bot items).1.filter (·.bot ≠ bot) =
      w.rows.filter (·.bot ≠ bot) := by
  rw [mark, dropOldest_others]
  by_cases howner : owner bot = some user
  · exact (insertItems_spec h howner now items).2.others
  · rw [insertItems_of_ne howner]

theorem mem_mark_of_ne (h : Filed owner w.rows w.marks) {r : Row} (hbot : r.bot ≠ bot) :
    r ∈ (mark owner w.rows now user bot items).1 ↔ r ∈ w.rows := by
  have hothers : (mark owner w.rows now user bot items).1.filter (·.bot ≠ bot) =
      w.rows.filter (·.bot ≠ bot) := mark_others h
  have hmem := congrArg (r ∈ ·) hothers
  simpa [hbot] using hmem

theorem count_of_ne (h : Filed owner w.rows w.marks) {u b : ℕ} (hbot : b ≠ bot) :
    count (mark owner w.rows now user bot items).1 u b = count w.rows u b := by
  have hof : ∀ rows : List Row, rows.filter (·.IsOf b u) =
      (rows.filter (·.bot ≠ bot)).filter (·.IsOf b u) := by
    intro rows
    rw [List.filter_filter]
    refine List.filter_congr fun r _ => ?_
    by_cases hr : r.bot = b <;> simp [Row.IsOf, hr, hbot]
  rw [count, count, hof, mark_others h, ← hof]

theorem count_of_owner {rows : List Row} {marks : ℕ → List Mark} (h : Filed owner rows marks)
    {u b : ℕ} (hne : owner b ≠ some u) : count rows u b = 0 := by
  rw [count, List.length_eq_zero_iff, List.filter_eq_nil_iff]
  intro r hr hof
  obtain ⟨rfl, rfl⟩ : r.IsOf b u := by simpa using hof
  exact hne (h.owned r hr)

/-- A call of the Bot's own user, where the rows' order agrees with the marks. -/
theorem Kept.marks (h : Kept owner w) (howner : owner bot = some user) (hnow : w.clock ≤ now)
    (hlength : items.length ≤ MAX_PER_CALL)
    (hagrees : RowOrder w.rows (marksOf now items ++ w.marks bot) now bot) :
    Kept owner ⟨(mark owner w.rows now user bot items).1, now, after w now bot items⟩ := by
  have hready := h.ready howner hnow hlength hagrees
  have hfiled := (insertItems_spec h.filed howner now items).1
  have hkept : Filed owner (mark owner w.rows now user bot items).1 (after w now bot items) :=
    hfiled.filter _
  have hof : ∀ r ∈ (insertItems owner now user bot w.rows items).1, r.bot = bot →
      r.IsOf bot user := by
    intro r hr hbot
    have howned := hfiled.owned r hr
    rw [hbot, howner] at howned
    exact ⟨hbot, (Option.some.inj howned).symm⟩
  refine ⟨hkept, fun b => ?_, fun b m hm => ?_, fun r hr hfresh => ?_,
    fun b id m hm hfresh hrank => ?_, fun u b => ?_⟩
  · by_cases hb : b = bot
    · exact hb ▸ hready.times
    · dsimp only
      rw [after_of_ne hb]
      exact h.times b
  · by_cases hb : b = bot
    · subst hb
      dsimp only at hm
      rw [after_self] at hm
      rcases List.mem_append.mp hm with hm | hm
      · exact (time_of_mem_marksOf hm).le
      · exact (h.past b m hm).trans hnow
    · dsimp only at hm
      rw [after_of_ne hb] at hm
      exact (h.past b m hm).trans hnow
  · by_cases hb : r.bot = bot
    · by_contra hge
      have hr' := (mem_dropOldest.mp hr).1
      exact hfiled.goes howner hready hr' (hof r hr' hb) hfresh (Nat.le_of_not_lt hge) hr
    · dsimp only at hfresh ⊢
      rw [rank, after_of_ne hb]
      exact h.within r ((mem_mark_of_ne h.filed hb).mp hr) (by omega)
  · dsimp only at hfresh
    by_cases hb : b = bot
    · subst hb
      obtain ⟨r, hr, hbot, rfl⟩ := hready.present id m hm hfresh hrank
      have hlatest := hfiled.latest r hr
      have htime : r.shownAt = m.time := by
        rw [hbot] at hlatest
        exact congrArg Mark.time (Option.some.inj (hlatest.symm.trans hm))
      have hrank' : rank (after w now b items) r < MAX_PER_BOT := by
        rw [rank, hbot]
        exact hrank
      exact ⟨r, hfiled.stays hready hr (hof r hr hbot) (htime ▸ hfresh) hrank', hbot, rfl⟩
    · dsimp only at hm hrank
      rw [after_of_ne hb] at hm hrank
      obtain ⟨r, hr, hbot, hitem⟩ := h.present b id m hm (by omega) hrank
      exact ⟨r, (mem_mark_of_ne h.filed (hbot ▸ hb)).mpr hr, hbot, hitem⟩
  · by_cases hu : owner b = some u
    · by_cases hb : b = bot
      · subst hb
        obtain rfl : user = u := Option.some.inj (howner.symm.trans hu)
        exact count_dropOldest_le
      · dsimp only
        rw [count_of_ne h.filed hb]
        exact h.bounded u b
    · dsimp only
      rw [count_of_owner hkept hu]
      exact Nat.zero_le _

/-- A call of another user. -/
theorem mark_of_ne (h : Filed owner w.rows w.marks) (howner : owner bot ≠ some user) :
    (mark owner w.rows now user bot items).1 = w.rows := by
  rw [mark, insertItems_of_ne howner]
  refine List.filter_eq_self.mpr fun r hr => ?_
  have hnot : ¬ r.IsOf bot user := by
    rintro ⟨rfl, rfl⟩
    exact howner (h.owned r hr)
  simp [hnot]

end Mark

/-- Every call in its order keeps the table, if the rows' order agrees with the marks. -/
theorem kept_step (h : Kept owner w) {op : Op} (hstep : w.step owner op = some w')
    (hagrees : Agrees owner w op) : Kept owner w' := by
  cases op with
  | mark now user bot items =>
      obtain ⟨⟨hnow, hlength⟩, hw⟩ := Option.ite_none_right_eq_some.mp hstep
      obtain rfl := Option.some.inj hw
      by_cases howner : owner bot = some user
      · rw [World.marked, if_pos howner]
        exact h.marks howner hnow hlength (hagrees howner)
      · rw [World.marked, if_neg howner, mark_of_ne h.filed howner]
        exact h.passes hnow
  | check now user bot ids =>
      obtain ⟨hnow, hw⟩ := Option.ite_none_right_eq_some.mp hstep
      obtain rfl := Option.some.inj hw
      exact h.passes hnow
  | prune now =>
      obtain ⟨hnow, hw⟩ := Option.ite_none_right_eq_some.mp hstep
      obtain rfl := Option.some.inj hw
      refine h.later hnow fun r _ hfresh => ?_
      simpa using hfresh

/-- The row that a check finds. -/
def foundRow (rows : List Row) (now : ℤ) (user bot : ℕ) (id : String) : Option Row :=
  rows.find? fun r => r.IsOf bot user ∧ r.item = id ∧ now - RETENTION_MS < r.shownAt

theorem lookup_filterMap {β : Type} (f : String → Option β) (id : String) (ids : List String) :
    (ids.filterMap fun i => (f i).map fun b => (i, b)).lookup id =
      if id ∈ ids then f id else none := by
  induction ids with
  | nil => rfl
  | cons i ids ih =>
      cases hf : f i with
      | none =>
          rw [List.filterMap_cons_none (by rw [hf]; rfl), ih]
          by_cases hi : id = i
          · subst hi
            simp [hf]
          · simp [hi]
      | some b =>
          rw [List.filterMap_cons_some (by rw [hf]; rfl)]
          by_cases hi : id = i
          · subst hi
            simp [hf]
          · rw [List.lookup_cons, beq_eq_false_iff_ne.mpr hi, ih]
            simp [hi]

theorem lookup_shown {rows : List Row} {now : ℤ} {user bot : ℕ} {ids : List String} {id : String}
    (hid : id ∈ ids) :
    (shown rows now user bot ids).lookup id = (foundRow rows now user bot id).map Row.shown := by
  have hshown : shown rows now user bot ids = ids.filterMap fun id =>
      ((foundRow rows now user bot id).map Row.shown).map fun s => (id, s) := by
    refine List.filterMap_congr fun id _ => ?_
    rw [Option.map_map]
    rfl
  rw [hshown, lookup_filterMap (fun id => (foundRow rows now user bot id).map Row.shown),
    if_pos hid]

/-- What the table says of an item is what its marks say. -/
theorem Kept.reported (h : Kept owner w) {now : ℤ} (hnow : w.clock ≤ now) {user bot : ℕ}
    (howner : owner bot = some user) {ids : List String} {id : String} (hid : id ∈ ids) :
    (shown w.rows now user bot ids).lookup id = remembered (w.marks bot) id now := by
  rw [lookup_shown hid]
  cases hfound : foundRow w.rows now user bot id with
  | some r =>
      have hr := List.mem_of_find?_eq_some hfound
      obtain ⟨hof, rfl, hfresh⟩ :
          r.IsOf bot user ∧ r.item = id ∧ now - RETENTION_MS < r.shownAt := by
        simpa using List.find?_some hfound
      have hlatest := h.filed.latest r hr
      have hrank := h.within r hr (by omega)
      rw [hof.1] at hlatest
      rw [rank, hof.1] at hrank
      simp [remembered, hlatest, hfresh, hrank, Row.shown, Mark.shown]
  | none =>
      have hnot := List.find?_eq_none.mp hfound
      unfold remembered
      cases hlatest : latestMark (w.marks bot) id with
      | none => rfl
      | some m =>
          have hgone : ¬ (now - RETENTION_MS < m.time ∧
              (laterItems (w.marks bot) id).length < MAX_PER_BOT) := by
            rintro ⟨hfresh, hrank⟩
            obtain ⟨r, hr, hbot, rfl⟩ := h.present bot id m hlatest (by omega) hrank
            have hrow := h.filed.latest r hr
            rw [hbot, hlatest] at hrow
            have htime : m.time = r.shownAt := congrArg Mark.time (Option.some.inj hrow)
            have howned := h.filed.owned r hr
            rw [hbot, howner] at howned
            have huser : r.user = user := (Option.some.inj howned).symm
            exact hnot r hr (by simpa [Row.IsOf, hbot, huser] using htime ▸ hfresh)
          rw [Option.filter_some_neg (by simpa using hgone)]
          rfl

/-- A call leaves the rows of every Bot as they are but the user's own that it marks for. -/
theorem Kept.others (h : Kept owner w) {op : Op} (hstep : w.step owner op = some w')
    (hprune : ∀ now, op ≠ .prune now) {bot : ℕ} (hbot : ¬ op.Marks owner bot) :
    w'.rows.filter (·.bot = bot) = w.rows.filter (·.bot = bot) := by
  cases op with
  | mark now user b items =>
      obtain ⟨-, hw⟩ := Option.ite_none_right_eq_some.mp hstep
      obtain rfl := Option.some.inj hw
      by_cases howner : owner b = some user
      · have hne : bot ≠ b := fun heq => hbot ⟨heq.symm, howner⟩
        have hof : ∀ rows : List Row, rows.filter (·.bot = bot) =
            (rows.filter (·.bot ≠ b)).filter (·.bot = bot) := by
          intro rows
          rw [List.filter_filter]
          refine List.filter_congr fun r _ => ?_
          by_cases hr : r.bot = bot <;> simp [hr, hne]
        rw [hof, mark_others h.filed, ← hof]
      · rw [mark_of_ne h.filed howner]
  | check now user b ids =>
      obtain ⟨-, hw⟩ := Option.ite_none_right_eq_some.mp hstep
      obtain rfl := Option.some.inj hw
      rfl
  | prune now => exact absurd rfl (hprune now)

end Run

section Faithful

variable {owner : ℕ → Option ℕ}

/-- A step that comes in order, where the rows' order agrees with the marks. -/
def Steps (owner : ℕ → Option ℕ) (w : World) (op : Op) (w' : World) : Prop :=
  w.step owner op = some w' ∧ Agrees owner w op

/-- Whatever is marked, checked and pruned, the table holds what was shown lately. -/
theorem seen_items_kept {clock : ℤ} {ops : List Op} {w : World}
    (h : Runs.Run (Steps owner) (.start clock) ops w) : Faithful owner w := by
  have hkept : Kept owner w :=
    h.invariant (I := Kept owner) (fun _ _ _ hkept hstep => kept_step hkept hstep.1 hstep.2)
      (kept_start clock)
  exact ⟨hkept.bounded, fun _ _ _ _ _ hnow howner hid => hkept.reported hnow howner hid,
    fun _ _ _ hstep hprune hbot => hkept.others hstep hprune hbot⟩

/-- Few marks leave no choice. -/
theorem agrees_of_few {w : World} {now : ℤ} {user bot : ℕ} {items : List Item}
    (h : (marksOf now items ++ w.marks bot).length < MAX_PER_BOT) :
    Agrees owner w (.mark now user bot items) := by
  intro _ x _ y _ _ _ m m' _ _ _ _ _ hmost
  have hle : (laterItems (marksOf now items ++ w.marks bot) y.item).length ≤
      (marksOf now items ++ w.marks bot).length := by
    refine (List.dedup_sublist _).length_le.trans ((List.takeWhile_sublist _).length_le.trans ?_)
    rw [List.length_map]
  omega

end Faithful

section Tie

/-- One Bot, of user 1. -/
def tieOwner (bot : ℕ) : Option ℕ := if bot = 1 then some 1 else none

def firstItem : Item := ⟨"arxiv:2401.00001", "First", "https://arxiv.org/abs/2401.00001"⟩

def secondItem : Item := ⟨"arxiv:2401.00002", "Second", "https://arxiv.org/abs/2401.00002"⟩

def otherId (i : ℕ) : String := "https://example.com/" ++ decimal i

def otherItem (i : ℕ) : Item := ⟨otherId i, "Other", otherId i⟩

def firstRow : Row := ⟨1, 1, 1, firstItem.id, firstItem.title, firstItem.url, 2⟩

def secondRow : Row := ⟨2, 1, 1, secondItem.id, secondItem.title, secondItem.url, 2⟩

def otherRow (i : ℕ) : Row := ⟨i + 3, 1, 1, otherId i, "Other", otherId i, 3⟩

def tieRows (n : ℕ) : List Row := firstRow :: secondRow :: (List.range n).map otherRow

/-- The first item, marked alone and then again after the second; and then so many others. -/
def tieMarks (n : ℕ) : List Mark :=
  marksOf 3 ((List.range n).map otherItem) ++ marksOf 2 [secondItem, firstItem] ++
    marksOf 1 [firstItem]

def tieWorld (n : ℕ) : World :=
  ⟨tieRows n, 3, Function.update (fun _ => []) 1 (tieMarks n)⟩

theorem toList_otherId (i : ℕ) :
    (otherId i).toList = "https://example.com/".toList ++ Nat.toDigits 10 i :=
  String.toList_append.trans (congrArg (_ ++ ·) String.toList_ofList)

theorem otherId_inj {i j : ℕ} (h : otherId i = otherId j) : i = j := by
  have hdigits : Nat.toDigits 10 i = Nat.toDigits 10 j := by
    have hlist := congrArg String.toList h
    rw [toList_otherId, toList_otherId] at hlist
    exact List.append_cancel_left hlist
  rw [← Nat.ofDigitChars_ten_toDigits (n := i), ← Nat.ofDigitChars_ten_toDigits (n := j), hdigits]

theorem otherId_ne {id : String} (h : id.toList.head? = some 'a') (i : ℕ) : otherId i ≠ id := by
  rintro rfl
  have hhead : "https://example.com/".toList.head? = some 'h' := by decide +kernel
  rw [toList_otherId, List.head?_append, hhead] at h
  cases h

theorem nextRowid_eq {rows : List Row} {n : ℕ} (hle : ∀ r ∈ rows, r.rowid ≤ n)
    (hmem : ∃ r ∈ rows, r.rowid = n) : nextRowid rows = n + 1 := by
  have hfold : ∀ l : List ℕ, (∀ m ∈ l, m ≤ n) → l.foldr max 0 ≤ n := by
    intro l hl
    induction l with
    | nil => exact Nat.zero_le n
    | cons m l ih =>
        exact max_le (hl m List.mem_cons_self) (ih fun m' hm' => hl m' (List.mem_cons_of_mem _ hm'))
  have hup : nextRowid rows ≤ n + 1 := by
    refine Nat.succ_le_succ (hfold _ fun m hm => ?_)
    obtain ⟨r, hr, rfl⟩ := List.mem_map.mp hm
    exact hle r hr
  obtain ⟨r, hr, rfl⟩ := hmem
  exact le_antisymm hup (lt_nextRowid hr)

theorem mem_tieRows {r : Row} {n : ℕ} :
    r ∈ tieRows n ↔ r = firstRow ∨ r = secondRow ∨ ∃ i < n, otherRow i = r := by
  simp [tieRows]

theorem nextRowid_tieRows (n : ℕ) : nextRowid (tieRows n) = n + 3 := by
  refine nextRowid_eq (fun r hr => ?_) ?_
  · rcases mem_tieRows.mp hr with rfl | rfl | ⟨i, hi, rfl⟩
    · exact Nat.succ_le_succ (Nat.zero_le _)
    · exact Nat.le_add_left _ _
    · exact Nat.succ_le_succ (Nat.succ_le_succ hi)
  · cases n with
    | zero => exact ⟨secondRow, mem_tieRows.mpr (.inr (.inl rfl)), rfl⟩
    | succ n => exact ⟨otherRow n, mem_tieRows.mpr (.inr (.inr ⟨n, n.lt_succ_self, rfl⟩)), rfl⟩

theorem firstId_head : firstItem.id.toList.head? = some 'a' := by decide +kernel

theorem secondId_head : secondItem.id.toList.head? = some 'a' := by decide +kernel

theorem insertItem_tieRows (n : ℕ) :
    (insertItem tieOwner (tieRows n) 3 1 1 (otherItem n)).1 = tieRows (n + 1) := by
  have hnone : ∀ r ∈ tieRows n, ¬ r.Names 1 (otherItem n).id := by
    rintro r hr ⟨-, hitem⟩
    rcases mem_tieRows.mp hr with rfl | rfl | ⟨i, hi, rfl⟩
    · exact otherId_ne firstId_head n hitem.symm
    · exact otherId_ne secondId_head n hitem.symm
    · exact hi.ne (otherId_inj hitem)
  rw [insertItem_new (show tieOwner 1 = some 1 from rfl) hnone, newRow, nextRowid_tieRows, tieRows,
    tieRows, List.range_succ, List.map_append]
  rfl

/-- So many other items, from one on. -/
def otherItems (n k : ℕ) : List Item := (List.range' n k).map otherItem

theorem insertItems_tieRows (n k : ℕ) :
    (insertItems tieOwner 3 1 1 (tieRows n) (otherItems n k)).1 = tieRows (n + k) := by
  induction k generalizing n with
  | zero => rfl
  | succ k ih =>
      have hcons : otherItems n (k + 1) = otherItem n :: otherItems (n + 1) k := rfl
      rw [hcons, insertItems]
      dsimp only
      rw [insertItem_tieRows, ih, Nat.add_right_comm, Nat.add_assoc]

theorem dropOldest_of_le {rows : List Row} {user bot : ℕ} (h : rows.length ≤ MAX_PER_BOT) :
    dropOldest rows user bot = rows := by
  have hnone : pastMost rows user bot = [] := by
    rw [pastMost, List.map_eq_nil_iff, List.drop_eq_nil_iff, List.length_insertionSort]
    exact (List.length_filter_le _ _).trans h
  refine List.filter_eq_self.mpr fun r _ => ?_
  simp [hnone]

theorem length_tieRows (n : ℕ) : (tieRows n).length = n + 2 := by simp [tieRows]

theorem marksOf_append (now : ℤ) (items items' : List Item) :
    marksOf now (items ++ items') = marksOf now items' ++ marksOf now items := by
  simp [marksOf]

theorem tieMarks_add (n k : ℕ) : marksOf 3 (otherItems n k) ++ tieMarks n = tieMarks (n + k) := by
  have hrange : List.range (n + k) = List.range n ++ List.range' n k := by
    rw [List.range_add, List.range'_eq_map_range]
  rw [tieMarks, tieMarks, hrange, List.map_append, marksOf_append]
  simp only [List.append_assoc]
  rfl

theorem update_append (marks : ℕ → List Mark) (bot : ℕ) (l l' : List Mark) :
    Function.update (Function.update marks bot l) bot (l' ++ Function.update marks bot l bot) =
      Function.update marks bot (l' ++ l) := by
  rw [Function.update_self, Function.update_idem]

theorem step_tieWorld (n : ℕ) {k : ℕ} (hk : k ≤ MAX_PER_CALL) :
    (tieWorld n).step tieOwner (.mark 3 1 1 (otherItems n k)) =
      some ⟨dropOldest (tieRows (n + k)) 1 1, 3, (tieWorld (n + k)).marks⟩ := by
  have hlength : (otherItems n k).length ≤ MAX_PER_CALL := by simpa [otherItems] using hk
  have hmarked : (tieWorld n).marked tieOwner 3 1 1 (otherItems n k) =
      (tieWorld (n + k)).marks := by
    rw [World.marked, if_pos (by rfl), tieWorld, update_append, tieMarks_add]
    rfl
  rw [World.step, if_pos ⟨le_refl _, hlength⟩, hmarked, mark]
  exact congrArg (fun rows => some (World.mk (dropOldest rows 1 1) 3 _)) (insertItems_tieRows n k)

/-- A first item is shown, and again in one call after a second; then so many others are shown that
one of the two is to go. -/
def tieStart : List Op :=
  [.mark 1 1 1 [firstItem], .mark 2 1 1 [secondItem, firstItem], .check 3 1 1 []]

def tieCalls (n : ℕ) : List Op :=
  (List.range n).map fun i => .mark 3 1 1 (otherItems (MAX_PER_CALL * i) MAX_PER_CALL)

def tieOps : List Op := tieStart ++ tieCalls 199 ++ [.mark 3 1 1 (otherItems 9950 49)]

/-- A step of any kind. -/
abbrev AnyStep (owner : ℕ → Option ℕ) (w : World) (op : Op) (w' : World) : Prop :=
  w.step owner op = some w'

theorem run_tieStart : Runs.Run (Steps tieOwner) (.start 0) tieStart (tieWorld 0) := by
  have hfirst : (World.start 0).step tieOwner (.mark 1 1 1 [firstItem]) =
      some ⟨[{ firstRow with shownAt := 1 }], 1,
        Function.update (fun _ => []) 1 (marksOf 1 [firstItem])⟩ := by
    have hrows : (mark tieOwner [] 1 1 1 [firstItem]).1 = [{ firstRow with shownAt := 1 }] := by
      decide +kernel
    rw [World.step, if_pos (by decide)]
    exact congrArg (fun rows => some (World.mk rows 1 _)) hrows
  have hsecond : (World.mk [{ firstRow with shownAt := 1 }] 1
      (Function.update (fun _ => []) 1 (marksOf 1 [firstItem]))).step tieOwner
        (.mark 2 1 1 [secondItem, firstItem]) =
      some ⟨tieRows 0, 2, (tieWorld 0).marks⟩ := by
    have hrows : (mark tieOwner [{ firstRow with shownAt := 1 }] 2 1 1 [secondItem, firstItem]).1 =
        tieRows 0 := by
      decide +kernel
    rw [World.step, if_pos (by decide), World.marked, if_pos (by rfl), hrows, update_append]
    rfl
  have hthird : (World.mk (tieRows 0) 2 (tieWorld 0).marks).step tieOwner (.check 3 1 1 []) =
      some (tieWorld 0) := by
    rw [World.step, if_pos (by decide)]
    rfl
  have hfew : Agrees tieOwner (.start 0) (.mark 1 1 1 [firstItem]) := agrees_of_few (by decide)
  have hfew' : Agrees tieOwner ⟨[{ firstRow with shownAt := 1 }], 1,
      Function.update (fun _ => []) 1 (marksOf 1 [firstItem])⟩
      (.mark 2 1 1 [secondItem, firstItem]) := agrees_of_few (by decide)
  exact .snoc (.snoc (.snoc .nil ⟨hfirst, hfew⟩) ⟨hsecond, hfew'⟩) ⟨hthird, trivial⟩

theorem marks_tieWorld (n : ℕ) : (tieWorld n).marks 1 = tieMarks n := by simp [tieWorld]

theorem length_tieMarks (n : ℕ) : (tieMarks n).length = n + 3 := by simp [tieMarks, marksOf]

theorem run_tieCalls {n : ℕ} (hn : MAX_PER_CALL * n + 3 < MAX_PER_BOT) :
    Runs.Run (Steps tieOwner) (tieWorld 0) (tieCalls n) (tieWorld (MAX_PER_CALL * n)) := by
  induction n with
  | zero => exact .nil
  | succ n ih =>
      rw [Nat.mul_succ] at hn
      rw [tieCalls, List.range_succ, List.map_append, Nat.mul_succ]
      refine .snoc (ih (by omega)) ⟨?_, agrees_of_few ?_⟩
      · have hstep := step_tieWorld (MAX_PER_CALL * n) (le_refl MAX_PER_CALL)
        rw [dropOldest_of_le (by rw [length_tieRows]; omega)] at hstep
        exact hstep
      · rw [marks_tieWorld, tieMarks_add, length_tieMarks]
        exact hn

theorem mem_marksOf_others {n : ℕ} {m : Mark} (h : m ∈ marksOf 3 ((List.range n).map otherItem)) :
    m.time = 3 ∧ ∃ i < n, m.id = otherId i := by
  obtain ⟨i, hi, rfl⟩ : ∃ i < n, (⟨3, otherItem i⟩ : Mark) = m := by simpa [marksOf] using h
  exact ⟨rfl, i, hi, rfl⟩

/-- An item from before the others was marked at 2. -/
theorem latestMark_early {n : ℕ} {id : String} (hhead : id.toList.head? = some 'a') :
    latestMark (tieMarks n) id = latestMark (tieMarks 0) id := by
  have hnone : (marksOf 3 ((List.range n).map otherItem)).find? (Mark.id · = id) = none := by
    refine List.find?_eq_none.mpr fun m hm heq => ?_
    obtain ⟨-, i, -, hid⟩ := mem_marksOf_others hm
    exact otherId_ne hhead i (hid.symm.trans (of_decide_eq_true heq))
  rw [latestMark, latest, tieMarks, List.append_assoc, List.find?_append, hnone]
  rfl

/-- One of the others was marked at 3. -/
theorem latestMark_other {n i : ℕ} {m : Mark} (hi : i < n)
    (h : latestMark (tieMarks n) (otherId i) = some m) : m.time = 3 := by
  rw [latestMark, latest, tieMarks, List.append_assoc, List.find?_append] at h
  cases hfind : (marksOf 3 ((List.range n).map otherItem)).find? (Mark.id · = otherId i) with
  | none =>
      have hmem : (⟨3, otherItem i⟩ : Mark) ∈ marksOf 3 ((List.range n).map otherItem) := by
        simpa [marksOf] using ⟨i, hi, rfl⟩
      exact absurd (List.find?_eq_none.mp hfind _ hmem) (by simp [Mark.id, otherItem])
  | some m' =>
      rw [hfind, Option.some_or] at h
      obtain rfl := Option.some.inj h
      exact (mem_marksOf_others (List.mem_of_find?_eq_some hfind)).1

/-- The ids marked, those of the others first. -/
theorem ids_tieMarks (n : ℕ) : (tieMarks n).map Mark.id =
    (marksOf 3 ((List.range n).map otherItem)).map Mark.id ++
      [firstItem.id, secondItem.id, firstItem.id] := by
  rw [tieMarks, List.append_assoc, List.map_append]
  rfl

theorem mem_ids_others {n i : ℕ} (hi : i < n) :
    otherId i ∈ (marksOf 3 ((List.range n).map otherItem)).map Mark.id :=
  List.mem_map.mpr ⟨⟨3, otherItem i⟩, by simpa [marksOf] using ⟨i, hi, rfl⟩, rfl⟩

/-- All the others are marked after an item from before them. -/
theorem le_laterItems_early {n : ℕ} {id : String} (hhead : id.toList.head? = some 'a') :
    n ≤ (laterItems (tieMarks n) id).length := by
  have hothers : ∀ j ∈ (marksOf 3 ((List.range n).map otherItem)).map Mark.id,
      (decide (j ≠ id)) = true := by
    intro j hj
    obtain ⟨m, hm, rfl⟩ := List.mem_map.mp hj
    obtain ⟨-, i, -, hid⟩ := mem_marksOf_others hm
    exact decide_eq_true (hid ▸ otherId_ne hhead i)
  have hsubset : (List.range n).map otherId ⊆ laterItems (tieMarks n) id := by
    intro j hj
    obtain ⟨i, hi, rfl⟩ := List.mem_map.mp hj
    rw [laterItems, mem_later, ids_tieMarks, List.takeWhile_append_of_pos hothers]
    exact List.mem_append_left _ (mem_ids_others (List.mem_range.mp hi))
  have hnodup : ((List.range n).map otherId).Nodup :=
    List.nodup_range.map fun i j h => otherId_inj h
  have hle := (hnodup.subperm hsubset).length_le
  rwa [List.length_map, List.length_range] at hle

theorem laterItems_other_lt {n i : ℕ} (hi : i < n) :
    (laterItems (tieMarks n) (otherId i)).length < n := by
  have hlt : (later (otherId i) (_ ++ [firstItem.id, secondItem.id, firstItem.id])).length < _ :=
    length_later_append_lt (mem_ids_others hi)
  rw [laterItems, ids_tieMarks]
  simpa [marksOf] using hlt

/-- Where both items have to go, the rows' order does not matter. -/
theorem rowOrder_tie {n : ℕ} (hn : n ≤ MAX_PER_BOT) :
    RowOrder (tieRows n) (tieMarks MAX_PER_BOT) 3 1 := by
  intro x hx y hy _ _ m m' hm hm' htime _ hkept hgone
  rcases mem_tieRows.mp hx with rfl | rfl | ⟨i, hi, rfl⟩
  · exact absurd hkept (not_lt.mpr (le_laterItems_early firstId_head))
  · exact absurd hkept (not_lt.mpr (le_laterItems_early secondId_head))
  have hlate := latestMark_other (hi.trans_le hn) hm
  rcases mem_tieRows.mp hy with rfl | rfl | ⟨j, hj, rfl⟩
  · have hfirst : latestMark (tieMarks 0) firstItem.id = some ⟨2, firstItem⟩ := by decide +kernel
    rw [show firstRow.item = firstItem.id from rfl, latestMark_early firstId_head, hfirst] at hm'
    rw [← Option.some.inj hm', hlate] at htime
    cases htime
  · have hsecond : latestMark (tieMarks 0) secondItem.id = some ⟨2, secondItem⟩ := by
      decide +kernel
    rw [show secondRow.item = secondItem.id from rfl, latestMark_early secondId_head, hsecond] at hm'
    rw [← Option.some.inj hm', hlate] at htime
    cases htime
  · exact absurd hgone (not_le.mpr (laterItems_other_lt (hj.trans_le hn)))

/-- Both items are remembered until so many others are marked that both have to go. -/
theorem seen_items_kept_many : ∃ w w',
    Runs.Run (Steps tieOwner) (.start 0) (tieStart ++ tieCalls 199) w ∧
    Faithful tieOwner w ∧
    Runs.Run (Steps tieOwner) w [.mark 3 1 1 (otherItems 9950 MAX_PER_CALL)] w' ∧
    Faithful tieOwner w' ∧ remembered (w'.marks 1) firstItem.id 3 = none := by
  have hcalls : Runs.Run (Steps tieOwner) (tieWorld 0) (tieCalls 199) (tieWorld 9950) :=
    run_tieCalls (n := 199) (by decide)
  have hrun := run_tieStart.trans hcalls
  have hmarks : marksOf 3 (otherItems 9950 MAX_PER_CALL) ++ (tieWorld 9950).marks 1 =
      tieMarks MAX_PER_BOT := by
    rw [marks_tieWorld, tieMarks_add]
    rfl
  have hstep : Steps tieOwner (tieWorld 9950) (.mark 3 1 1 (otherItems 9950 MAX_PER_CALL))
      ⟨dropOldest (tieRows 10000) 1 1, 3, (tieWorld 10000).marks⟩ := by
    refine ⟨step_tieWorld 9950 (le_refl MAX_PER_CALL), fun _ => ?_⟩
    rw [hmarks]
    exact rowOrder_tie (by decide)
  refine ⟨tieWorld 9950, _, hrun, seen_items_kept hrun, Runs.Run.single hstep,
    seen_items_kept (hrun.trans (Runs.Run.single hstep)), ?_⟩
  have hlater : MAX_PER_BOT ≤ (laterItems (tieMarks 10000) firstItem.id).length :=
    le_laterItems_early firstId_head
  rw [marks_tieWorld, remembered, Option.map_eq_none_iff, Option.filter_eq_none_iff]
  intro m _ hboth
  exact absurd (of_decide_eq_true hboth).2 (not_lt.mpr hlater)

/-- What the calls leave. -/
def tieEnd (n : ℕ) : World := ⟨dropOldest (tieRows n) 1 1, 3, (tieWorld n).marks⟩

theorem run_tieOps : Runs.Run (AnyStep tieOwner) (.start 0) tieOps (tieEnd 9999) := by
  have hcalls : Runs.Run (AnyStep tieOwner) (tieWorld 0) (tieCalls 199) (tieWorld 9950) :=
    (run_tieCalls (n := 199) (by decide)).mono fun _ _ _ hstep => hstep.1
  have hstart : Runs.Run (AnyStep tieOwner) (.start 0) tieStart (tieWorld 0) :=
    run_tieStart.mono fun _ _ _ hstep => hstep.1
  exact .snoc (hstart.trans hcalls) (step_tieWorld 9950 (by decide))

theorem distinct_tieRows (n : ℕ) : ((tieRows n).map (·.rowid)).Nodup := by
  have hothers : ((List.range n).map fun i => i + 3).Nodup :=
    List.nodup_range.map fun i j h => Nat.add_right_cancel h
  have hmap : (tieRows n).map (·.rowid) = 1 :: 2 :: (List.range n).map fun i => i + 3 := by
    simp [tieRows, firstRow, secondRow, otherRow, Function.comp_def]
  rw [hmap]
  refine List.nodup_cons.mpr ⟨by simp, List.nodup_cons.mpr ⟨by simp, hothers⟩⟩

/-- The first item's row stands after all the others. -/
theorem firstRow_past {n : ℕ} (hn : MAX_PER_BOT ≤ n + 1) :
    firstRow.rowid ∈ pastMost (tieRows n) 1 1 := by
  have hof : (tieRows n).filter (·.IsOf 1 1) = tieRows n := by
    refine List.filter_eq_self.mpr fun r hr => ?_
    rcases mem_tieRows.mp hr with rfl | rfl | ⟨i, -, rfl⟩ <;> rfl
  have hrest : (secondRow :: (List.range n).map otherRow).countP (·.Above firstRow) = n + 1 := by
    have hall : ∀ r ∈ secondRow :: (List.range n).map otherRow, decide (r.Above firstRow) := by
      intro r hr
      rcases List.mem_cons.mp hr with rfl | hr
      · rfl
      · obtain ⟨i, -, rfl⟩ := List.mem_map.mp hr
        rfl
    rw [List.countP_eq_length.mpr hall, List.length_cons, List.length_map, List.length_range]
  have hiff : firstRow.rowid ∈ pastMost (tieRows n) 1 1 ↔
      MAX_PER_BOT ≤ ((tieRows n).filter (·.IsOf 1 1)).countP (·.Above firstRow) :=
    mem_pastMost_iff (distinct_tieRows _) (mem_tieRows.mpr (.inl rfl)) ⟨rfl, rfl⟩
  rw [hiff, hof, tieRows, List.countP_cons_of_neg (by decide), hrest]
  exact hn

/-- The first item is no longer reported. -/
theorem shown_cut {n : ℕ} (hn : MAX_PER_BOT ≤ n + 1) :
    (shown (dropOldest (tieRows n) 1 1) 3 1 1 [firstItem.id]).lookup firstItem.id = none := by
  have hfound : foundRow (dropOldest (tieRows n) 1 1) 3 1 1 firstItem.id = none := by
    refine List.find?_eq_none.mpr fun r hr => ?_
    obtain ⟨hmem, hpast⟩ := mem_dropOldest.mp hr
    rcases mem_tieRows.mp hmem with rfl | rfl | ⟨i, -, rfl⟩
    · exact absurd (firstRow_past hn) (hpast ⟨rfl, rfl⟩)
    · have hne : secondRow.item ≠ firstItem.id := by decide +kernel
      simp [hne]
    · have hne : (otherRow i).item ≠ firstItem.id := otherId_ne firstId_head i
      simp [hne]
  rw [lookup_shown (List.mem_singleton_self _), hfound]
  rfl

/-- The first item is to be remembered: only the others were marked since. -/
theorem remembered_tieMarks {n : ℕ} (hn : n < MAX_PER_BOT) :
    remembered (tieMarks n) firstItem.id 3 = some ⟨firstItem.title, firstItem.url, 2⟩ := by
  have hlatest : latestMark (tieMarks n) firstItem.id = some ⟨2, firstItem⟩ := by
    rw [latestMark_early firstId_head]
    decide +kernel
  have hlater : (laterItems (tieMarks n) firstItem.id).length ≤ n := by
    rw [laterItems, ids_tieMarks, later]
    refine (List.dedup_sublist _).length_le.trans ?_
    refine (length_takeWhile_append_le _ _).trans ?_
    simp [marksOf]
  have hkept : (3 : ℤ) - RETENTION_MS < 2 ∧
      (laterItems (tieMarks n) firstItem.id).length < MAX_PER_BOT :=
    ⟨by decide, hlater.trans_lt hn⟩
  rw [remembered, hlatest, Option.filter_some_pos (by simpa using hkept)]
  rfl

theorem not_faithful_tieEnd {n : ℕ} (hn : n + 1 = MAX_PER_BOT) :
    ¬ Faithful tieOwner (tieEnd n) := by
  intro h
  have hmarks : (tieEnd n).marks 1 = tieMarks n := marks_tieWorld n
  have hreported := h.reported 3 1 1 [firstItem.id] firstItem.id (le_refl _) rfl
    (List.mem_singleton_self _)
  rw [hmarks, remembered_tieMarks (by omega)] at hreported
  have hgone := (shown_cut hn.ge).symm.trans hreported
  cases hgone

/-- The first item was marked again later than the second, and is forgotten before it. -/
theorem forgotten_out_of_turn :
    ∃ w, Runs.Run (AnyStep tieOwner) (.start 0) tieOps w ∧ ¬ Faithful tieOwner w :=
  ⟨tieEnd 9999, run_tieOps, not_faithful_tieEnd rfl⟩

end Tie

end Bokkie.Seen
