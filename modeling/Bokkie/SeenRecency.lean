import Bokkie.Recency
import Bokkie.Runs
import Bokkie.SeenStore

/-!
# What each Bot has shown lately

A Bot's marks, one after another, say which items it showed most recently. The table keeps the rows
of those, as long as the order of its rows agrees with the marks where items were shown at one
instant.
-/

namespace Bokkie.Seen

open Recency

/-- An item marked as shown. -/
structure Mark where
  time : ℤ
  item : Item
deriving DecidableEq, Repr

namespace Mark

variable (m : Mark)

def id : String := m.item.id

def shown : Shown := ⟨m.item.title, m.item.url, m.time⟩

end Mark

section Marks

variable (marks : List Mark) (id : String)

/-- An item's latest mark, of marks that have the latest first. -/
def latestMark : Option Mark := latest Mark.id id marks

/-- The other items marked more recently. -/
def laterItems : List String := later id (marks.map Mark.id)

/-- How an item was last shown, unless that is too long ago or too many others were marked since. -/
def remembered (now : ℤ) : Option Shown :=
  ((latestMark marks id).filter fun m =>
    now - RETENTION_MS < m.time ∧ (laterItems marks id).length < MAX_PER_BOT).map Mark.shown

end Marks

/-- The marks of one call, the latest first. -/
def marksOf (now : ℤ) (items : List Item) : List Mark := (items.map (⟨now, ·⟩)).reverse

structure World where
  rows : List Row
  clock : ℤ
  /-- What each Bot marked, the latest first. -/
  marks : ℕ → List Mark

inductive Op where
  | mark (now : ℤ) (user bot : ℕ) (items : List Item)
  | check (now : ℤ) (user bot : ℕ) (ids : List String)
  | prune (now : ℤ)

section Run

variable (owner : ℕ → Option ℕ) (w : World)

/-- What a call adds to the marks, if the Bot is the user's. -/
def World.marked (now : ℤ) (user bot : ℕ) (items : List Item) : ℕ → List Mark :=
  if owner bot = some user then Function.update w.marks bot (marksOf now items ++ w.marks bot)
  else w.marks

/-- Calls come in the order of their times, each of so many items. -/
def World.step : Op → Option World
  | .mark now user bot items =>
    if w.clock ≤ now ∧ items.length ≤ MAX_PER_CALL then
      some ⟨(mark owner w.rows now user bot items).1, now, w.marked owner now user bot items⟩
    else none
  | .check now _ _ _ => if w.clock ≤ now then some { w with clock := now } else none
  | .prune now =>
    if w.clock ≤ now then some { w with clock := now, rows := (prune w.rows now).1 } else none

/-- Before the first mark. -/
def World.start (clock : ℤ) : World := ⟨[], clock, fun _ => []⟩

/-- Of two items that a Bot showed at one instant, not too long ago, just one of which is to be
kept, that one's row is the later. -/
def RowOrder (rows : List Row) (marks : List Mark) (now : ℤ) (bot : ℕ) : Prop :=
  ∀ x ∈ rows, ∀ y ∈ rows, x.bot = bot → y.bot = bot →
    ∀ m m', latestMark marks x.item = some m → latestMark marks y.item = some m' →
      m.time = m'.time → now - RETENTION_MS < m.time →
      (laterItems marks x.item).length < MAX_PER_BOT →
      MAX_PER_BOT ≤ (laterItems marks y.item).length → y.rowid < x.rowid

/-- The rows' order agrees with the marks where a call takes a Bot past the most it keeps. -/
def Agrees : Op → Prop
  | .mark now user bot items => owner bot = some user →
    RowOrder w.rows (marksOf now items ++ w.marks bot) now bot
  | _ => True

/-- The call marks items for a Bot of its user's. -/
def Op.Marks (bot : ℕ) : Op → Prop
  | .mark _ user b _ => b = bot ∧ owner b = some user
  | _ => False

end Run

/-- What the table is for: a bounded number of items for each Bot, and what it showed lately. -/
structure Faithful (owner : ℕ → Option ℕ) (w : World) : Prop where
  bounded : ∀ user bot, count w.rows user bot ≤ MAX_PER_BOT
  reported : ∀ now user bot ids id, w.clock ≤ now → owner bot = some user → id ∈ ids →
    (shown w.rows now user bot ids).lookup id = remembered (w.marks bot) id now
  /-- No call changes another Bot's items. -/
  others : ∀ op w' bot, w.step owner op = some w' → (∀ now, op ≠ .prune now) →
    ¬ op.Marks owner bot → w'.rows.filter (·.bot = bot) = w.rows.filter (·.bot = bot)

section Filed

/-- Each row is the latest mark of its Bot's item, and there is one row for each. -/
structure Filed (owner : ℕ → Option ℕ) (rows : List Row) (marks : ℕ → List Mark) : Prop where
  distinct : (rows.map (·.rowid)).Nodup
  named : ∀ r ∈ rows, ∀ s ∈ rows, r.bot = s.bot → r.item = s.item → r = s
  owned : ∀ r ∈ rows, owner r.bot = some r.user
  latest : ∀ r ∈ rows,
    latestMark (marks r.bot) r.item = some ⟨r.shownAt, ⟨r.item, r.title, r.url⟩⟩

/-- Rows after more items were inserted for a Bot. -/
structure Grown (bot : ℕ) (ids : List String) (rows rows' : List Row) : Prop where
  old : ∀ r ∈ rows, ∃ r' ∈ rows', r'.rowid = r.rowid ∧ r'.bot = r.bot ∧ r'.item = r.item
  new : ∀ r' ∈ rows', (∃ r ∈ rows, r.rowid = r'.rowid ∧ r.bot = r'.bot ∧ r.item = r'.item) ∨
    r'.bot = bot ∧ r'.item ∈ ids ∧ ∀ r ∈ rows, r.rowid < r'.rowid
  marked : ∀ id ∈ ids, ∃ r' ∈ rows', r'.bot = bot ∧ r'.item = id
  others : rows'.filter (·.bot ≠ bot) = rows.filter (·.bot ≠ bot)

variable {owner : ℕ → Option ℕ} {rows rows' : List Row} {marks : ℕ → List Mark} {bot user : ℕ}
  {now : ℤ} {item : Item} {ids : List String}

theorem lt_nextRowid {r : Row} (hr : r ∈ rows) : r.rowid < nextRowid rows := by
  have hle : ∀ l : List ℕ, ∀ n ∈ l, n ≤ l.foldr max 0 := by
    intro l
    induction l with
    | nil => simp
    | cons a l ih =>
        intro n hn
        rcases List.mem_cons.mp hn with rfl | hn
        · exact le_max_left _ _
        · exact (ih n hn).trans (le_max_right _ _)
  exact Nat.lt_succ_of_le (hle _ _ (List.mem_map_of_mem hr))

theorem latestMark_cons_self {m : Mark} {l : List Mark} : latestMark (m :: l) m.id = some m := by
  simp [latestMark, Recency.latest]

theorem latestMark_cons_of_ne {m : Mark} {l : List Mark} {id : String} (h : m.id ≠ id) :
    latestMark (m :: l) id = latestMark l id := by
  simp [latestMark, Recency.latest, h]

/-- The marks after one more. -/
def also (marks : ℕ → List Mark) (bot : ℕ) (m : Mark) : ℕ → List Mark :=
  Function.update marks bot (m :: marks bot)

theorem also_self {m : Mark} : also marks bot m bot = m :: marks bot := Function.update_self ..

theorem also_of_ne {m : Mark} {b : ℕ} (h : b ≠ bot) : also marks bot m b = marks b :=
  Function.update_of_ne h ..

/-- The row of an item that the Bot has not shown. -/
def newRow (rows : List Row) (now : ℤ) (user bot : ℕ) (item : Item) : Row :=
  ⟨nextRowid rows, bot, user, item.id, item.title, item.url, now⟩

theorem insertItem_new (howner : owner bot = some user)
    (hnone : ∀ r ∈ rows, ¬ r.Names bot item.id) :
    (insertItem owner rows now user bot item).1 = rows ++ [newRow rows now user bot item] := by
  have hfind : rows.find? (·.Names bot item.id) = none :=
    List.find?_eq_none.mpr fun r hr => by simpa using hnone r hr
  simp [insertItem, howner, hfind, newRow]

theorem insertItem_again (h : Filed owner rows marks) (howner : owner bot = some user)
    {r : Row} (hr : r ∈ rows) (hnames : r.Names bot item.id) :
    (insertItem owner rows now user bot item).1 =
      rows.map fun r => if r.Names bot item.id then r.showAgain now item else r := by
  have hsome : (rows.find? (·.Names bot item.id)).isSome :=
    List.find?_isSome.mpr ⟨r, hr, by simpa using hnames⟩
  obtain ⟨s, hs⟩ := Option.isSome_iff_exists.mp hsome
  have hsbot : s.Names bot item.id := by simpa using List.find?_some hs
  have huser : s.user = user := by
    have howned := h.owned s (List.mem_of_find?_eq_some hs)
    rw [hsbot.1, howner] at howned
    exact (Option.some.inj howned).symm
  simp [insertItem, howner, hs, huser]

theorem filed_append (h : Filed owner rows marks) (howner : owner bot = some user)
    (hnone : ∀ r ∈ rows, ¬ r.Names bot item.id) :
    Filed owner (rows ++ [newRow rows now user bot item]) (also marks bot ⟨now, item⟩) where
  distinct := by
    rw [List.map_append, List.nodup_append]
    refine ⟨h.distinct, by simp, ?_⟩
    intro n hn m hm
    obtain ⟨r, hr, rfl⟩ := List.mem_map.mp hn
    obtain rfl : m = nextRowid rows := by simpa [newRow] using hm
    exact (lt_nextRowid hr).ne
  named r hr s hs hbot hitem := by
    rcases List.mem_append.mp hr with hr | hr <;> rcases List.mem_append.mp hs with hs | hs
    · exact h.named r hr s hs hbot hitem
    · obtain rfl := List.mem_singleton.mp hs
      exact absurd ⟨hbot, hitem⟩ (hnone r hr)
    · obtain rfl := List.mem_singleton.mp hr
      exact absurd ⟨hbot.symm, hitem.symm⟩ (hnone s hs)
    · rw [List.mem_singleton.mp hr, List.mem_singleton.mp hs]
  owned r hr := by
    rcases List.mem_append.mp hr with hr | hr
    · exact h.owned r hr
    · rw [List.mem_singleton.mp hr]
      exact howner
  latest r hr := by
    rcases List.mem_append.mp hr with hr | hr
    · by_cases hbot : r.bot = bot
      · have hne : (⟨now, item⟩ : Mark).id ≠ r.item := fun heq => hnone r hr ⟨hbot, heq.symm⟩
        rw [hbot, also_self, latestMark_cons_of_ne hne, ← hbot]
        exact h.latest r hr
      · rw [also_of_ne hbot]
        exact h.latest r hr
    · rw [List.mem_singleton.mp hr]
      have hself := latestMark_cons_self (m := ⟨now, item⟩) (l := marks bot)
      simpa [newRow, also_self, Mark.id] using hself

theorem grown_append (user : ℕ) :
    Grown bot [item.id] rows (rows ++ [newRow rows now user bot item]) where
  old r hr := ⟨r, List.mem_append_left _ hr, rfl, rfl, rfl⟩
  new r' hr' := by
    rcases List.mem_append.mp hr' with hr' | hr'
    · exact .inl ⟨r', hr', rfl, rfl, rfl⟩
    · rw [List.mem_singleton.mp hr']
      exact .inr ⟨rfl, List.mem_singleton_self _, fun r hr => lt_nextRowid hr⟩
  marked id hid :=
    ⟨_, List.mem_append_right _ (List.mem_singleton_self _), rfl, (List.mem_singleton.mp hid).symm⟩
  others := by simp [newRow]

section Again

/-- A row as it is when the item is shown again. -/
def shownAgain (now : ℤ) (bot : ℕ) (item : Item) (r : Row) : Row :=
  if r.Names bot item.id then r.showAgain now item else r

@[simp] theorem shownAgain_rowid (r : Row) : (shownAgain now bot item r).rowid = r.rowid := by
  unfold shownAgain
  split <;> rfl

@[simp] theorem shownAgain_bot (r : Row) : (shownAgain now bot item r).bot = r.bot := by
  unfold shownAgain
  split <;> rfl

@[simp] theorem shownAgain_user (r : Row) : (shownAgain now bot item r).user = r.user := by
  unfold shownAgain
  split <;> rfl

@[simp] theorem shownAgain_item (r : Row) : (shownAgain now bot item r).item = r.item := by
  unfold shownAgain
  split <;> rfl

theorem filed_map (h : Filed owner rows marks) :
    Filed owner (rows.map (shownAgain now bot item)) (also marks bot ⟨now, item⟩) where
  distinct := by
    have hids : (rows.map (shownAgain now bot item)).map (·.rowid) = rows.map (·.rowid) := by simp
    rw [hids]
    exact h.distinct
  named r' hr s' hs hbot hitem := by
    obtain ⟨r, hrmem, rfl⟩ := List.mem_map.mp hr
    obtain ⟨s, hsmem, rfl⟩ := List.mem_map.mp hs
    rw [h.named r hrmem s hsmem (by simpa using hbot) (by simpa using hitem)]
  owned r' hr := by
    obtain ⟨r, hmem, rfl⟩ := List.mem_map.mp hr
    simpa using h.owned r hmem
  latest r' hr := by
    obtain ⟨r, hmem, rfl⟩ := List.mem_map.mp hr
    by_cases hnames : r.Names bot item.id
    · have hself := latestMark_cons_self (m := ⟨now, item⟩) (l := marks bot)
      obtain ⟨hbot, hitem⟩ := hnames
      simpa [shownAgain, Row.Names, Row.showAgain, hbot, hitem, also_self, Mark.id] using hself
    · have hkept : shownAgain now bot item r = r := if_neg hnames
      rw [hkept]
      by_cases hbot : r.bot = bot
      · have hne : (⟨now, item⟩ : Mark).id ≠ r.item := fun heq => hnames ⟨hbot, heq.symm⟩
        rw [hbot, also_self, latestMark_cons_of_ne hne, ← hbot]
        exact h.latest r hmem
      · rw [also_of_ne hbot]
        exact h.latest r hmem

theorem filter_map_shownAgain :
    (rows.map (shownAgain now bot item)).filter (·.bot ≠ bot) = rows.filter (·.bot ≠ bot) := by
  rw [List.filter_map]
  have hpred : (fun r : Row => decide (r.bot ≠ bot)) ∘ shownAgain now bot item =
      fun r => decide (r.bot ≠ bot) := by
    funext r
    simp
  rw [hpred]
  have hsame : ∀ r ∈ rows.filter (·.bot ≠ bot), shownAgain now bot item r = id r := by
    intro r hr
    have hne : r.bot ≠ bot := by simpa using (List.mem_filter.mp hr).2
    exact if_neg fun h => hne h.1
  rw [List.map_congr_left hsame, List.map_id]

theorem grown_map {r : Row} (hr : r ∈ rows) (hnames : r.Names bot item.id) :
    Grown bot [item.id] rows (rows.map (shownAgain now bot item)) where
  old r hr := ⟨_, List.mem_map_of_mem hr, by simp, by simp, by simp⟩
  new r' hr' := by
    obtain ⟨r, hr, rfl⟩ := List.mem_map.mp hr'
    exact .inl ⟨r, hr, by simp, by simp, by simp⟩
  marked id hid := by
    rw [List.mem_singleton.mp hid]
    exact ⟨_, List.mem_map_of_mem hr, by simpa using hnames.1, by simpa using hnames.2⟩
  others := by
    rw [filter_map_shownAgain]

/-- An item inserted for a Bot of the user's. -/
theorem insertItem_spec (h : Filed owner rows marks) (howner : owner bot = some user) (now : ℤ)
    (item : Item) :
    Filed owner (insertItem owner rows now user bot item).1 (also marks bot ⟨now, item⟩) ∧
      Grown bot [item.id] rows (insertItem owner rows now user bot item).1 := by
  by_cases hnone : ∀ r ∈ rows, ¬ r.Names bot item.id
  · rw [insertItem_new howner hnone]
    exact ⟨filed_append h howner hnone, grown_append user⟩
  · push Not at hnone
    obtain ⟨r, hr, hnames⟩ := hnone
    rw [insertItem_again h howner hr hnames]
    exact ⟨filed_map h, grown_map hr hnames⟩

end Again

theorem Grown.refl (bot : ℕ) (rows : List Row) : Grown bot [] rows rows where
  old r hr := ⟨r, hr, rfl, rfl, rfl⟩
  new r hr := .inl ⟨r, hr, rfl, rfl, rfl⟩
  marked _ hid := absurd hid List.not_mem_nil
  others := rfl

theorem Grown.trans {rows'' : List Row} {ids' : List String} (h : Grown bot ids rows rows')
    (h' : Grown bot ids' rows' rows'') : Grown bot (ids ++ ids') rows rows'' where
  old r hr := by
    obtain ⟨r', hr', hrowid, hbot, hitem⟩ := h.old r hr
    obtain ⟨r'', hr'', hrowid', hbot', hitem'⟩ := h'.old r' hr'
    exact ⟨r'', hr'', hrowid'.trans hrowid, hbot'.trans hbot, hitem'.trans hitem⟩
  new r'' hr'' := by
    rcases h'.new r'' hr'' with ⟨r', hr', hrowid, hbot, hitem⟩ | ⟨hbot, hid, hlast⟩
    · rcases h.new r' hr' with ⟨r, hr, hrowid', hbot', hitem'⟩ | ⟨hbot', hid, hlast⟩
      · exact .inl ⟨r, hr, hrowid'.trans hrowid, hbot'.trans hbot, hitem'.trans hitem⟩
      · refine .inr ⟨hbot ▸ hbot', List.mem_append_left _ (hitem ▸ hid), fun r hr => ?_⟩
        exact hrowid ▸ hlast r hr
    · refine .inr ⟨hbot, List.mem_append_right _ hid, fun r hr => ?_⟩
      obtain ⟨r', hr', hrowid, -⟩ := h.old r hr
      exact hrowid ▸ hlast r' hr'
  marked id hid := by
    rcases List.mem_append.mp hid with hid | hid
    · obtain ⟨r', hr', hbot, hitem⟩ := h.marked id hid
      obtain ⟨r'', hr'', -, hbot', hitem'⟩ := h'.old r' hr'
      exact ⟨r'', hr'', hbot'.trans hbot, hitem'.trans hitem⟩
    · exact h'.marked id hid
  others := h'.others.trans h.others

/-- The items of a call, inserted for a Bot of the user's. -/
theorem insertItems_spec (h : Filed owner rows marks) (howner : owner bot = some user) (now : ℤ)
    (items : List Item) :
    Filed owner (insertItems owner now user bot rows items).1
        (Function.update marks bot (marksOf now items ++ marks bot)) ∧
      Grown bot (items.map (·.id)) rows (insertItems owner now user bot rows items).1 := by
  induction items generalizing rows marks with
  | nil =>
      have hsame : Function.update marks bot (marksOf now [] ++ marks bot) = marks :=
        Function.update_eq_self bot marks
      rw [hsame]
      exact ⟨h, Grown.refl bot rows⟩
  | cons item items ih =>
      obtain ⟨hfiled, hgrown⟩ := insertItem_spec h howner now item
      obtain ⟨hfiled', hgrown'⟩ := ih hfiled
      have hmarks : Function.update (also marks bot ⟨now, item⟩) bot
          (marksOf now items ++ also marks bot ⟨now, item⟩ bot) =
          Function.update marks bot (marksOf now (item :: items) ++ marks bot) := by
        rw [also_self, also, Function.update_idem]
        simp [marksOf]
      exact ⟨hmarks ▸ hfiled', hgrown.trans hgrown'⟩

section Drop

/-- The row stands before another, of rows that differ. -/
def Row.Above (r s : Row) : Prop :=
  s.shownAt < r.shownAt ∨ s.shownAt = r.shownAt ∧ s.rowid < r.rowid

instance : DecidableRel Row.Above := fun _ _ => inferInstanceAs (Decidable (_ ∨ _))

theorem Row.Above.asymm (r s : Row) (h : r.Above s) : ¬ s.Above r := by
  unfold Row.Above at *
  omega

instance : Std.Total Row.Before where
  total r s := by
    unfold Row.Before
    omega

instance : IsTrans Row Row.Before where
  trans r s t hrs hst := by
    unfold Row.Before at *
    omega

/-- The Bot's rows, as they are ordered to be cut. -/
def ranked (rows : List Row) (user bot : ℕ) : List Row :=
  (rows.filter (·.IsOf bot user)).insertionSort Row.Before

theorem perm_ranked : (ranked rows user bot).Perm (rows.filter (·.IsOf bot user)) :=
  List.perm_insertionSort _ _

theorem nodup_ranked (h : (rows.map (·.rowid)).Nodup) :
    ((ranked rows user bot).map (·.rowid)).Nodup :=
  ((perm_ranked.map _).nodup_iff).mpr (h.sublist (List.filter_sublist.map _))

theorem pairwise_ranked (h : (rows.map (·.rowid)).Nodup) :
    (ranked rows user bot).Pairwise Row.Above := by
  have hbefore : (ranked rows user bot).Pairwise Row.Before := List.pairwise_insertionSort _ _
  have hne : (ranked rows user bot).Pairwise fun r s => r.rowid ≠ s.rowid :=
    List.pairwise_map.mp (nodup_ranked h)
  refine (hbefore.and hne).imp ?_
  rintro r s ⟨hrs, hrowid⟩
  unfold Row.Before at hrs
  unfold Row.Above
  omega

/-- A row goes where so many of the Bot's stand before it. -/
theorem mem_pastMost_iff (h : (rows.map (·.rowid)).Nodup) {r : Row} (hr : r ∈ rows)
    (hof : r.IsOf bot user) :
    r.rowid ∈ pastMost rows user bot ↔
      MAX_PER_BOT ≤ (rows.filter (·.IsOf bot user)).countP (·.Above r) := by
  have hmem : r ∈ ranked rows user bot :=
    perm_ranked.mem_iff.mpr (List.mem_filter.mpr ⟨hr, by simpa using hof⟩)
  have hinj : r.rowid ∈ pastMost rows user bot ↔ r ∈ (ranked rows user bot).drop MAX_PER_BOT := by
    constructor
    · intro hpast
      obtain ⟨s, hs, hrowid⟩ := List.mem_map.mp hpast
      obtain rfl := List.inj_on_of_nodup_map (nodup_ranked h) (List.mem_of_mem_drop hs) hmem hrowid
      exact hs
    · exact fun hs => List.mem_map_of_mem hs
  rw [hinj, mem_drop_iff (pairwise_ranked h) Row.Above.asymm hmem, perm_ranked.countP_eq]

theorem mem_dropOldest {r : Row} : r ∈ dropOldest rows user bot ↔
    r ∈ rows ∧ (r.IsOf bot user → r.rowid ∉ pastMost rows user bot) := by
  simp [dropOldest, imp_iff_not_or]

/-- No more than the most remain. -/
theorem count_dropOldest_le : count (dropOldest rows user bot) user bot ≤ MAX_PER_BOT := by
  have hsub : (dropOldest rows user bot).filter (·.IsOf bot user) =
      (rows.filter (·.IsOf bot user)).filter (·.rowid ∉ pastMost rows user bot) := by
    rw [dropOldest, List.filter_filter, List.filter_filter]
    refine List.filter_congr fun r _ => ?_
    by_cases hof : r.IsOf bot user <;> simp [hof]
  have hperm : ((ranked rows user bot).filter (·.rowid ∉ pastMost rows user bot)).Perm
      ((rows.filter (·.IsOf bot user)).filter (·.rowid ∉ pastMost rows user bot)) :=
    perm_ranked.filter _
  rw [count, hsub, ← hperm.length_eq]
  have hsplit := List.take_append_drop MAX_PER_BOT (ranked rows user bot)
  have hdrop : ((ranked rows user bot).drop MAX_PER_BOT).filter
      (·.rowid ∉ pastMost rows user bot) = [] := by
    refine List.filter_eq_nil_iff.mpr fun r hr => ?_
    have hpast : r.rowid ∈ pastMost rows user bot := List.mem_map_of_mem hr
    simpa using hpast
  calc ((ranked rows user bot).filter (·.rowid ∉ pastMost rows user bot)).length
      = (((ranked rows user bot).take MAX_PER_BOT).filter
          (·.rowid ∉ pastMost rows user bot)).length := by
        conv_lhs => rw [← hsplit]
        rw [List.filter_append, hdrop, List.append_nil]
    _ ≤ ((ranked rows user bot).take MAX_PER_BOT).length := List.length_filter_le _ _
    _ ≤ MAX_PER_BOT := List.length_take_le _ _

theorem Filed.filter (h : Filed owner rows marks) (p : Row → Bool) :
    Filed owner (rows.filter p) marks where
  distinct := h.distinct.sublist (List.filter_sublist.map _)
  named r hr s hs := h.named r (List.mem_of_mem_filter hr) s (List.mem_of_mem_filter hs)
  owned r hr := h.owned r (List.mem_of_mem_filter hr)
  latest r hr := h.latest r (List.mem_of_mem_filter hr)

end Drop

end Filed

end Bokkie.Seen
