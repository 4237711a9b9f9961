import Cdo.QHatAggregations

/-!
What `Qhat` reads at the aggregate levels, against the sums of the roll-up
tables. At the levels size, segment and site/segment the estimator reads the
sums for the cell's own columns. `site` and `cps` return their first and last
hash in the order opposite to the one `getOptimizationData` takes them in, so
the levels site/size, site/size/segment, CPS and CPS/site/segment look keys up
in a hash with keys of another length and read nothing, and the CPS/segment
lookup joins the site id where the query joined the segment id
(`level_data_agreement_iff`).
-/
namespace Cdo.LevelData
open Cdo.Text Cdo.Query Cdo.Tables Cdo.QHatAggregations

/-! ### Sums of the roll-up tables -/

/-- The sums of impressions, actions and cells over rows that carry a row of a
    roll-up table. -/
def totals {ρ γ : Type} (rollup : ρ → Rollup γ) (rows : List ρ) : Evidence where
  n := (rows.map fun row => num (rollup row).impressions).sum
  a := (rows.map fun row => num (rollup row).actions).sum
  cells := (rows.map fun row => num (rollup row).num_cells).sum

def optimisedSan (net : Network) (san : Str) : Bool := net.campaign.any fun c => san == c.san && c.optimised

/-- The sums at each level over the rows for the hour and day of the week whose
    grouping columns are the cell's. -/
def levelSums (net : Network) (r : Rollups) (dow hour : Nat) (c : Cell) : Level → Evidence
  | .size => totals id ((atHour dow hour r.mediaHour).filter fun row =>
      net.media.any fun m => row.group.adid == m.adid && m.size == c.size)
  | .segment => totals id ((atHour dow hour r.segmentHour).filter fun row => row.group == ⟨c.segmentid⟩)
  | .siteSegment => totals id ((atHour dow hour r.siteSegmentHour).filter fun row =>
      row.group == ⟨c.siteid, c.segmentid⟩)
  | .siteSize => totals id ((atHour dow hour r.siteSizeHour).filter fun row => row.group == ⟨c.siteid, c.size⟩)
  | .siteSizeSegment => totals id ((atHour dow hour r.siteSizeSegmentHour).filter fun row =>
      row.group == ⟨c.siteid, c.segmentid, c.size⟩)
  | .cps => totals id ((atHour dow hour r.cpsHour).filter fun row =>
      optimisedSan net row.group.san && row.group == ⟨c.san, c.size, c.adgroup⟩)
  | .cpsSegment => totals id ((atHour dow hour r.cpsSegmentHour).filter fun row =>
      optimisedSan net row.group.san && row.group == ⟨c.san, c.size, c.adgroup, c.segmentid⟩)
  | .cpsSiteSegment => totals id ((atHour dow hour r.cpsSiteSegmentHour).filter fun row =>
      optimisedSan net row.group.san && row.group == ⟨c.san, c.size, c.adgroup, c.siteid, c.segmentid⟩)

def Nonneg (e : Evidence) : Prop := 0 ≤ e.n ∧ 0 ≤ e.a ∧ 0 ≤ e.cells

/-- Negative numbers replaced by 0, as `noNull` does. -/
def clip (e : Evidence) : Evidence := ⟨max e.n 0, max e.a 0, max e.cells 0⟩

def times (e : Evidence) (k : Nat) : Evidence := ⟨k * e.n, k * e.a, k * e.cells⟩

theorem clip_eq_self {e : Evidence} : clip e = e ↔ Nonneg e := by
  cases e
  simp [clip, Nonneg]

theorem noNull_zero (value : Option Int) : noNull value 0 = max (num value) 0 := by
  unfold noNull
  split_ifs with positive
  · exact (max_eq_left positive.le).symm
  · exact (max_eq_right (not_lt.mp positive)).symm

theorem times_one (e : Evidence) : times e 1 = e := by
  cases e
  simp [times]

/-- Totals over two lists of rows on which every sum differs by one factor. -/
theorem totals_times {ρ σ γ : Type} {rollup : ρ → Rollup γ} {rollup' : σ → Rollup γ} {rows : List ρ} {rows' : List σ}
    {k : Nat} (sums : ∀ value : Rollup γ → Int, (rows.map fun row => value (rollup row)).sum =
      k * (rows'.map fun row => value (rollup' row)).sum) : totals rollup rows = times (totals rollup' rows') k := by
  have n := sums fun row => num row.impressions
  have a := sums fun row => num row.actions
  have cells := sums fun row => num row.num_cells
  simp only [totals, times, n, a, cells]

theorem readLevel_levelQuery {ρ γ : Type} (rollup : ρ → Rollup γ) (key : ρ → Str) (rows : List ρ) (ind : Str) :
    readLevel (levelQuery rollup key rows) ind = clip (totals rollup (rows.filter fun row => key row = ind)) := by
  have sums := fun read column reads => num_groupSum key (levelRow rollup) read column reads rows ind
  have n := sums LevelRow.n (fun row => (rollup row).impressions) (fun _ => rfl)
  have a := sums LevelRow.a (fun row => (rollup row).actions) (fun _ => rfl)
  have cells := sums LevelRow.cells (fun row => (rollup row).num_cells) (fun _ => rfl)
  simp only [readLevel, levelQuery, noNull_zero, n, a, cells]
  rfl

/-- A level whose keys never are the looked up index reads nothing. -/
theorem readLevel_none {ρ γ : Type} (rollup : ρ → Rollup γ) (key : ρ → Str) (rows : List ρ) (ind : Str)
    (other : ∀ row ∈ rows, key row ≠ ind) : readLevel (levelQuery rollup key rows) ind = Evidence.zero := by
  have none : rows.filter (fun row => key row = ind) = [] := by
    refine List.filter_eq_nil_iff.mpr ?_
    intro row member
    simpa using other row member
  rw [readLevel_levelQuery, none]
  rfl

/-- A level whose keys are the index exactly on the rows of a group reads the
    sums over that group. -/
theorem readLevel_group {γ : Type} (key : Rollup γ → Str) (rows : List (Rollup γ)) (ind : Str)
    (keep : Rollup γ → Bool) (same : ∀ row, key row = ind ↔ keep row = true) :
    readLevel (levelQuery id key rows) ind = clip (totals id (rows.filter keep)) := by
  have filters : rows.filter (fun row => key row = ind) = rows.filter keep := by
    refine List.filter_congr ?_
    intro row _
    rw [Bool.eq_iff_iff, decide_eq_true_iff, same row]
  rw [readLevel_levelQuery, filters]

/-! ### The levels read as they are summed -/

theorem read_segment (net : Network) (r : Rollups) (logs : List DowHourRow) (dow hour : Nat) (c : Cell) :
    qhatLevel (getOptimizationData net r logs dow hour) c .segment = clip (levelSums net r dow hour c .segment) := by
  refine readLevel_group _ _ _ _ ?_
  intro row
  rw [beq_iff_eq, sInd]
  constructor
  · intro same
    exact SegmentGroup.ext (intText_injective same)
  · intro same
    rw [same]

theorem read_siteSegment (net : Network) (r : Rollups) (logs : List DowHourRow) (dow hour : Nat) (c : Cell) :
    qhatLevel (getOptimizationData net r logs dow hour) c .siteSegment =
      clip (levelSums net r dow hour c .siteSegment) := by
  refine readLevel_group _ _ _ _ ?_
  intro row
  rw [beq_iff_eq, ssInd, siteSegmentKey]
  constructor
  · intro same
    have fields := joined_injective (by simp) (by simp) (by simp) (by simp) same
    simp only [List.cons.injEq, and_true] at fields
    exact SiteSegmentGroup.ext (intText_injective fields.1) (intText_injective fields.2)
  · intro same
    rw [same]

/-- An ad is joined with its own row of `Media` only. -/
theorem countP_media (net : Network) (adid : Int) (z : Size) :
    net.media.countP (fun m => adid == m.adid && m.size == z) =
      if net.media.any (fun m => adid == m.adid && m.size == z) then 1 else 0 := by
  have key := net.media_key
  generalize net.media = media at key
  induction media with
  | nil => rfl
  | cons m rest ih =>
    obtain ⟨fresh, tail⟩ := List.nodup_cons.mp key
    by_cases here : (adid == m.adid && m.size == z) = true
    · have later : rest.countP (fun m => adid == m.adid && m.size == z) = 0 := by
        refine List.countP_eq_zero.mpr ?_
        intro other member found
        simp only [Bool.and_eq_true, beq_iff_eq] at here found
        exact fresh (List.mem_map.mpr ⟨other, member, found.1.symm.trans here.1⟩)
      simp [here, later]
    · simp only [List.countP_cons, here, List.any_cons, ih tail]
      simp

theorem read_size (net : Network) (r : Rollups) (logs : List DowHourRow) (dow hour : Nat) (c : Cell) :
    qhatLevel (getOptimizationData net r logs dow hour) c .size = clip (levelSums net r dow hour c .size) := by
  have sizes : ∀ m : Media, decide (m.size.text = zInd c) = (m.size == c.size) := by
    intro m
    rw [Bool.eq_iff_iff, decide_eq_true_iff, beq_iff_eq]
    exact ⟨Size.ext_text, congrArg Size.text⟩
  have joinedTotals : totals Prod.fst
      ((join (fun row (m : Media) => row.group.adid == m.adid) (atHour dow hour r.mediaHour) net.media).filter
        fun pair => pair.2.size.text = zInd c) = times (levelSums net r dow hour c .size) 1 := by
    refine totals_times ?_
    intro value
    rw [sum_join]
    simp only [sizes, countP_media]
    refine sum_weighted _ _ _ value 1 ?_ ?_
    · intro row _ kept
      simp [kept]
    · intro row _ dropped
      simp [dropped]
  show readLevel (levelQuery _ _ _) _ = _
  rw [readLevel_levelQuery, joinedTotals, times_one]

/-! ### The levels read under another level's keys -/

theorem read_siteSize (net : Network) (r : Rollups) (logs : List DowHourRow) (dow hour : Nat) (c : Cell) :
    qhatLevel (getOptimizationData net r logs dow hour) c .siteSize = Evidence.zero := by
  refine readLevel_none _ _ _ _ ?_
  intro row _ same
  have fields := joined_injective (by simp) (by simp) (by simp [row.group.size.plain]) (by simp [c.size.plain]) same
  simp at fields

theorem read_siteSizeSegment (net : Network) (r : Rollups) (logs : List DowHourRow) (dow hour : Nat) (c : Cell) :
    qhatLevel (getOptimizationData net r logs dow hour) c .siteSizeSegment = Evidence.zero := by
  refine readLevel_none _ _ _ _ ?_
  intro row _ same
  have fields := joined_injective (by simp) (by simp) (by simp [row.group.size.plain]) (by simp [c.size.plain]) same
  simp at fields

/-- The account names of the CPS tables hold no underscore. -/
structure SansPlain (r : Rollups) : Prop where
  cps : ∀ row ∈ r.cpsHour, '_' ∉ row.group.san
  cpsSegment : ∀ row ∈ r.cpsSegmentHour, '_' ∉ row.group.san
  cpsSiteSegment : ∀ row ∈ r.cpsSiteSegmentHour, '_' ∉ row.group.san

theorem mem_cpsRows {γ : Type} {net : Network} {san : γ → Str} {dow hour : Nat} {rows : List (Rollup γ)}
    {pair : Rollup γ × Campaign} (member : pair ∈ cpsRows net san dow hour rows) : pair.1 ∈ rows :=
  (List.mem_filter.mp (mem_join.mp member).1).1

theorem read_cps (net : Network) (r : Rollups) (logs : List DowHourRow) (dow hour : Nat) (c : Cell)
    (cellSan : '_' ∉ c.san) (sans : SansPlain r) :
    qhatLevel (getOptimizationData net r logs dow hour) c .cps = Evidence.zero := by
  refine readLevel_none _ _ _ _ ?_
  intro pair member same
  have rowSan := sans.cpsSiteSegment _ (mem_cpsRows member)
  have fields := joined_injective (by simp) (by simp) (by simp [rowSan, pair.1.group.size.plain])
    (by simp [cellSan, c.size.plain]) same
  simp at fields

theorem read_cpsSiteSegment (net : Network) (r : Rollups) (logs : List DowHourRow) (dow hour : Nat) (c : Cell)
    (cellSan : '_' ∉ c.san) (sans : SansPlain r) :
    qhatLevel (getOptimizationData net r logs dow hour) c .cpsSiteSegment = Evidence.zero := by
  refine readLevel_none _ _ _ _ ?_
  intro pair member same
  have rowSan := sans.cps _ (mem_cpsRows member)
  have fields := joined_injective (by simp) (by simp) (by simp [rowSan, pair.1.group.size.plain])
    (by simp [cellSan, c.size.plain]) same
  simp at fields

def optimisedRows (net : Network) (san : Str) : Nat := net.campaign.countP fun c => san == c.san && c.optimised

/-- The totals of `CPSSegmentHour` that the CPS/segment lookup reads: those of
    the segment whose id is the cell's site id. -/
def siteAsSegment (r : Rollups) (dow hour : Nat) (c : Cell) : Evidence :=
  totals id ((atHour dow hour r.cpsSegmentHour).filter fun row =>
    row.group == ⟨c.san, c.size, c.adgroup, c.siteid⟩)

theorem read_cpsSegment (net : Network) (r : Rollups) (logs : List DowHourRow) (dow hour : Nat) (c : Cell)
    (cellSan : '_' ∉ c.san) (sans : SansPlain r) :
    qhatLevel (getOptimizationData net r logs dow hour) c .cpsSegment =
      clip (times (siteAsSegment r dow hour c) (optimisedRows net c.san)) := by
  have joinedTotals : totals Prod.fst ((cpsRows net CpsSegmentGroup.san dow hour r.cpsSegmentHour).filter
      fun pair => cpsSegmentKey pair.1.group = cpssInd c) =
        times (siteAsSegment r dow hour c) (optimisedRows net c.san) := by
    refine totals_times ?_
    intro value
    rw [cpsRows, sum_join]
    refine sum_weighted _ _ _ value (optimisedRows net c.san) ?_ ?_
    · intro row _ kept
      have group : row.group = ⟨c.san, c.size, c.adgroup, c.siteid⟩ := beq_iff_eq.mp kept
      simp [group, cpsSegmentKey, cpssInd, optimisedRows]
    · intro row member dropped
      have rowSan := sans.cpsSegment row (List.mem_filter.mp member).1
      -- the joined keys agree only for the cell's account name, size, ad group and site id
      have other : cpsSegmentKey row.group ≠ cpssInd c := by
        intro same
        have fields := joined_injective (by simp) (by simp) (by simp [rowSan, row.group.size.plain])
          (by simp [cellSan, c.size.plain]) same
        simp only [List.cons.injEq, and_true] at fields
        obtain ⟨san, sizeText, adgroup, site⟩ := fields
        have group : row.group = ⟨c.san, c.size, c.adgroup, c.siteid⟩ :=
          CpsSegmentGroup.ext san (Size.ext_text sizeText) (intText_injective adgroup) (intText_injective site)
        rw [group, beq_self_eq_true] at dropped
        exact Bool.noConfusion dropped
      simp [other]
  show readLevel (levelQuery _ _ _) _ = _
  rw [readLevel_levelQuery, joinedTotals]

/-! ### Agreement -/

/-- When the levels agree: no total is negative at the three levels that are read
    under their own keys, the tables hold nothing for the cell at the four levels
    whose hashes are exchanged, and at the CPS/segment level the totals of the
    segment numbered like the cell's site stand for those of its segment. -/
structure LevelsMatch (net : Network) (r : Rollups) (dow hour : Nat) (c : Cell) : Prop where
  size : Nonneg (levelSums net r dow hour c .size)
  segment : Nonneg (levelSums net r dow hour c .segment)
  siteSegment : Nonneg (levelSums net r dow hour c .siteSegment)
  siteSize : levelSums net r dow hour c .siteSize = Evidence.zero
  siteSizeSegment : levelSums net r dow hour c .siteSizeSegment = Evidence.zero
  cps : levelSums net r dow hour c .cps = Evidence.zero
  cpsSiteSegment : levelSums net r dow hour c .cpsSiteSegment = Evidence.zero
  cpsSegment : levelSums net r dow hour c .cpsSegment =
    clip (times (siteAsSegment r dow hour c) (optimisedRows net c.san))

/-- The estimator reads the sums of the roll-up tables at all eight levels
    exactly when the tables hold no data for the cell at the levels it cannot
    look up. -/
theorem level_data_agreement_iff (net : Network) (r : Rollups) (logs : List DowHourRow) (dow hour : Nat) (c : Cell)
    (cellSan : '_' ∉ c.san) (sans : SansPlain r) :
    (∀ level, qhatLevel (getOptimizationData net r logs dow hour) c level = levelSums net r dow hour c level) ↔
      LevelsMatch net r dow hour c := by
  constructor
  · intro agree
    refine ⟨?_, ?_, ?_, ?_, ?_, ?_, ?_, ?_⟩
    · exact clip_eq_self.mp ((read_size net r logs dow hour c).symm.trans (agree .size))
    · exact clip_eq_self.mp ((read_segment net r logs dow hour c).symm.trans (agree .segment))
    · exact clip_eq_self.mp ((read_siteSegment net r logs dow hour c).symm.trans (agree .siteSegment))
    · exact (agree .siteSize).symm.trans (read_siteSize net r logs dow hour c)
    · exact (agree .siteSizeSegment).symm.trans (read_siteSizeSegment net r logs dow hour c)
    · exact (agree .cps).symm.trans (read_cps net r logs dow hour c cellSan sans)
    · exact (agree .cpsSiteSegment).symm.trans (read_cpsSiteSegment net r logs dow hour c cellSan sans)
    · exact (agree .cpsSegment).symm.trans (read_cpsSegment net r logs dow hour c cellSan sans)
  · intro holds level
    cases level with
    | size => rw [read_size, clip_eq_self.mpr holds.size]
    | segment => rw [read_segment, clip_eq_self.mpr holds.segment]
    | siteSegment => rw [read_siteSegment, clip_eq_self.mpr holds.siteSegment]
    | siteSize => rw [read_siteSize, holds.siteSize]
    | siteSizeSegment => rw [read_siteSizeSegment, holds.siteSizeSegment]
    | cps => rw [read_cps net r logs dow hour c cellSan sans, holds.cps]
    | cpsSegment => rw [read_cpsSegment net r logs dow hour c cellSan sans, holds.cpsSegment]
    | cpsSiteSegment => rw [read_cpsSiteSegment net r logs dow hour c cellSan sans, holds.cpsSiteSegment]

def oneCell : Network where
  campaign := [⟨"auoapi1amdec10".toList, 1, some 100, some 1, some 1, some 3⟩]
  media := [⟨11, size300x250, "auoapi1amdec10".toList, some 1, 1⟩]
  cdoCells := [⟨7, 11, 20, 5, some 1, some 0⟩]
  campaign_key := by decide
  media_key := by decide
  cdoCells_key := by decide

def theCell : Cell := ⟨7, 11, 20, 5, size300x250, "auoapi1amdec10".toList, 1, none⟩

/-- One logged hour of that cell on a Thursday, at the site/segment level and, if
    `bySize`, at the site/size level. -/
def oneHour (bySize : Bool) : Rollups where
  mediaHour := []
  segmentHour := []
  siteSegmentHour := [⟨0, 3, ⟨20, 5⟩, some 100, some 4, some 2, some 1⟩]
  siteSizeHour := if bySize then [⟨0, 3, ⟨20, size300x250⟩, some 100, some 4, some 2, some 1⟩] else []
  siteSizeSegmentHour := []
  cpsHour := []
  cpsSegmentHour := []
  cpsSiteSegmentHour := []

theorem oneHour_plain (bySize : Bool) : SansPlain (oneHour bySize) :=
  ⟨fun _ member => absurd member List.not_mem_nil, fun _ member => absurd member List.not_mem_nil,
    fun _ member => absurd member List.not_mem_nil⟩

theorem level_data_agreement_site_segment :
    levelSums oneCell (oneHour false) 5 3 theCell .siteSegment = ⟨100, 2, 1⟩ ∧
      ∀ level, qhatLevel (getOptimizationData oneCell (oneHour false) [] 5 3) theCell level =
        levelSums oneCell (oneHour false) 5 3 theCell level := by
  refine ⟨by decide, ?_⟩
  exact (level_data_agreement_iff oneCell (oneHour false) [] 5 3 theCell (by decide) (oneHour_plain false)).mpr
    ⟨⟨by decide, by decide, by decide⟩, ⟨by decide, by decide, by decide⟩, ⟨by decide, by decide, by decide⟩,
      by decide, by decide, by decide, by decide, by decide⟩

/-- The logged hour of an active cell is in `SiteSizeHour`, and the site/size
    lookup reads zeros. -/
theorem site_size_history_unread :
    theCell ∈ cellRows oneCell ∧ '_' ∉ theCell.san ∧ SansPlain (oneHour true) ∧
      levelSums oneCell (oneHour true) 5 3 theCell .siteSize = ⟨100, 2, 1⟩ ∧
      qhatLevel (getOptimizationData oneCell (oneHour true) [] 5 3) theCell .siteSize = ⟨0, 0, 0⟩ ∧
      ¬ ∀ level, qhatLevel (getOptimizationData oneCell (oneHour true) [] 5 3) theCell level =
        levelSums oneCell (oneHour true) 5 3 theCell level := by
  refine ⟨by decide, by decide, oneHour_plain true, by decide, by decide, ?_⟩
  intro agree
  exact absurd (agree .siteSize) (by decide)

end Cdo.LevelData
