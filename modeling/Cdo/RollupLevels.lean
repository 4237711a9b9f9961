import Cdo.ByHour

/-!
The levels of the hourly roll-ups compared with each other. The tables are
filled by queries of their own, of which those with sizes or ad groups leave out
the log rows whose ad is not in `Media`: ads of a size that the optimiser does
not know are not entered there. A finer level adds up to a coarser one that has
no size exactly where all logged ads are in `Media`; between levels that both
have sizes, or both have none, nothing is lost (`levels_consistent_iff`). All of
this needs that texts which differ are stored apart: an insertion that meets a
key twice breaks off. Counters and their sums are integers without bound, where
`cdoTables.sql` declares INT columns; a sum that does not fit there is not modelled.
-/
namespace Cdo.RollupLevels
open Cdo.Text Cdo.Query Cdo.Tables Cdo.Signals Cdo.Logs Cdo.ByHour

/-! ### Levels -/

/-- `SiteSizeSegmentHour` over its sizes is `SiteSegmentHour`. -/
def SizesAddUp (tables : HourTables) (date : Date) (hour : Nat) (siteid segmentid : Int) : Prop :=
  ∀ counter, total counter date hour (fun group => group.siteid == siteid && group.segmentid == segmentid)
      tables.siteSizeSegmentHour.rows =
    total counter date hour (· == ⟨siteid, segmentid⟩) tables.siteSegmentHour.rows

/-- `SiteSizeSegmentHour` over its segments is `SiteSizeHour`. -/
def SegmentsAddUp (tables : HourTables) (date : Date) (hour : Nat) (siteid : Int) (size : Str) : Prop :=
  ∀ counter, total counter date hour (fun group => group.siteid == siteid && group.size == size)
      tables.siteSizeSegmentHour.rows =
    total counter date hour (· == ⟨siteid, size⟩) tables.siteSizeHour.rows

/-- `SiteSegmentHour` over its sites is `SegmentHour`. -/
def SitesAddUp (tables : HourTables) (date : Date) (hour : Nat) (segmentid : Int) : Prop :=
  ∀ counter, total counter date hour (fun group => group.segmentid == segmentid) tables.siteSegmentHour.rows =
    total counter date hour (· == ⟨segmentid⟩) tables.segmentHour.rows

/-- `CPSHour` over its sizes and ad groups is `CampaignHour`. -/
def AdgroupsAddUp (tables : HourTables) (date : Date) (hour : Nat) (san : Str) : Prop :=
  ∀ counter, total counter date hour (fun group => group.san == san) tables.cpsHour.rows =
    total counter date hour (· == ⟨san⟩) tables.campaignHour.rows

/-! ### What is stored apart -/

def SizesApart (media : MediaTable) : Prop :=
  ∀ m ∈ media.rows, ∀ m' ∈ media.rows,
    storedSize (nullFirst m.size) = storedSize (nullFirst m'.size) → m.size = m'.size

def AdgroupsApart (media : MediaTable) : Prop :=
  ∀ m ∈ media.rows, ∀ m' ∈ media.rows,
    storedAdgroup (nullFirst m.adgroup) = storedAdgroup (nullFirst m'.adgroup) → m.adgroup = m'.adgroup

def SansApart (logs : LogTable) (date : Date) : Prop :=
  ∀ row ∈ logs.rows, ∀ row' ∈ logs.rows, row.date = date → row'.date = date →
    storedSan (nullFirst row.san) = storedSan (nullFirst row'.san) → row.san = row'.san

section
variable {logs : LogTable} {media : MediaTable} {tables : HourTables} {date : Date} {hour : Nat}

theorem inRange_self (date other : Date) : inRange date date other = decide (other = date) := by
  rw [inRange, ← Bool.decide_and]
  refine decide_eq_decide.mpr ⟨fun between => le_antisymm between.2 between.1, ?_⟩
  rintro rfl
  exact ⟨le_rfl, le_rfl⟩

theorem mem_withMedia {pair : LogRow × MediaRow} (member : pair ∈ withMedia logs media) :
    pair.1 ∈ logs.rows ∧ pair.2 ∈ media.rows := by
  obtain ⟨isLog, isMedia, -⟩ := mem_join.mp member
  exact ⟨isLog, isMedia⟩

theorem sourceOf {keep : LogRow × MediaRow → Bool} {pair : LogRow × MediaRow}
    (member : pair ∈ (withMedia logs media).filter keep) : pair.1 ∈ logs.rows ∧ pair.2 ∈ media.rows ∧ keep pair = true :=
  ⟨(mem_withMedia (List.mem_filter.mp member).1).1, (mem_withMedia (List.mem_filter.mp member).1).2,
    (List.mem_filter.mp member).2⟩

theorem siteSizeSegmentHour_apart (sizes : SizesApart media) (keep : LogRow × MediaRow → Bool) :
    siteSizeSegmentHour.Apart ((withMedia logs media).filter keep) := by
  intro first isFirst second isSecond same
  obtain ⟨-, firstMedia, -⟩ := sourceOf isFirst
  obtain ⟨-, secondMedia, -⟩ := sourceOf isSecond
  simp only [siteSizeSegmentHour, ofLex_toLex, SiteSizeSegmentColumns.mk.injEq] at same ⊢
  obtain ⟨site, segment, size⟩ := same
  rw [site, segment, sizes _ firstMedia _ secondMedia size]

theorem siteSizeHour_apart (sizes : SizesApart media) (keep : LogRow × MediaRow → Bool) :
    siteSizeHour.Apart ((withMedia logs media).filter keep) := by
  intro first isFirst second isSecond same
  obtain ⟨-, firstMedia, -⟩ := sourceOf isFirst
  obtain ⟨-, secondMedia, -⟩ := sourceOf isSecond
  simp only [siteSizeHour, ofLex_toLex, SiteSizeColumns.mk.injEq] at same ⊢
  obtain ⟨site, size⟩ := same
  rw [site, sizes _ firstMedia _ secondMedia size]

theorem cpsHour_apart (sizes : SizesApart media) (adgroups : AdgroupsApart media) (sans : SansApart logs date) :
    cpsHour.Apart ((withMedia logs media).filter fun pair => inRange date date pair.1.date) := by
  intro first isFirst second isSecond same
  obtain ⟨firstLog, firstMedia, firstDate⟩ := sourceOf isFirst
  obtain ⟨secondLog, secondMedia, secondDate⟩ := sourceOf isSecond
  rw [inRange_self, decide_eq_true_iff] at firstDate secondDate
  simp only [cpsHour, cpsKey, cpsStored, ofLex_toLex, CpsColumns.mk.injEq] at same ⊢
  obtain ⟨san, size, adgroup⟩ := same
  rw [sans _ firstLog _ secondLog firstDate secondDate san, sizes _ firstMedia _ secondMedia size,
    adgroups _ firstMedia _ secondMedia adgroup]

theorem campaignHour_apart (sans : SansApart logs date) :
    campaignHour.Apart (logs.rows.filter fun row => inRange date date row.date) := by
  intro first isFirst second isSecond same
  obtain ⟨firstLog, firstDate⟩ := List.mem_filter.mp isFirst
  obtain ⟨secondLog, secondDate⟩ := List.mem_filter.mp isSecond
  rw [inRange_self, decide_eq_true_iff] at firstDate secondDate
  simp only [campaignHour, CampaignGroup.mk.injEq] at same ⊢
  rw [sans _ firstLog _ secondLog firstDate secondDate same]

theorem siteSegmentHour_apart (sources : List LogRow) : siteSegmentHour.Apart sources := by
  intro first _ second _ same
  simpa [siteSegmentHour] using same

theorem segmentHour_apart (sources : List LogRow) : segmentHour.Apart sources := by
  intro first _ second _ same
  simpa [segmentHour] using same

/-! ### Rows that a join leaves out -/

/-- A sum over the log rows with their ads is one over the rows whose ad is
    there. -/
theorem sum_withMedia (keep : LogRow → Bool) (value : LogRow → Int) :
    (((withMedia logs media).filter fun pair => keep pair.1).map fun pair => value pair.1).sum =
      ((logs.rows.filter fun row => keep row && decide (media.Has row.adid)).map value).sum := by
  rw [withMedia, sum_join, sum_weighted logs.rows (fun row => keep row && decide (media.Has row.adid)) _ _ 1, one_mul]
  · intro row _ kept
    obtain ⟨keeps, known⟩ := Bool.and_eq_true_iff.mp kept
    have once : (media.rows.map MediaRow.adid).count row.adid = 1 :=
      List.count_eq_one_of_mem media.nodup (of_decide_eq_true known)
    rw [List.count_eq_countP, List.countP_map] at once
    have same : (fun m : MediaRow => row.adid == m.adid && keep row) = (· == row.adid) ∘ MediaRow.adid := by
      funext m
      rw [keeps, Bool.and_true, Function.comp_apply, Bool.eq_iff_iff, beq_iff_eq, beq_iff_eq, eq_comm]
    rw [same, once]
    rfl
  · intro row _ dropped
    have unknown : ∀ m ∈ media.rows, ¬ (row.adid == m.adid && keep row) = true := by
      intro m member both
      obtain ⟨same, keeps⟩ := Bool.and_eq_true_iff.mp both
      have has : media.Has row.adid := KeyedTable.has_iff.mpr ⟨m, member, (beq_iff_eq.mp same).symm⟩
      simp [keeps, has] at dropped
    rw [List.countP_eq_zero.mpr unknown]
    rfl

/-- Leaving out rows changes no counter exactly if there are none to leave out;
    the number of cells tells. -/
theorem sums_eq_iff {rows : List LogRow} {keep known : LogRow → Bool} :
    (∀ counter : Counter, ((rows.filter fun row => keep row && known row).map counter.ofLog).sum =
        ((rows.filter keep).map counter.ofLog).sum) ↔
      ∀ row ∈ rows, keep row = true → known row = true := by
  have nested : (rows.filter fun row => keep row && known row) = (rows.filter keep).filter known := by
    rw [List.filter_filter]
    exact List.filter_congr fun row _ => Bool.and_comm _ _
  constructor
  · intro same
    have lengths : ((rows.filter keep).filter known).length = (rows.filter keep).length := by
      have cells := same .num_cells
      have ones : Counter.num_cells.ofLog = fun _ => 1 := rfl
      rw [nested, ones] at cells
      simpa using cells
    intro row member kept
    exact List.length_filter_eq_length_iff.mp lengths row (List.mem_filter.mpr ⟨member, kept⟩)
  · intro all counter
    rw [nested, List.filter_eq_self.mpr]
    intro row member
    exact all row (List.mem_filter.mp member).1 (List.mem_filter.mp member).2

/-! ### Sums of the levels -/

theorem total_siteSizeSegmentHour (sizes : SizesApart media) (counter : Counter) (kind : SiteSizeSegmentColumns → Bool) :
    total counter date hour kind (byHour logs media date date 1 tables).siteSizeSegmentHour.rows =
      (((withMedia logs media).filter fun pair => siteSizeSegmentHour.ofKind date hour kind (siteSizeSegmentHour.key pair)).map
        fun pair => counter.ofLog pair.1).sum :=
  total_repopulate (siteSizeSegmentHour_apart sizes _) (by simp [inRange_self]) counter hour kind

theorem total_siteSegmentHour (counter : Counter) (kind : SiteSegmentGroup → Bool) :
    total counter date hour kind (byHour logs media date date 1 tables).siteSegmentHour.rows =
      ((logs.rows.filter fun row => siteSegmentHour.ofKind date hour kind (siteSegmentHour.key row)).map
        counter.ofLog).sum :=
  total_repopulate (siteSegmentHour_apart _) (by simp [inRange_self]) counter hour kind

theorem sizes_add_up_iff (sizes : SizesApart media) (siteid segmentid : Int) :
    SizesAddUp (byHour logs media date date 1 tables) date hour siteid segmentid ↔
      ∀ row ∈ logs.rows, row.date = date → row.hour = hour → row.siteid = siteid → row.segmentid = segmentid →
        media.Has row.adid := by
  have keeps : ∀ row : LogRow, siteSegmentHour.ofKind date hour (· == ⟨siteid, segmentid⟩) (siteSegmentHour.key row) = true ↔
      row.date = date ∧ row.hour = hour ∧ row.siteid = siteid ∧ row.segmentid = segmentid := by
    intro row
    simp [HourQuery.ofKind, HourQuery.key, siteSegmentHour, and_assoc]
  have fine : ∀ counter : Counter,
      total counter date hour (fun group => group.siteid == siteid && group.segmentid == segmentid)
          (byHour logs media date date 1 tables).siteSizeSegmentHour.rows =
        ((logs.rows.filter fun row =>
          siteSegmentHour.ofKind date hour (· == ⟨siteid, segmentid⟩) (siteSegmentHour.key row) &&
            decide (media.Has row.adid)).map counter.ofLog).sum := by
    intro counter
    rw [total_siteSizeSegmentHour sizes, ← sum_withMedia]
    refine sum_filter_congr fun pair _ => ?_
    rw [Bool.eq_iff_iff, keeps]
    simp [HourQuery.ofKind, HourQuery.key, siteSizeSegmentHour, and_assoc]
  rw [SizesAddUp]
  simp only [fine, total_siteSegmentHour, sums_eq_iff, keeps, decide_eq_true_iff, and_imp]

theorem segments_add_up (sizes : SizesApart media) (siteid : Int) (size : Str) :
    SegmentsAddUp (byHour logs media date date 1 tables) date hour siteid size := by
  intro counter
  have coarse : total counter date hour (· == ⟨siteid, size⟩) (byHour logs media date date 1 tables).siteSizeHour.rows =
      (((withMedia logs media).filter fun pair => siteSizeHour.ofKind date hour (· == ⟨siteid, size⟩)
        (siteSizeHour.key pair)).map fun pair => counter.ofLog pair.1).sum :=
    total_repopulate (siteSizeHour_apart sizes _) (by simp [inRange_self]) counter hour _
  rw [total_siteSizeSegmentHour sizes, coarse]
  refine sum_filter_congr fun pair _ => ?_
  rw [Bool.eq_iff_iff]
  simp [HourQuery.ofKind, HourQuery.key, siteSizeSegmentHour, siteSizeHour]

theorem sites_add_up (segmentid : Int) : SitesAddUp (byHour logs media date date 1 tables) date hour segmentid := by
  intro counter
  have coarse : total counter date hour (· == ⟨segmentid⟩) (byHour logs media date date 1 tables).segmentHour.rows =
      ((logs.rows.filter fun row => segmentHour.ofKind date hour (· == ⟨segmentid⟩) (segmentHour.key row)).map
        counter.ofLog).sum :=
    total_repopulate (segmentHour_apart _) (by simp [inRange_self]) counter hour _
  rw [total_siteSegmentHour, coarse]
  refine sum_filter_congr fun row _ => ?_
  rw [Bool.eq_iff_iff]
  simp [HourQuery.ofKind, HourQuery.key, siteSegmentHour, segmentHour]

theorem adgroups_add_up_iff (sizes : SizesApart media) (adgroups : AdgroupsApart media) (sans : SansApart logs date)
    (san : Str) :
    AdgroupsAddUp (byHour logs media date date 1 tables) date hour san ↔
      ∀ row ∈ logs.rows, row.date = date → row.hour = hour → storedSan (nullFirst row.san) = san →
        media.Has row.adid := by
  have keeps : ∀ row : LogRow, campaignHour.ofKind date hour (· == ⟨san⟩) (campaignHour.key row) = true ↔
      row.date = date ∧ row.hour = hour ∧ storedSan (nullFirst row.san) = san := by
    intro row
    simp [HourQuery.ofKind, HourQuery.key, campaignHour, and_assoc]
  have coarse : ∀ counter : Counter,
      total counter date hour (· == ⟨san⟩) (byHour logs media date date 1 tables).campaignHour.rows =
        ((logs.rows.filter fun row => campaignHour.ofKind date hour (· == ⟨san⟩) (campaignHour.key row)).map
          counter.ofLog).sum := fun counter =>
    total_repopulate (campaignHour_apart sans) (by simp [inRange_self]) counter hour _
  have fine : ∀ counter : Counter,
      total counter date hour (fun group => group.san == san) (byHour logs media date date 1 tables).cpsHour.rows =
        ((logs.rows.filter fun row => campaignHour.ofKind date hour (· == ⟨san⟩) (campaignHour.key row) &&
          decide (media.Has row.adid)).map counter.ofLog).sum := by
    intro counter
    have pairs : total counter date hour (fun group => group.san == san)
        (byHour logs media date date 1 tables).cpsHour.rows =
          (((withMedia logs media).filter fun pair => cpsHour.ofKind date hour (fun group => group.san == san)
            (cpsHour.key pair)).map fun pair => counter.ofLog pair.1).sum :=
      total_repopulate (cpsHour_apart sizes adgroups sans) (by simp [inRange_self]) counter hour _
    rw [pairs, ← sum_withMedia]
    refine sum_filter_congr fun pair _ => ?_
    rw [Bool.eq_iff_iff, keeps]
    simp [HourQuery.ofKind, HourQuery.key, cpsHour, cpsKey, cpsStored, and_assoc]
  rw [AdgroupsAddUp]
  simp only [fine, coarse, sums_eq_iff, keeps, decide_eq_true_iff, and_imp]

end

/-- After a day is rolled up, the segments add up to the sites and sizes and the
    sites to the segments; the sizes add up to a site and segment, and the ad
    groups to a campaign, exactly if the ads that were logged there are in
    `Media`. -/
theorem levels_consistent_iff (logs : LogTable) (media : MediaTable) (tables : HourTables) (date : Date) (hour : Nat) :
    (SizesApart media → ∀ siteid segmentid,
      (SizesAddUp (byHour logs media date date 1 tables) date hour siteid segmentid ↔
        ∀ row ∈ logs.rows, row.date = date → row.hour = hour → row.siteid = siteid → row.segmentid = segmentid →
          media.Has row.adid)) ∧
    (SizesApart media → ∀ siteid size,
      SegmentsAddUp (byHour logs media date date 1 tables) date hour siteid size) ∧
    (∀ segmentid, SitesAddUp (byHour logs media date date 1 tables) date hour segmentid) ∧
    (SizesApart media → AdgroupsApart media → SansApart logs date → ∀ san,
      (AdgroupsAddUp (byHour logs media date date 1 tables) date hour san ↔
        ∀ row ∈ logs.rows, row.date = date → row.hour = hour → storedSan (nullFirst row.san) = san →
          media.Has row.adid)) :=
  ⟨fun sizes => sizes_add_up_iff sizes, fun sizes => segments_add_up sizes, sites_add_up,
    fun sizes adgroups sans => adgroups_add_up_iff sizes adgroups sans⟩

/-! ### Ads that are not in Media, and texts that are stored alike -/

def noTables : HourTables :=
  ⟨.empty, .empty, .empty, .empty, .empty, .empty, .empty, .empty, .empty⟩

/-- A row of an ad on a segment of site 20. -/
def logged (san : Option Str) (adid segmentid impressions : Int) : LogRow :=
  ⟨15000, 3, san, adid, none, none, 20, segmentid, none, some impressions, some 0, some 0, some 0, none⟩

def twoAds : LogTable := ⟨[logged (some "auo".toList) 11 5 100, logged (some "auo".toList) 12 5 40], by decide⟩

def bothKnown : MediaTable :=
  ⟨[⟨11, some "300x250".toList, some 1⟩, ⟨12, some "728x90".toList, some 1⟩], by decide⟩

def oneKnown : MediaTable := ⟨[⟨12, some "728x90".toList, some 1⟩], List.nodup_singleton _⟩

theorem levels_consistent_both_known :
    SizesAddUp (byHour twoAds bothKnown 15000 15000 1 noTables) 15000 3 20 5 ∧
      AdgroupsAddUp (byHour twoAds bothKnown 15000 15000 1 noTables) 15000 3 "auo".toList := by
  obtain ⟨sizes, -, -, adgroups⟩ := levels_consistent_iff twoAds bothKnown noTables 15000 3
  have known : ∀ row ∈ twoAds.rows, bothKnown.Has row.adid := by decide
  have sizesApart : SizesApart bothKnown := by
    unfold SizesApart
    decide
  have adgroupsApart : AdgroupsApart bothKnown := by
    unfold AdgroupsApart
    decide
  have sansApart : SansApart twoAds 15000 := by
    unfold SansApart
    decide
  exact ⟨(sizes sizesApart 20 5).mpr fun row member _ _ _ _ => known row member,
    (adgroups sizesApart adgroupsApart sansApart _).mpr fun row member _ _ _ => known row member⟩

/-- A campaign without a name and one with an empty name, logged with a third. -/
def unnamed : LogTable :=
  ⟨[logged none 11 5 100, logged (some []) 12 5 40, logged (some "auo".toList) 12 6 7], by decide⟩

/-- An ad without a size and one with an empty size. -/
def unsized : MediaTable := ⟨[⟨11, none, some 1⟩, ⟨12, some [], some 1⟩], by decide⟩

def twoSegments : LogTable := ⟨[logged (some "auo".toList) 11 5 100, logged (some "auo".toList) 12 6 40], by decide⟩

/-- The impressions of an ad that is not in `Media` are missing from the levels
    with sizes. Where a NULL and an empty text meet, an insertion breaks off. -/
theorem unknown_ad_left_out :
    ¬ SizesAddUp (byHour twoAds oneKnown 15000 15000 1 noTables) 15000 3 20 5 ∧
      ¬ AdgroupsAddUp (byHour twoAds oneKnown 15000 15000 1 noTables) 15000 3 "auo".toList ∧
      ¬ AdgroupsAddUp (byHour unnamed bothKnown 15000 15000 1 noTables) 15000 3 "auo".toList ∧
      ¬ SegmentsAddUp (byHour twoSegments unsized 15000 15000 1 noTables) 15000 3 20 [] := by
  refine ⟨fun addUp => ?_, fun addUp => ?_, fun addUp => ?_, fun addUp => ?_⟩
  · exact absurd (addUp .impressions) (by decide +kernel)
  · exact absurd (addUp .impressions) (by decide +kernel)
  · exact absurd (addUp .impressions) (by decide +kernel)
  · exact absurd (addUp .impressions) (by decide +kernel)

end Cdo.RollupLevels
