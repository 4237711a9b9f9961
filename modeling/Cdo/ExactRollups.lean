import Cdo.RollupLevels

/-!
The hourly roll-ups rebuilt (`byHour` of `dataAggregation.pm`). Each of the nine
tables keeps its rows outside the range of dates and gets one row for every
group of the log rows inside it, with the columns and the sums of the group; the
insertion meets no key twice, and a second rebuilding changes nothing
(`byHour_exact`). The keys allow this because an ad is logged under one account
and one text and because no size and no ad group of `Media` is NULL or cut off.
Counters and their sums are integers without bound, where `cdoTables.sql` declares
INT columns; a sum that does not fit there is not modelled.
-/
namespace Cdo.ExactRollups
open Cdo.Text Cdo.Query Cdo.Tables Cdo.Signals Cdo.Logs Cdo.ByHour Cdo.RollupLevels

/-! ### A rebuilt table -/

section
variable {σ κ γ π : Type} [LinearOrder κ] [DecidableEq γ] [DecidableEq π]

/-- A row has the date, the hour and the columns of a source. -/
def RowOf (log : σ → LogRow) (columns : σ → Option γ) (row : HourRow γ) (source : σ) : Prop :=
  row.date = (log source).date ∧ row.hour = (log source).hour ∧ columns source = some row.group

instance (log : σ → LogRow) (columns : σ → Option γ) (row : HourRow γ) (source : σ) :
    Decidable (RowOf log columns row source) :=
  inferInstanceAs (Decidable (_ ∧ _ ∧ _))

/-- The rows of the table outside the range are those it had, and inside there is
    one for each group of the sources, with the sums of the group. The columns are
    those that the sources have themselves, if none is NULL. -/
structure Rebuilt {key : HourRow γ → π} (query : HourQuery σ κ γ) (columns : σ → Option γ) (startDate endDate : Date)
    (sources : List σ) (before after : KeyedTable key) : Prop where
  outside : (after.rows.filter fun row => !inRange startDate endDate row.date) =
    before.rows.filter fun row => !inRange startDate endDate row.date
  groups : ∀ source ∈ sources, inRange startDate endDate (query.log source).date = true →
    ∃! row, row ∈ after.rows ∧ RowOf query.log columns row source
  only : ∀ row ∈ after.rows, inRange startDate endDate row.date = true →
    ∃ source ∈ sources, RowOf query.log columns row source
  sums : ∀ row ∈ after.rows, inRange startDate endDate row.date = true →
    let group := sources.filter fun source => RowOf query.log columns row source
    row.impressions = sumColumn (fun source => (query.log source).impressions) group ∧
      row.clicks = sumColumn (fun source => (query.log source).clicks) group ∧
      row.actions = sumColumn (fun source => (query.log source).actions) group ∧
      row.num_cells = some group.length
  inserted : ((before.filter fun row => !inRange startDate endDate row.date).insert
    (query.select (sources.filter fun source => inRange startDate endDate (query.log source).date))).2 = true

/-- Whatever the table holds, it is rebuilt, and a second time changes nothing. -/
def Rebuilds (key : HourRow γ → π) (query : HourQuery σ κ γ) (columns : σ → Option γ) (startDate endDate : Date)
    (sources : List σ) : Prop :=
  ∀ table : KeyedTable key,
    Rebuilt query columns startDate endDate sources table (query.repopulate startDate endDate 1 sources table) ∧
      query.repopulate startDate endDate 1 sources (query.repopulate startDate endDate 1 sources table) =
        query.repopulate startDate endDate 1 sources table

/-- What is stored are the columns of the sources themselves. -/
def Fits (query : HourQuery σ κ γ) (columns : σ → Option γ) (sources : List σ) : Prop :=
  ∀ source ∈ sources, columns source = some (query.stored (query.columns source))

end

section
variable {σ κ γ π : Type} [LinearOrder κ] {query : HourQuery σ κ γ} {columns : σ → Option γ} {sources : List σ}

theorem mem_select_iff {row : HourRow γ} : row ∈ query.select sources ↔
    ∃ source ∈ sources, row = query.summed (query.key source)
      (sources.filter fun other => query.key other = query.key source) := by
  rw [select_eq, List.mem_map]
  constructor
  · rintro ⟨key, isKey, rfl⟩
    obtain ⟨source, isSource, rfl⟩ := (keys_groupMap _ _ _).mp isKey
    exact ⟨source, isSource, rfl⟩
  · rintro ⟨source, isSource, rfl⟩
    exact ⟨query.key source, (keys_groupMap _ _ _).mpr ⟨source, isSource, rfl⟩, rfl⟩

omit [LinearOrder κ] in
/-- The row of a group is that of the sources of the group. -/
theorem rowOf_summed (fits : Fits query columns sources) (apart : query.Apart sources) {source other : σ}
    (isSource : source ∈ sources) (isOther : other ∈ sources) (group : List σ) :
    RowOf query.log columns (query.summed (query.key source) group) other ↔ query.key other = query.key source := by
  simp only [RowOf, HourQuery.summed, HourQuery.key, ofLex_toLex, fits other isOther, Option.some.injEq]
  constructor
  · rintro ⟨date, hour, stored⟩
    rw [date, hour, apart other isOther source isSource stored]
  · intro same
    obtain ⟨date, rest⟩ := Prod.mk.inj (congrArg ofLex same)
    obtain ⟨hour, cols⟩ := Prod.mk.inj (congrArg ofLex rest)
    exact ⟨date.symm, hour.symm, by rw [cols]⟩

end

section
variable {σ κ γ π : Type} [LinearOrder κ] [DecidableEq γ] [DecidableEq π] {key : HourRow γ → π}
  {query : HourQuery σ κ γ} {columns : σ → Option γ} {sources : List σ} {startDate endDate : Date}

omit [DecidableEq γ] [DecidableEq π] in
theorem select_inside {row : HourRow γ}
    (member : row ∈ query.select (sources.filter fun source => inRange startDate endDate (query.log source).date)) :
    inRange startDate endDate row.date = true := by
  obtain ⟨source, isSource, date, -⟩ := mem_select member
  exact date ▸ (List.mem_filter.mp isSource).2

omit [DecidableEq γ] in
theorem repopulate_outside (dated : ∀ row other, key row = key other → row.date = other.date)
    (own : ((query.select (sources.filter fun source => inRange startDate endDate (query.log source).date)).map
      key).Nodup) (table : KeyedTable key) :
    ((query.repopulate startDate endDate 1 sources table).rows.filter fun row => !inRange startDate endDate row.date) =
      table.rows.filter fun row => !inRange startDate endDate row.date := by
  have none : ((query.select (sources.filter fun source => inRange startDate endDate (query.log source).date)).filter
      fun row => !inRange startDate endDate row.date) = [] := by
    refine List.filter_eq_nil_iff.mpr fun row member => ?_
    simp [select_inside member]
  rw [repopulate_rows dated own, List.filter_append, none, List.append_nil, List.filter_filter]
  simp only [Bool.and_self]

omit [DecidableEq γ] in
/-- The rows of the range are the groups that were inserted. -/
theorem mem_repopulate (dated : ∀ row other, key row = key other → row.date = other.date)
    (own : ((query.select (sources.filter fun source => inRange startDate endDate (query.log source).date)).map
      key).Nodup) {table : KeyedTable key} {row : HourRow γ} (inside : inRange startDate endDate row.date = true) :
    row ∈ (query.repopulate startDate endDate 1 sources table).rows ↔
      row ∈ query.select (sources.filter fun source => inRange startDate endDate (query.log source).date) := by
  rw [repopulate_rows dated own, List.mem_append, List.mem_filter, inside]
  simp

/-- A table is rebuilt if its key holds the date and the groups of the range have
    keys of their own. -/
theorem rebuilt_repopulate (dated : ∀ row other, key row = key other → row.date = other.date)
    (fits : Fits query columns (sources.filter fun source => inRange startDate endDate (query.log source).date))
    (apart : query.Apart (sources.filter fun source => inRange startDate endDate (query.log source).date))
    (own : ((query.select (sources.filter fun source => inRange startDate endDate (query.log source).date)).map
      key).Nodup) (table : KeyedTable key) :
    Rebuilt query columns startDate endDate sources table (query.repopulate startDate endDate 1 sources table) where
  outside := repopulate_outside dated own table
  groups source isSource inside := by
    have ranged : source ∈ sources.filter fun source => inRange startDate endDate (query.log source).date :=
      List.mem_filter.mpr ⟨isSource, inside⟩
    have isRow : query.summed (query.key source) _ ∈ query.select _ := mem_select_iff.mpr ⟨source, ranged, rfl⟩
    refine ⟨_, ⟨(mem_repopulate dated own (select_inside isRow)).mpr isRow, (rowOf_summed fits apart ranged ranged _).mpr rfl⟩,
      ?_⟩
    rintro row ⟨member, rowOf⟩
    have rowInside : inRange startDate endDate row.date = true := rowOf.1 ▸ inside
    obtain ⟨other, isOther, rfl⟩ := mem_select_iff.mp ((mem_repopulate dated own rowInside).mp member)
    rw [(rowOf_summed fits apart isOther ranged _).mp rowOf]
  only row member inside := by
    obtain ⟨source, isSource, rfl⟩ := mem_select_iff.mp ((mem_repopulate dated own inside).mp member)
    exact ⟨source, (List.mem_filter.mp isSource).1, (rowOf_summed fits apart isSource isSource _).mpr rfl⟩
  sums row member inside := by
    obtain ⟨source, isSource, rfl⟩ := mem_select_iff.mp ((mem_repopulate dated own inside).mp member)
    -- the sources of the row lie in the range and have its key
    have group : (sources.filter fun other => RowOf query.log columns (query.summed (query.key source)
        ((sources.filter fun other => inRange startDate endDate (query.log other).date).filter
          fun other => query.key other = query.key source)) other) =
        (sources.filter fun other => inRange startDate endDate (query.log other).date).filter
          fun other => query.key other = query.key source := by
      rw [List.filter_filter]
      refine List.filter_congr fun other isOther => ?_
      rw [Bool.eq_iff_iff, Bool.and_eq_true, decide_eq_true_iff, decide_eq_true_iff]
      constructor
      · intro rowOf
        have otherInside : inRange startDate endDate (query.log other).date = true := rowOf.1 ▸ inside
        exact ⟨(rowOf_summed fits apart isSource (List.mem_filter.mpr ⟨isOther, otherInside⟩) _).mp rowOf, otherInside⟩
      · rintro ⟨same, otherInside⟩
        exact (rowOf_summed fits apart isSource (List.mem_filter.mpr ⟨isOther, otherInside⟩) _).mpr same
    rw [group]
    exact ⟨rfl, rfl, rfl, rfl⟩
  inserted := by
    refine (KeyedTable.insert_all_iff own).mpr fun row member => ?_
    refine KeyedTable.not_has_filter fun other _ same => ?_
    rw [dated other row same, select_inside member, Bool.not_true]

omit [DecidableEq γ] in
/-- A second rebuilding deletes and inserts the same rows. -/
theorem repopulate_repopulate (dated : ∀ row other, key row = key other → row.date = other.date)
    (own : ((query.select (sources.filter fun source => inRange startDate endDate (query.log source).date)).map
      key).Nodup) (table : KeyedTable key) :
    query.repopulate startDate endDate 1 sources (query.repopulate startDate endDate 1 sources table) =
      query.repopulate startDate endDate 1 sources table := by
  have rows : (query.repopulate startDate endDate 1 sources (query.repopulate startDate endDate 1 sources table)).rows =
      (query.repopulate startDate endDate 1 sources table).rows := by
    rw [repopulate_rows dated own, repopulate_outside dated own, ← repopulate_rows dated own]
  exact KeyedTable.ext rows

end

/-! ### The columns of the tables -/

def campaignColumns (dl : LogRow) : Option CampaignGroup := dl.san.map CampaignGroup.mk

def mediaColumns (dl : LogRow) : Option MediaColumns := some ⟨dl.adid, dl.mediatext, dl.san⟩

def siteSizeSegmentColumns (pair : LogRow × MediaRow) : Option SiteSizeSegmentColumns :=
  pair.2.size.map fun size => ⟨pair.1.siteid, pair.1.segmentid, size⟩

def siteSizeColumns (pair : LogRow × MediaRow) : Option SiteSizeColumns :=
  pair.2.size.map fun size => ⟨pair.1.siteid, size⟩

def siteSegmentColumns (dl : LogRow) : Option SiteSegmentGroup := some ⟨dl.siteid, dl.segmentid⟩

def segmentColumns (dl : LogRow) : Option SegmentGroup := some ⟨dl.segmentid⟩

def cpsColumns (pair : LogRow × MediaRow) : Option CpsColumns := do
  return ⟨← pair.1.san, ← pair.2.size, ← pair.2.adgroup⟩

def cpsSegmentColumns (pair : LogRow × MediaRow) : Option CpsSegmentColumns :=
  (cpsColumns pair).map fun cps => ⟨cps.san, cps.size, cps.adgroup, pair.1.segmentid⟩

def cpsSiteSegmentColumns (pair : LogRow × MediaRow) : Option CpsSiteSegmentColumns :=
  (cpsColumns pair).map fun cps => ⟨cps.san, cps.size, cps.adgroup, pair.1.siteid, pair.1.segmentid⟩

/-! ### Logs and ads that the keys allow -/

/-- An ad is logged under one account name, which is not NULL, and one text. -/
structure OneName (logs : LogTable) : Prop where
  sans : ∀ row ∈ logs.rows, row.san ≠ none
  same : ∀ row ∈ logs.rows, ∀ other ∈ logs.rows, row.adid = other.adid →
    row.san = other.san ∧ row.mediatext = other.mediatext

/-- Sizes and ad groups are not NULL and sizes not longer than their columns. -/
structure Sized (media : MediaTable) : Prop where
  sizes : ∀ m ∈ media.rows, ∃ size, m.size = some size ∧ size.length ≤ 10
  adgroups : ∀ m ∈ media.rows, m.adgroup ≠ none

/-- The columns that are grouped by can be read back from those that are stored. -/
theorem apart_of_fits {σ κ γ : Type} {query : HourQuery σ κ γ} {columns : σ → Option γ} {sources : List σ}
    (fits : Fits query columns sources) (back : γ → κ)
    (reads : ∀ source group, columns source = some group → query.columns source = back group) : query.Apart sources := by
  intro first isFirst second isSecond same
  rw [reads first _ (fits first isFirst), reads second _ (fits second isSecond), same]

section
variable {logs : LogTable} {media : MediaTable}

theorem san_stored (oneName : OneName logs) {dl : LogRow} (member : dl ∈ logs.rows) :
    dl.san = some (storedSan (nullFirst dl.san)) := by
  obtain ⟨san, isSan⟩ := Option.ne_none_iff_exists'.mp (oneName.sans dl member)
  rw [isSan]
  rfl

theorem size_stored (sized : Sized media) {m : MediaRow} (member : m ∈ media.rows) :
    m.size = some (storedSize (nullFirst m.size)) := by
  obtain ⟨size, isSize, short⟩ := sized.sizes m member
  rw [isSize]
  exact congrArg some (List.take_of_length_le short).symm

theorem adgroup_stored (sized : Sized media) {m : MediaRow} (member : m ∈ media.rows) :
    m.adgroup = some (storedAdgroup (nullFirst m.adgroup)) := by
  obtain ⟨adgroup, isAdgroup⟩ := Option.ne_none_iff_exists'.mp (sized.adgroups m member)
  rw [isAdgroup]
  rfl

theorem cps_stored (oneName : OneName logs) (sized : Sized media) {pair : LogRow × MediaRow}
    (member : pair ∈ withMedia logs media) : cpsColumns pair = some (cpsStored (cpsKey pair)) := by
  obtain ⟨isLog, isMedia⟩ := mem_withMedia member
  rw [cpsColumns, san_stored oneName isLog, size_stored sized isMedia, adgroup_stored sized isMedia]
  rfl

def cpsBack (cps : CpsColumns) : WithBot Str ×ₗ WithBot Str ×ₗ WithBot Int :=
  toLex (nullFirst (some cps.san), toLex (nullFirst (some cps.size), nullFirst (some cps.adgroup)))

theorem cpsKey_back {pair : LogRow × MediaRow} {cps : CpsColumns} (isCps : cpsColumns pair = some cps) :
    cpsKey pair = cpsBack cps := by
  simp only [cpsColumns, Option.bind_eq_bind, Option.bind_eq_some_iff, Option.pure_def, Option.some.injEq] at isCps
  obtain ⟨san, isSan, size, isSize, adgroup, isAdgroup, rfl⟩ := isCps
  rw [cpsKey, cpsBack, isSan, isSize, isAdgroup]

variable {startDate endDate : Date}

/-- A table whose key are the date, the hour and its columns is rebuilt. -/
theorem rebuilds_hour {σ κ γ : Type} [LinearOrder κ] [DecidableEq γ] {query : HourQuery σ κ γ} {columns : σ → Option γ}
    {sources : List σ} (fits : Fits query columns sources) (back : γ → κ)
    (reads : ∀ source group, columns source = some group → query.columns source = back group) :
    Rebuilds hourKey query columns startDate endDate sources := by
  intro table
  have ranged : Fits query columns (sources.filter fun source => inRange startDate endDate (query.log source).date) :=
    fun source member => fits source (List.mem_of_mem_filter member)
  have dated : ∀ row other : HourRow γ, hourKey row = hourKey other → row.date = other.date :=
    fun row other same => congrArg Prod.fst same
  have apart := apart_of_fits ranged back reads
  have keys := select_keys_nodup apart
  exact ⟨rebuilt_repopulate dated ranged apart keys table, repopulate_repopulate dated keys table⟩

theorem nullable_nullFirst {α : Type} (value : Option α) : nullable (nullFirst value) = value := by
  cases value <;> rfl

theorem mediaHour_fits (sources : List LogRow) : Fits mediaHour mediaColumns sources := by
  intro dl _
  simp only [mediaColumns, mediaHour, ofLex_toLex, nullable_nullFirst]

theorem mediaHour_apart (sources : List LogRow) : mediaHour.Apart sources := by
  refine apart_of_fits (mediaHour_fits sources)
    (fun group => toLex (group.adid, toLex (nullFirst group.mediatext, nullFirst group.san))) fun dl group isGroup => ?_
  obtain rfl := Option.some.inj isGroup
  rfl

/-- Two groups of `MediaHour` that share date, hour and ad are one: the ad has one
    name and one text. -/
theorem mediaHour_keys (oneName : OneName logs) (keep : LogRow → Bool) :
    ((mediaHour.select (logs.rows.filter keep)).map mediaKey).Nodup := by
  refine List.Nodup.map_on (fun row member other otherMember same => ?_)
    (select_keys_nodup (mediaHour_apart _)).of_map
  obtain ⟨dl, isLog, rfl⟩ := mem_select_iff.mp member
  obtain ⟨dl', isLog', rfl⟩ := mem_select_iff.mp otherMember
  simp only [mediaKey, HourQuery.summed, HourQuery.key, mediaHour, id, ofLex_toLex, Prod.mk.injEq] at same
  obtain ⟨date, hour, adid⟩ := same
  obtain ⟨san, mediatext⟩ := oneName.same dl (List.mem_of_mem_filter isLog) dl' (List.mem_of_mem_filter isLog') adid
  have keys : mediaHour.key dl = mediaHour.key dl' := by
    simp only [HourQuery.key, mediaHour, id, date, hour, adid, san, mediatext]
  rw [keys]

/-! ### The nine tables -/

theorem campaignHour_rebuilds (oneName : OneName logs) :
    Rebuilds hourKey campaignHour campaignColumns startDate endDate logs.rows := by
  refine rebuilds_hour (fun dl member => ?_) (fun group => nullFirst (some group.san)) fun dl group isGroup => ?_
  · rw [campaignColumns, san_stored oneName member]
    rfl
  · obtain ⟨san, isSan, rfl⟩ := Option.map_eq_some_iff.mp isGroup
    exact congrArg nullFirst isSan

theorem mediaHour_rebuilds (oneName : OneName logs) :
    Rebuilds mediaKey mediaHour mediaColumns startDate endDate logs.rows := by
  intro table
  have dated : ∀ row other : HourRow MediaColumns, mediaKey row = mediaKey other → row.date = other.date :=
    fun row other same => congrArg Prod.fst same
  have keys := mediaHour_keys oneName fun dl => inRange startDate endDate dl.date
  exact ⟨rebuilt_repopulate dated (mediaHour_fits _) (mediaHour_apart _) keys table,
    repopulate_repopulate dated keys table⟩

theorem siteSizeSegmentHour_rebuilds (sized : Sized media) :
    Rebuilds hourKey siteSizeSegmentHour siteSizeSegmentColumns startDate endDate (withMedia logs media) := by
  refine rebuilds_hour (fun pair member => ?_)
    (fun group => toLex (group.siteid, toLex (group.segmentid, nullFirst (some group.size)))) fun pair group isGroup => ?_
  · rw [siteSizeSegmentColumns, size_stored sized (mem_withMedia member).2]
    rfl
  · obtain ⟨size, isSize, rfl⟩ := Option.map_eq_some_iff.mp isGroup
    simp only [siteSizeSegmentHour, isSize]

theorem siteSizeHour_rebuilds (sized : Sized media) :
    Rebuilds hourKey siteSizeHour siteSizeColumns startDate endDate (withMedia logs media) := by
  refine rebuilds_hour (fun pair member => ?_) (fun group => toLex (group.siteid, nullFirst (some group.size)))
    fun pair group isGroup => ?_
  · rw [siteSizeColumns, size_stored sized (mem_withMedia member).2]
    rfl
  · obtain ⟨size, isSize, rfl⟩ := Option.map_eq_some_iff.mp isGroup
    simp only [siteSizeHour, isSize]

theorem siteSegmentHour_rebuilds : Rebuilds hourKey siteSegmentHour siteSegmentColumns startDate endDate logs.rows := by
  refine rebuilds_hour (fun dl _ => rfl) (fun group => toLex (group.siteid, group.segmentid)) fun dl group isGroup => ?_
  obtain rfl := Option.some.inj isGroup
  rfl

theorem segmentHour_rebuilds : Rebuilds hourKey segmentHour segmentColumns startDate endDate logs.rows := by
  refine rebuilds_hour (fun dl _ => rfl) SegmentGroup.segmentid fun dl group isGroup => ?_
  obtain rfl := Option.some.inj isGroup
  rfl

theorem cpsHour_rebuilds (oneName : OneName logs) (sized : Sized media) :
    Rebuilds hourKey cpsHour cpsColumns startDate endDate (withMedia logs media) :=
  rebuilds_hour (fun _ member => cps_stored oneName sized member) cpsBack fun _ _ => cpsKey_back

theorem cpsSegmentHour_rebuilds (oneName : OneName logs) (sized : Sized media) :
    Rebuilds hourKey cpsSegmentHour cpsSegmentColumns startDate endDate (withMedia logs media) := by
  refine rebuilds_hour (fun pair member => ?_)
    (fun group => toLex (cpsBack ⟨group.san, group.size, group.adgroup⟩, group.segmentid)) fun pair group isGroup => ?_
  · rw [cpsSegmentColumns, cps_stored oneName sized member]
    rfl
  · obtain ⟨cps, isCps, rfl⟩ := Option.map_eq_some_iff.mp isGroup
    simp only [cpsSegmentHour, cpsKey_back isCps]

theorem cpsSiteSegmentHour_rebuilds (oneName : OneName logs) (sized : Sized media) :
    Rebuilds hourKey cpsSiteSegmentHour cpsSiteSegmentColumns startDate endDate (withMedia logs media) := by
  refine rebuilds_hour (fun pair member => ?_)
    (fun group => toLex (cpsBack ⟨group.san, group.size, group.adgroup⟩, toLex (group.siteid, group.segmentid)))
    fun pair group isGroup => ?_
  · rw [cpsSiteSegmentColumns, cps_stored oneName sized member]
    rfl
  · obtain ⟨cps, isCps, rfl⟩ := Option.map_eq_some_iff.mp isGroup
    simp only [cpsSiteSegmentHour, cpsKey_back isCps]

end

/-- Every table is rebuilt, and a second call changes nothing. -/
theorem byHour_exact (logs : LogTable) (media : MediaTable) (tables : HourTables) (startDate endDate : Date)
    (oneName : OneName logs) (sized : Sized media) :
    let after := byHour logs media startDate endDate 1 tables
    let pairs := withMedia logs media
    Rebuilt campaignHour campaignColumns startDate endDate logs.rows tables.campaignHour after.campaignHour ∧
      Rebuilt mediaHour mediaColumns startDate endDate logs.rows tables.mediaHour after.mediaHour ∧
      Rebuilt siteSizeSegmentHour siteSizeSegmentColumns startDate endDate pairs tables.siteSizeSegmentHour
        after.siteSizeSegmentHour ∧
      Rebuilt siteSizeHour siteSizeColumns startDate endDate pairs tables.siteSizeHour after.siteSizeHour ∧
      Rebuilt siteSegmentHour siteSegmentColumns startDate endDate logs.rows tables.siteSegmentHour
        after.siteSegmentHour ∧
      Rebuilt segmentHour segmentColumns startDate endDate logs.rows tables.segmentHour after.segmentHour ∧
      Rebuilt cpsHour cpsColumns startDate endDate pairs tables.cpsHour after.cpsHour ∧
      Rebuilt cpsSegmentHour cpsSegmentColumns startDate endDate pairs tables.cpsSegmentHour after.cpsSegmentHour ∧
      Rebuilt cpsSiteSegmentHour cpsSiteSegmentColumns startDate endDate pairs tables.cpsSiteSegmentHour
        after.cpsSiteSegmentHour ∧
      byHour logs media startDate endDate 1 after = after := by
  intro after pairs
  obtain ⟨campaign, campaignAgain⟩ := campaignHour_rebuilds oneName tables.campaignHour
  obtain ⟨media', mediaAgain⟩ := mediaHour_rebuilds oneName tables.mediaHour
  obtain ⟨siteSizeSegment, siteSizeSegmentAgain⟩ := siteSizeSegmentHour_rebuilds sized tables.siteSizeSegmentHour
  obtain ⟨siteSize, siteSizeAgain⟩ := siteSizeHour_rebuilds sized tables.siteSizeHour
  obtain ⟨siteSegment, siteSegmentAgain⟩ := siteSegmentHour_rebuilds tables.siteSegmentHour
  obtain ⟨segment, segmentAgain⟩ := segmentHour_rebuilds tables.segmentHour
  obtain ⟨cps, cpsAgain⟩ := cpsHour_rebuilds oneName sized tables.cpsHour
  obtain ⟨cpsSegment, cpsSegmentAgain⟩ := cpsSegmentHour_rebuilds oneName sized tables.cpsSegmentHour
  obtain ⟨cpsSiteSegment, cpsSiteSegmentAgain⟩ := cpsSiteSegmentHour_rebuilds oneName sized tables.cpsSiteSegmentHour
  refine ⟨campaign, media', siteSizeSegment, siteSize, siteSegment, segment, cps, cpsSegment, cpsSiteSegment, ?_⟩
  exact HourTables.mk.injEq .. ▸ ⟨campaignAgain, mediaAgain, siteSizeSegmentAgain, siteSizeAgain, siteSegmentAgain,
    segmentAgain, cpsAgain, cpsSegmentAgain, cpsSiteSegmentAgain⟩

theorem byHour_exact_both_known :
    ∃! row, row ∈ (byHour twoAds bothKnown 15000 15000 1 noTables).siteSegmentHour.rows ∧
      RowOf id siteSegmentColumns row (logged (some "auo".toList) 11 5 100) := by
  have oneName : OneName twoAds := ⟨by decide, by decide⟩
  have sized : Sized bothKnown := ⟨by decide, by decide⟩
  obtain ⟨-, -, -, -, siteSegment, -⟩ := byHour_exact twoAds bothKnown noTables 15000 15000 oneName sized
  exact siteSegment.groups _ List.mem_cons_self (by decide)

end Cdo.ExactRollups
