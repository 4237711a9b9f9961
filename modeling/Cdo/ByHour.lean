import Cdo.Logs
import Cdo.Signals

/-!
The hourly roll-ups (`byHour` of `dataAggregation.pm`). Each of nine tables is
filled by a query of its own, with the log rows of a range of dates or with
these rows and their ads: the rows are grouped by date, hour and the columns of
the table, and the groups are inserted in their order, up to one whose key is
taken. Texts are stored in narrower columns than they come from, and a column
that cannot be NULL stores NULL as its default. Where columns that differ are
stored apart, a table holds afterwards what it held outside the range and every
group of the range (`repopulate_rows`), so that its sums are sums over the log
rows (`total_repopulate`).
-/
namespace Cdo.ByHour
open Cdo.Text Cdo.Query Cdo.Tables Cdo.Signals Cdo.Logs

/-! ### Queries -/

structure HourRow (γ : Type) extends Rollup γ where
  conversions : Option Int
  spend : Option Int
deriving DecidableEq

/-- A query over the log rows, alone or with their ads: the columns it groups by
    and how these are stored. -/
structure HourQuery (σ κ γ : Type) where
  log : σ → LogRow
  columns : σ → κ
  stored : κ → γ

section
variable {σ κ γ π : Type} [LinearOrder κ]

def HourQuery.key (query : HourQuery σ κ γ) (source : σ) : Date ×ₗ Nat ×ₗ κ :=
  toLex ((query.log source).date, toLex ((query.log source).hour, query.columns source))

/-- The row of a group. -/
def HourQuery.summed (query : HourQuery σ κ γ) (key : Date ×ₗ Nat ×ₗ κ) (sources : List σ) : HourRow γ where
  date := (ofLex key).1
  hour := (ofLex (ofLex key).2).1
  group := query.stored (ofLex (ofLex key).2).2
  impressions := sumColumn (fun source => (query.log source).impressions) sources
  clicks := sumColumn (fun source => (query.log source).clicks) sources
  actions := sumColumn (fun source => (query.log source).actions) sources
  num_cells := some sources.length
  conversions := sumColumn (fun source => (query.log source).conversions) sources
  spend := sumColumn (fun source => (query.log source).spend) sources

/-- The rows of all groups, sorted by date, hour and columns. -/
def HourQuery.select (query : HourQuery σ κ γ) (sources : List σ) : List (HourRow γ) :=
  (groupMap query.key id sources).entries.map fun group => query.summed group.1 group.2

/-- `BETWEEN` two dates. -/
def inRange (startDate endDate date : Date) : Bool := startDate ≤ date && date ≤ endDate

/-- A table after the rows of the range are deleted, if they are, and the groups
    of the range inserted. -/
def HourQuery.repopulate [DecidableEq π] {key : HourRow γ → π} (query : HourQuery σ κ γ) (startDate endDate : Date)
    (re_populate : Int) (sources : List σ) (table : KeyedTable key) : KeyedTable key :=
  let kept := if re_populate = 1 then table.filter fun row => !inRange startDate endDate row.date else table
  (kept.insert (query.select (sources.filter fun source => inRange startDate endDate (query.log source).date))).1

end

/-! ### Columns -/

structure MediaColumns where
  adid : Int
  mediatext : Option Str
  san : Option Str
deriving DecidableEq

structure SiteSizeColumns where
  siteid : Int
  size : Str
deriving DecidableEq

structure SiteSizeSegmentColumns where
  siteid : Int
  segmentid : Int
  size : Str
deriving DecidableEq

structure CpsColumns where
  san : Str
  size : Str
  adgroup : Int
deriving DecidableEq

structure CpsSegmentColumns where
  san : Str
  size : Str
  adgroup : Int
  segmentid : Int
deriving DecidableEq

structure CpsSiteSegmentColumns where
  san : Str
  size : Str
  adgroup : Int
  siteid : Int
  segmentid : Int
deriving DecidableEq

/-- A `varchar(10)` that cannot be NULL, from one of 20 characters that can. -/
def storedSize (size : WithBot Str) : Str := (size.unbotD []).take 10

/-- A `varchar(20)` that cannot be NULL, from one of 15 characters that can. -/
def storedSan (san : WithBot Str) : Str := san.unbotD []

def storedAdgroup (adgroup : WithBot Int) : Int := adgroup.unbotD 0

/-! ### The nine tables -/

def campaignHour : HourQuery LogRow (WithBot Str) CampaignGroup where
  log := id
  columns dl := nullFirst dl.san
  stored san := ⟨storedSan san⟩

def mediaHour : HourQuery LogRow (Int ×ₗ WithBot Str ×ₗ WithBot Str) MediaColumns where
  log := id
  columns dl := toLex (dl.adid, toLex (nullFirst dl.mediatext, nullFirst dl.san))
  stored columns := ⟨(ofLex columns).1, nullable (ofLex (ofLex columns).2).1, nullable (ofLex (ofLex columns).2).2⟩

def siteSizeSegmentHour : HourQuery (LogRow × MediaRow) (Int ×ₗ Int ×ₗ WithBot Str) SiteSizeSegmentColumns where
  log := Prod.fst
  columns pair := toLex (pair.1.siteid, toLex (pair.1.segmentid, nullFirst pair.2.size))
  stored columns := ⟨(ofLex columns).1, (ofLex (ofLex columns).2).1, storedSize (ofLex (ofLex columns).2).2⟩

def siteSizeHour : HourQuery (LogRow × MediaRow) (Int ×ₗ WithBot Str) SiteSizeColumns where
  log := Prod.fst
  columns pair := toLex (pair.1.siteid, nullFirst pair.2.size)
  stored columns := ⟨(ofLex columns).1, storedSize (ofLex columns).2⟩

def siteSegmentHour : HourQuery LogRow (Int ×ₗ Int) SiteSegmentGroup where
  log := id
  columns dl := toLex (dl.siteid, dl.segmentid)
  stored columns := ⟨(ofLex columns).1, (ofLex columns).2⟩

def segmentHour : HourQuery LogRow Int SegmentGroup where
  log := id
  columns dl := dl.segmentid
  stored segmentid := ⟨segmentid⟩

/-- The columns that the tables of campaigns, sizes and ad groups begin with. -/
def cpsKey (pair : LogRow × MediaRow) : WithBot Str ×ₗ WithBot Str ×ₗ WithBot Int :=
  toLex (nullFirst pair.1.san, toLex (nullFirst pair.2.size, nullFirst pair.2.adgroup))

def cpsStored (columns : WithBot Str ×ₗ WithBot Str ×ₗ WithBot Int) : CpsColumns :=
  ⟨storedSan (ofLex columns).1, storedSize (ofLex (ofLex columns).2).1, storedAdgroup (ofLex (ofLex columns).2).2⟩

def cpsHour : HourQuery (LogRow × MediaRow) (WithBot Str ×ₗ WithBot Str ×ₗ WithBot Int) CpsColumns where
  log := Prod.fst
  columns := cpsKey
  stored := cpsStored

def cpsSegmentHour :
    HourQuery (LogRow × MediaRow) ((WithBot Str ×ₗ WithBot Str ×ₗ WithBot Int) ×ₗ Int) CpsSegmentColumns where
  log := Prod.fst
  columns pair := toLex (cpsKey pair, pair.1.segmentid)
  stored columns :=
    let cps := cpsStored (ofLex columns).1
    ⟨cps.san, cps.size, cps.adgroup, (ofLex columns).2⟩

def cpsSiteSegmentHour :
    HourQuery (LogRow × MediaRow) ((WithBot Str ×ₗ WithBot Str ×ₗ WithBot Int) ×ₗ Int ×ₗ Int)
      CpsSiteSegmentColumns where
  log := Prod.fst
  columns pair := toLex (cpsKey pair, toLex (pair.1.siteid, pair.1.segmentid))
  stored columns :=
    let cps := cpsStored (ofLex columns).1
    ⟨cps.san, cps.size, cps.adgroup, (ofLex (ofLex columns).2).1, (ofLex (ofLex columns).2).2⟩

/-- The primary key of most tables: the date, the hour and the stored columns. -/
def hourKey {γ : Type} (row : HourRow γ) : Date × Nat × γ := (row.date, row.hour, row.group)

/-- The primary key of `MediaHour`. -/
def mediaKey (row : HourRow MediaColumns) : Date × Nat × Int := (row.date, row.hour, row.group.adid)

abbrev HourTable (γ : Type) := KeyedTable (hourKey : HourRow γ → Date × Nat × γ)

structure HourTables where
  campaignHour : HourTable CampaignGroup
  mediaHour : KeyedTable mediaKey
  siteSizeSegmentHour : HourTable SiteSizeSegmentColumns
  siteSizeHour : HourTable SiteSizeColumns
  siteSegmentHour : HourTable SiteSegmentGroup
  segmentHour : HourTable SegmentGroup
  cpsHour : HourTable CpsColumns
  cpsSegmentHour : HourTable CpsSegmentColumns
  cpsSiteSegmentHour : HourTable CpsSiteSegmentColumns

def byHour (logs : LogTable) (media : MediaTable) (startDate endDate : Date) (re_populate : Int) (tables : HourTables) :
    HourTables where
  campaignHour := campaignHour.repopulate startDate endDate re_populate logs.rows tables.campaignHour
  mediaHour := mediaHour.repopulate startDate endDate re_populate logs.rows tables.mediaHour
  siteSizeSegmentHour :=
    siteSizeSegmentHour.repopulate startDate endDate re_populate (withMedia logs media) tables.siteSizeSegmentHour
  siteSizeHour := siteSizeHour.repopulate startDate endDate re_populate (withMedia logs media) tables.siteSizeHour
  siteSegmentHour := siteSegmentHour.repopulate startDate endDate re_populate logs.rows tables.siteSegmentHour
  segmentHour := segmentHour.repopulate startDate endDate re_populate logs.rows tables.segmentHour
  cpsHour := cpsHour.repopulate startDate endDate re_populate (withMedia logs media) tables.cpsHour
  cpsSegmentHour := cpsSegmentHour.repopulate startDate endDate re_populate (withMedia logs media) tables.cpsSegmentHour
  cpsSiteSegmentHour :=
    cpsSiteSegmentHour.repopulate startDate endDate re_populate (withMedia logs media) tables.cpsSiteSegmentHour

/-! ### The rows of a table -/

/-- Columns of the sources that differ are stored apart. -/
def HourQuery.Apart {σ κ γ : Type} (query : HourQuery σ κ γ) (sources : List σ) : Prop :=
  ∀ first ∈ sources, ∀ second ∈ sources,
    query.stored (query.columns first) = query.stored (query.columns second) → query.columns first = query.columns second

section
variable {σ κ γ π : Type} [LinearOrder κ] {query : HourQuery σ κ γ} {sources : List σ}

theorem select_eq : query.select sources = (groupMap query.key id sources).keys.map fun key =>
    query.summed key (sources.filter fun source => query.key source = key) := by
  rw [HourQuery.select, entries_groupMap, List.map_map]
  rfl

/-- Every selected row is the row of the group of some source. -/
theorem mem_select {row : HourRow γ} (member : row ∈ query.select sources) :
    ∃ source ∈ sources, row.date = (query.log source).date ∧ row.hour = (query.log source).hour ∧
      row.group = query.stored (query.columns source) := by
  rw [select_eq] at member
  obtain ⟨key, isKey, rfl⟩ := List.mem_map.mp member
  obtain ⟨source, isSource, rfl⟩ := (keys_groupMap _ _ _).mp isKey
  exact ⟨source, isSource, rfl, rfl, rfl⟩

theorem select_keys_nodup (apart : query.Apart sources) : ((query.select sources).map hourKey).Nodup := by
  rw [select_eq, List.map_map]
  refine (SortedMap.nodup_keys _).map_on ?_
  intro first isFirst second isSecond same
  obtain ⟨source, isSource, rfl⟩ := (keys_groupMap _ _ _).mp isFirst
  obtain ⟨other, isOther, rfl⟩ := (keys_groupMap _ _ _).mp isSecond
  simp only [Function.comp_apply, hourKey, HourQuery.summed, HourQuery.key, ofLex_toLex, Prod.mk.injEq] at same
  obtain ⟨dates, hours, stored⟩ := same
  simp only [HourQuery.key, dates, hours, apart source isSource other isOther stored]

/-- A table whose key holds the date gets all groups of the range next to its
    rows outside of it, if the groups have keys of their own. -/
theorem repopulate_rows [DecidableEq π] {key : HourRow γ → π} {startDate endDate : Date} {table : KeyedTable key}
    (dated : ∀ row other, key row = key other → row.date = other.date)
    (own : ((query.select (sources.filter fun source => inRange startDate endDate (query.log source).date)).map
      key).Nodup) :
    (query.repopulate startDate endDate 1 sources table).rows =
      (table.rows.filter fun row => !inRange startDate endDate row.date) ++
        query.select (sources.filter fun source => inRange startDate endDate (query.log source).date) := by
  simp only [HourQuery.repopulate, if_pos]
  refine KeyedTable.insert_rows_of_fresh own fun row member => ?_
  obtain ⟨source, isSource, date, -⟩ := mem_select member
  have inside : inRange startDate endDate row.date = true := date ▸ (List.mem_filter.mp isSource).2
  -- the rows that are kept have dates outside of the range
  refine KeyedTable.not_has_filter fun other _ same => ?_
  rw [dated other row same, inside, Bool.not_true]

end

/-! ### Sums -/

/-- The counters of a row that levels are compared by. -/
inductive Counter where
  | impressions | clicks | actions | num_cells
deriving DecidableEq

def Counter.read {γ : Type} (counter : Counter) (row : HourRow γ) : Option Int :=
  match counter with
  | .impressions => row.impressions
  | .clicks => row.clicks
  | .actions => row.actions
  | .num_cells => row.num_cells

/-- What a log row counts for. -/
def Counter.ofLog (counter : Counter) (row : LogRow) : Int :=
  match counter with
  | .impressions => num row.impressions
  | .clicks => num row.clicks
  | .actions => num row.actions
  | .num_cells => 1

/-- The sum of a counter over the rows of an hour whose columns are of a kind. -/
def total {γ : Type} (counter : Counter) (date : Date) (hour : Nat) (kind : γ → Bool) (rows : List (HourRow γ)) : Int :=
  ((rows.filter fun row => row.date == date && row.hour == hour && kind row.group).map
    fun row => num (counter.read row)).sum

section
variable {σ κ γ π : Type} [LinearOrder κ] {query : HourQuery σ κ γ} {sources : List σ}

omit [LinearOrder κ] in
theorem read_summed (counter : Counter) (key : Date ×ₗ Nat ×ₗ κ) :
    num (counter.read (query.summed key sources)) = (sources.map fun source => counter.ofLog (query.log source)).sum := by
  cases counter with
  | impressions => exact num_sumColumn _ _
  | clicks => exact num_sumColumn _ _
  | actions => exact num_sumColumn _ _
  | num_cells => simp [Counter.read, Counter.ofLog, HourQuery.summed]

/-- A group is one of an hour whose columns are of a kind. -/
def HourQuery.ofKind (query : HourQuery σ κ γ) (date : Date) (hour : Nat) (kind : γ → Bool) (key : Date ×ₗ Nat ×ₗ κ) :
    Bool :=
  (ofLex key).1 == date && (ofLex (ofLex key).2).1 == hour && kind (query.stored (ofLex (ofLex key).2).2)

/-- Adding up the groups of a kind gives the sum over their sources. -/
theorem total_select (counter : Counter) (date : Date) (hour : Nat) (kind : γ → Bool) :
    total counter date hour kind (query.select sources) =
      ((sources.filter fun source => query.ofKind date hour kind (query.key source)).map
        fun source => counter.ofLog (query.log source)).sum := by
  have covered : ∀ source ∈ sources.filter fun source => query.ofKind date hour kind (query.key source),
      query.key source ∈ (groupMap query.key id sources).keys.filter (query.ofKind date hour kind) := by
    intro source member
    obtain ⟨isSource, kept⟩ := List.mem_filter.mp member
    exact List.mem_filter.mpr ⟨(keys_groupMap _ _ _).mpr ⟨source, isSource, rfl⟩, kept⟩
  have fibers := sum_fibers ((SortedMap.nodup_keys (groupMap query.key id sources)).filter _) query.key
    (fun source => counter.ofLog (query.log source)) covered
  rw [total, select_eq, List.filter_map, List.map_map, ← fibers]
  refine congrArg List.sum (List.map_congr_left fun key isKey => ?_)
  -- all sources of a group are of the kind if the group is
  have kept : query.ofKind date hour kind key = true := (List.mem_filter.mp isKey).2
  rw [Function.comp_apply, read_summed, List.filter_filter]
  refine sum_filter_congr fun source _ => ?_
  by_cases same : query.key source = key
  · simp [same, kept]
  · simp [same]

/-- The sums of a table over a date of the range are sums over the sources. -/
theorem total_repopulate {startDate endDate date : Date} {table : HourTable γ} [DecidableEq γ]
    (apart : query.Apart (sources.filter fun source => inRange startDate endDate (query.log source).date))
    (inside : inRange startDate endDate date = true) (counter : Counter) (hour : Nat) (kind : γ → Bool) :
    total counter date hour kind (query.repopulate startDate endDate 1 sources table).rows =
      ((sources.filter fun source => query.ofKind date hour kind (query.key source)).map
        fun source => counter.ofLog (query.log source)).sum := by
  have dated : ∀ row other : HourRow γ, hourKey row = hourKey other → row.date = other.date :=
    fun row other same => congrArg Prod.fst same
  rw [repopulate_rows dated (select_keys_nodup apart)]
  have outside : (table.rows.filter fun row => !inRange startDate endDate row.date).filter
      (fun row => row.date == date && row.hour == hour && kind row.group) = [] := by
    refine List.filter_eq_nil_iff.mpr fun row member ofKind => ?_
    have isDate : row.date = date := by simp_all
    have away := (List.mem_filter.mp member).2
    rw [isDate, inside] at away
    exact absurd away (by simp)
  rw [total, List.filter_append, outside, List.nil_append]
  refine (total_select counter date hour kind).trans ?_
  rw [List.filter_filter]
  refine sum_filter_congr fun source _ => ?_
  by_cases isDate : (query.log source).date = date
  · simp [isDate, inside]
  · simp [HourQuery.ofKind, HourQuery.key, isDate]

end

end Cdo.ByHour
