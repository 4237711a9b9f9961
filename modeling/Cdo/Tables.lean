import Cdo.Text
import Cdo.Query

/-!
The tables of the optimiser's database and the cell table that an hourly run
works on. A row keeps the columns that the modelled queries read; a nullable
integer column is an `Option Int`. `Network` holds the tables that describe the
campaigns, their ads and their cells, together with their primary keys, and
`getCellData` selects from them the active cells (`mem_cellRows`).
-/
namespace Cdo.Tables
open Cdo.Text Cdo.Query

/-! ### Sizes -/

/-- An ad size, such as `300x250`. Sizes are joined into keys by underscores and
    hold none themselves. -/
structure Size where
  text : Str
  plain : '_' ∉ text
deriving DecidableEq

theorem Size.ext_text {z w : Size} (same : z.text = w.text) : z = w := by
  cases z; cases w; cases same; rfl

/-- The size of the sample cells. -/
def size300x250 : Size := ⟨"300x250".toList, by decide⟩

/-- The size that an ad server's size code stands for (`mediaOps.pm`); an ad of
    any other code is not entered into `Media`. -/
def convertSizeCode (sizeIn : Str) : Option Size :=
  if sizeIn = "160600".toList then some ⟨"160x600".toList, by decide⟩
  else if sizeIn = "300250".toList then some ⟨"300x250".toList, by decide⟩
  else if sizeIn = "72890".toList then some ⟨"728x90".toList, by decide⟩
  else if sizeIn = "728090".toList then some ⟨"728x90".toList, by decide⟩
  else if sizeIn = "120600".toList then some ⟨"120x600".toList, by decide⟩
  else if sizeIn = "46860".toList then some ⟨"468x60".toList, by decide⟩
  else if sizeIn = "468060".toList then some ⟨"468x60".toList, by decide⟩
  else if sizeIn = "180150".toList then some ⟨"180x150".toList, by decide⟩
  else if sizeIn = "23460".toList then some ⟨"234x60".toList, by decide⟩
  else if sizeIn = "234060".toList then some ⟨"234x60".toList, by decide⟩
  else if sizeIn = "425600".toList then some ⟨"425x600".toList, by decide⟩
  else if sizeIn = "300600".toList then some ⟨"300x600".toList, by decide⟩
  else none

/-! ### Campaigns, ads and cells -/

/-- A row of `Campaign`: a campaign's system account name, its daily budget, and
    whether it is optimised (`usepoe`), served through the API (`isapi`) and how
    finely its history is read (`timestatus`). -/
structure Campaign where
  san : Str
  cid : Int
  totalbudget : Option Int
  usepoe : Option Int
  isapi : Option Int
  timestatus : Option Int
deriving DecidableEq

/-- A row of `Media`: an ad, its size, its campaign and its ad group. -/
structure Media where
  adid : Int
  size : Size
  san : Str
  active : Option Int
  adgroup : Int
deriving DecidableEq

/-- A row of `cdoCells`: an ad on a segment of a site. -/
structure CdoCell where
  cellid : Int
  adid : Int
  siteid : Int
  segmentid : Int
  active : Option Int
  new : Option Int
deriving DecidableEq

/-- The campaigns, their ads and their cells, with the primary keys of their tables. -/
structure Network where
  campaign : List Campaign
  media : List Media
  cdoCells : List CdoCell
  campaign_key : (campaign.map fun c => (c.san, c.cid)).Nodup
  media_key : (media.map Media.adid).Nodup
  cdoCells_key : (cdoCells.map CdoCell.cellid).Nodup

/-- An entry of the cell table: a cell with the columns of its ad, and its
    estimated conversion rate once there is one. -/
structure Cell where
  cellid : Int
  adid : Int
  siteid : Int
  segmentid : Int
  size : Size
  san : Str
  adgroup : Int
  q : Option ℚ
deriving DecidableEq

def Campaign.optimised (c : Campaign) : Bool := c.usepoe == some 1

def cellOf (pair : CdoCell × Media) : Cell where
  cellid := pair.1.cellid
  adid := pair.1.adid
  siteid := pair.1.siteid
  segmentid := pair.1.segmentid
  size := pair.2.size
  san := pair.2.san
  adgroup := pair.2.adgroup
  q := none

/-- The rows that the query of `GetCellData` selects: the active cells of active
    ads of optimised campaigns. -/
def cellRows (net : Network) : List Cell :=
  (join (fun pair (c : Campaign) => pair.2.san == c.san && c.optimised)
    (join (fun cdo (m : Media) => cdo.adid == m.adid && cdo.active == some 1 && m.active == some 1)
      net.cdoCells net.media)
    net.campaign).map fun row => cellOf row.1

/-- The cell table of a run: the selected cells under their ids, each with the
    estimate that `qhat` gives it. -/
def getCellData (net : Network) (qhat : Cell → Option ℚ) : SortedMap Str Cell :=
  SortedMap.ofRows (fun c => intText c.cellid) (fun c => { c with q := qhat c }) (cellRows net)

theorem mem_cellRows {net : Network} {cell : Cell} :
    cell ∈ cellRows net ↔ ∃ cdo ∈ net.cdoCells, ∃ m ∈ net.media, ∃ c ∈ net.campaign,
      cdo.adid = m.adid ∧ cdo.active = some 1 ∧ m.active = some 1 ∧ m.san = c.san ∧ c.usepoe = some 1 ∧
        cell = cellOf (cdo, m) := by
  simp only [cellRows, List.mem_map, mem_join, Campaign.optimised, Bool.and_eq_true, beq_iff_eq, Prod.exists]
  constructor
  · rintro ⟨cdo, m, c, ⟨⟨cdoMember, mMember, ⟨ad, cdoActive⟩, mActive⟩, cMember, san, used⟩, rfl⟩
    exact ⟨cdo, cdoMember, m, mMember, c, cMember, ad, cdoActive, mActive, san, used, rfl⟩
  · rintro ⟨cdo, cdoMember, m, mMember, c, cMember, ad, cdoActive, mActive, san, used, rfl⟩
    exact ⟨cdo, m, c, ⟨⟨cdoMember, mMember, ⟨ad, cdoActive⟩, mActive⟩, cMember, san, used⟩, rfl⟩

/-- Every cell of the table is a selected row, under its own id. -/
theorem getCellData_some {net : Network} {qhat : Cell → Option ℚ} {key : Str} {cell : Cell}
    (found : (getCellData net qhat).get? key = some cell) :
    ∃ row ∈ cellRows net, intText row.cellid = key ∧ cell = { row with q := qhat row } := by
  obtain ⟨row, member, same, rfl⟩ := SortedMap.get?_ofRows_some found
  exact ⟨row, member, same, rfl⟩

/-! ### Days and roll-up tables -/

/-- A calendar day, counted from 1 January 1970. -/
abbrev Date := Int

/-- The day of the week of a day, from 1 for Sunday to 7 for Saturday; day 0 was
    a Thursday. -/
def dayofweek (date : Date) : Nat := ((date + 4) % 7).toNat + 1

/-- A row of an hourly roll-up table: the counters of one group in one hour. The
    grouping columns differ from table to table. -/
structure Rollup (γ : Type) where
  date : Date
  hour : Nat
  group : γ
  impressions : Option Int
  clicks : Option Int
  actions : Option Int
  num_cells : Option Int
deriving DecidableEq

@[ext] structure MediaGroup where
  adid : Int
deriving DecidableEq

@[ext] structure SegmentGroup where
  segmentid : Int
deriving DecidableEq

@[ext] structure SiteSegmentGroup where
  siteid : Int
  segmentid : Int
deriving DecidableEq

@[ext] structure SiteSizeGroup where
  siteid : Int
  size : Size
deriving DecidableEq

@[ext] structure SiteSizeSegmentGroup where
  siteid : Int
  segmentid : Int
  size : Size
deriving DecidableEq

@[ext] structure CpsGroup where
  san : Str
  size : Size
  adgroup : Int
deriving DecidableEq

@[ext] structure CpsSegmentGroup where
  san : Str
  size : Size
  adgroup : Int
  segmentid : Int
deriving DecidableEq

@[ext] structure CpsSiteSegmentGroup where
  san : Str
  size : Size
  adgroup : Int
  siteid : Int
  segmentid : Int
deriving DecidableEq

structure Rollups where
  mediaHour : List (Rollup MediaGroup)
  segmentHour : List (Rollup SegmentGroup)
  siteSegmentHour : List (Rollup SiteSegmentGroup)
  siteSizeHour : List (Rollup SiteSizeGroup)
  siteSizeSegmentHour : List (Rollup SiteSizeSegmentGroup)
  cpsHour : List (Rollup CpsGroup)
  cpsSegmentHour : List (Rollup CpsSegmentGroup)
  cpsSiteSegmentHour : List (Rollup CpsSiteSegmentGroup)

def atHour {γ : Type} (dow hour : Nat) (rows : List (Rollup γ)) : List (Rollup γ) :=
  rows.filter fun row => dayofweek row.date == dow && row.hour == hour

/-- A row of `DisplayLogsByDOWHour`: the counters of a cell in an hour of a day
    of the week. -/
structure DowHourRow where
  dow : Nat
  hour : Nat
  san : Str
  adid : Int
  siteid : Int
  segmentid : Int
  impressions : Option Int
  clicks : Option Int
  actions : Option Int
deriving DecidableEq

end Cdo.Tables
