import Cdo.Tables

/-!
The history that the conversion rate estimator works from (`qHatAggregations.pm`
and the lookups of `CDO_Q_Calc.pm`). The functions `cps`, `site`, `segment` and
`size` sum the roll-up tables by keys that SQL joins from their grouping
columns, `cell` loads the counters of the cells themselves, and
`getOptimizationData` files the results under the names by which `Qhat` looks
them up. `qhatLevel` and `qhatCell` are what `Qhat` then reads for a cell.
-/
namespace Cdo.QHatAggregations
open Cdo.Text Cdo.Query Cdo.Tables

/-! ### Queries -/

/-- What the query of an aggregate level gives for a group: impressions, clicks,
    actions and cells. -/
structure LevelRow where
  n : Option Int
  k : Option Int
  a : Option Int
  cells : Option Int
deriving DecidableEq

abbrev LevelHash := SortedMap Str LevelRow

def levelRow {ρ γ : Type} (rollup : ρ → Rollup γ) (rows : List ρ) : LevelRow where
  n := sumColumn (fun row => (rollup row).impressions) rows
  k := sumColumn (fun row => (rollup row).clicks) rows
  a := sumColumn (fun row => (rollup row).actions) rows
  cells := sumColumn (fun row => (rollup row).num_cells) rows

/-- `SELECT key, sum(impressions), sum(clicks), sum(actions), sum(num_cells) ...
    GROUP BY key`, fetched under the keys. -/
def levelQuery {ρ γ : Type} (rollup : ρ → Rollup γ) (key : ρ → Str) (rows : List ρ) : LevelHash :=
  groupMap key (levelRow rollup) rows

def siteSegmentKey (g : SiteSegmentGroup) : Str := joined '_' [intText g.siteid, intText g.segmentid]
def siteSizeKey (g : SiteSizeGroup) : Str := joined '_' [intText g.siteid, g.size.text]
def siteSizeSegmentKey (g : SiteSizeSegmentGroup) : Str :=
  joined '_' [intText g.siteid, g.size.text, intText g.segmentid]
def cpsKey (g : CpsGroup) : Str := joined '_' [g.san, g.size.text, intText g.adgroup]
def cpsSegmentKey (g : CpsSegmentGroup) : Str :=
  joined '_' [g.san, g.size.text, intText g.adgroup, intText g.segmentid]
def cpsSiteSegmentKey (g : CpsSiteSegmentGroup) : Str :=
  joined '_' [g.san, g.size.text, intText g.adgroup, intText g.siteid, intText g.segmentid]

/-- The rows of a CPS table for an hour of a day of the week, joined with the
    optimised campaigns of their account name. -/
def cpsRows {γ : Type} (net : Network) (san : γ → Str) (dow hour : Nat) (rows : List (Rollup γ)) :
    List (Rollup γ × Campaign) :=
  join (fun row c => san row.group == c.san && c.optimised) (atHour dow hour rows) net.campaign

/-- The CPS levels, in the order in which the source returns them: `cps`,
    `cpsSegment`, `cpsSiteSegment`. -/
def cps (net : Network) (r : Rollups) (dow hour : Nat) : LevelHash × LevelHash × LevelHash :=
  let cpsSiteSegment := levelQuery Prod.fst (fun pair => cpsSiteSegmentKey pair.1.group)
    (cpsRows net CpsSiteSegmentGroup.san dow hour r.cpsSiteSegmentHour)
  let cpsSegment := levelQuery Prod.fst (fun pair => cpsSegmentKey pair.1.group)
    (cpsRows net CpsSegmentGroup.san dow hour r.cpsSegmentHour)
  let cps := levelQuery Prod.fst (fun pair => cpsKey pair.1.group)
    (cpsRows net CpsGroup.san dow hour r.cpsHour)
  (cps, cpsSegment, cpsSiteSegment)

/-- The site levels, in the order in which the source returns them: `siteSize`,
    `siteSegment`, `siteSizeSegment`. -/
def site (r : Rollups) (dow hour : Nat) : LevelHash × LevelHash × LevelHash :=
  let siteSizeSegment := levelQuery id (fun row => siteSizeSegmentKey row.group) (atHour dow hour r.siteSizeSegmentHour)
  let siteSegment := levelQuery id (fun row => siteSegmentKey row.group) (atHour dow hour r.siteSegmentHour)
  let siteSize := levelQuery id (fun row => siteSizeKey row.group) (atHour dow hour r.siteSizeHour)
  (siteSize, siteSegment, siteSizeSegment)

def segment (r : Rollups) (dow hour : Nat) : LevelHash :=
  levelQuery id (fun row => intText row.group.segmentid) (atHour dow hour r.segmentHour)

def size (net : Network) (r : Rollups) (dow hour : Nat) : LevelHash :=
  levelQuery Prod.fst (fun pair => pair.2.size.text)
    (join (fun row (m : Media) => row.group.adid == m.adid) (atHour dow hour r.mediaHour) net.media)

/-! ### Cells -/

structure Kna where
  n : Option Int
  k : Option Int
  a : Option Int
deriving DecidableEq

abbrev KnaHash := SortedMap Str Kna

abbrev LoggedRow := (DowHourRow × Media) × Campaign

def loggedKey (row : LoggedRow) : Str :=
  joined '_' [row.1.1.san, intText row.1.1.adid, intText row.1.1.siteid, intText row.1.1.segmentid, row.1.2.size.text]

/-- The logged rows of active ads of optimised campaigns in a mode. -/
def loggedRows (net : Network) (logs : List DowHourRow) (timestatus : Int) : List LoggedRow :=
  join (fun pair (c : Campaign) => pair.2.san == c.san && c.optimised && c.timestatus == some timestatus)
    (join (fun log (m : Media) => log.adid == m.adid && m.active == some 1) logs net.media)
    net.campaign

def knaOf (row : LoggedRow) : Kna := ⟨row.1.1.impressions, row.1.1.clicks, row.1.1.actions⟩

def knaSum (rows : List LoggedRow) : Kna where
  n := sumColumn (fun row => row.1.1.impressions) rows
  k := sumColumn (fun row => row.1.1.clicks) rows
  a := sumColumn (fun row => row.1.1.actions) rows

/-- The loops over the rows of the hourly and the life of campaign queries: each
    group is written into a hash under its key. -/
def writeGroups (hash : KnaHash) (rows : List LoggedRow) : KnaHash :=
  (groupRows loggedKey rows).foldl (fun h group => h.insert group.1 (knaSum group.2)) hash

/-- The counters of the cells, and what the package variable `cellKNA` holds
    afterwards. The day and hour query is fetched into the variable `cellKna`,
    which is returned; the other two queries are written into `cellKNA`. -/
def cell (net : Network) (logs : List DowHourRow) (dow hour : Nat) (cellKNA : KnaHash) : KnaHash × KnaHash :=
  let cellKna := SortedMap.ofRows loggedKey knaOf
    ((loggedRows net logs 3).filter fun row => row.1.1.dow == dow && row.1.1.hour == hour)
  let cellKNA := writeGroups cellKNA ((loggedRows net logs 2).filter fun row => row.1.1.hour == hour)
  let cellKNA := writeGroups cellKNA (loggedRows net logs 1)
  (cellKna, cellKNA)

/-! ### Lookups -/

structure OptData where
  cellKNA : KnaHash
  cpsSiteSegment : LevelHash
  cpsSegment : LevelHash
  cps : LevelHash
  siteSizeSegment : LevelHash
  siteSegment : LevelHash
  siteSize : LevelHash
  segment : LevelHash
  size : LevelHash

def getOptimizationData (net : Network) (r : Rollups) (logs : List DowHourRow) (dow hour : Nat) : OptData :=
  let (cellKNA, _) := cell net logs dow hour SortedMap.empty
  let (cpsSiteSegment, cpsSegment, cps) := cps net r dow hour
  let (siteSizeSegment, siteSegment, siteSize) := site r dow hour
  let segment := segment r dow hour
  let size := size net r dow hour
  { cellKNA, cpsSiteSegment, cpsSegment, cps, siteSizeSegment, siteSegment, siteSize, segment, size }

/-- The value if it is positive, otherwise the substitute. -/
def noNull (input : Option Int) (output : Int) : Int := if 0 < num input then num input else output

inductive Level where
  | size | segment | siteSegment | siteSize | siteSizeSegment | cps | cpsSegment | cpsSiteSegment
deriving DecidableEq

structure Evidence where
  n : Int
  a : Int
  cells : Int
deriving DecidableEq

def Evidence.zero : Evidence := ⟨0, 0, 0⟩

def sssInd (c : Cell) : Str := joined '_' [intText c.siteid, c.size.text, intText c.segmentid]
def ssInd (c : Cell) : Str := joined '_' [intText c.siteid, intText c.segmentid]
def szInd (c : Cell) : Str := joined '_' [intText c.siteid, c.size.text]
def sInd (c : Cell) : Str := intText c.segmentid
def cpsssInd (c : Cell) : Str :=
  joined '_' [c.san, c.size.text, intText c.adgroup, intText c.siteid, intText c.segmentid]
def cpssInd (c : Cell) : Str := joined '_' [c.san, c.size.text, intText c.adgroup, intText c.siteid]
def cpsInd (c : Cell) : Str := joined '_' [c.san, c.size.text, intText c.adgroup]
def zInd (c : Cell) : Str := c.size.text
def lpInd (c : Cell) : Str :=
  joined '_' [c.san, intText c.adid, intText c.siteid, intText c.segmentid, c.size.text]

/-- The lookups of one level: each of the three numbers, or 0. -/
def readLevel (hash : LevelHash) (ind : Str) : Evidence where
  n := noNull ((hash.get? ind).bind LevelRow.n) 0
  a := noNull ((hash.get? ind).bind LevelRow.a) 0
  cells := noNull ((hash.get? ind).bind LevelRow.cells) 0

/-- What `Qhat` reads for a cell at each aggregate level. -/
def qhatLevel (optData : OptData) (c : Cell) : Level → Evidence
  | .size => readLevel optData.size (zInd c)
  | .segment => readLevel optData.segment (sInd c)
  | .siteSegment => readLevel optData.siteSegment (ssInd c)
  | .siteSize => readLevel optData.siteSize (szInd c)
  | .siteSizeSegment => readLevel optData.siteSizeSegment (sssInd c)
  | .cps => readLevel optData.cps (cpsInd c)
  | .cpsSegment => readLevel optData.cpsSegment (cpssInd c)
  | .cpsSiteSegment => readLevel optData.cpsSiteSegment (cpsssInd c)

def qhatCell (optData : OptData) (c : Cell) : Int × Int :=
  (noNull ((optData.cellKNA.get? (lpInd c)).bind Kna.n) 0, noNull ((optData.cellKNA.get? (lpInd c)).bind Kna.a) 0)

end Cdo.QHatAggregations
