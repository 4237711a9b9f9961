import Cdo.Text
import Cdo.Query
import Cdo.KeyedTable

/-!
The weekly refresh of prices and volumes (`aolPriceVolume.pl`, `priceVolume` of
`dataImport.pm` and of `fileToDb.pm`, and the table updates of
`cdoPopulate.pm`). For each campaign the file of one of three dates is expanded
into rows of a temporary table, which then replaces `PriceVolumeTest`; three more
tables are rebuilt from it. The next date is tried only if there is no file for a
date, not if its file has no data, and the file of the last date is never loaded:
its lines are counted in an array of another name. The tables are replaced
whether or not there was any data (`refresh_iff`).
-/
namespace Cdo.PriceVolumeLoad
open Cdo.Text Cdo.Query

/-! ### Rows -/

/-- A row of `PriceVolumeTemp` and `PriceVolumeTest`; the bid and the allocation
    are in hundredths. -/
structure PvRow where
  san : Str
  siteid : Int
  segmentid : Int
  size : Str
  bid : Option Int
  allocation : Int
  volume : Option Int
  capped_volume : Option Int
deriving DecidableEq

def PvRow.key (row : PvRow) : Str × Int × Int × Str × Int :=
  (row.san, row.siteid, row.segmentid, row.size, row.allocation)

abbrev PvTable := KeyedTable PvRow.key

structure EVolumeRow where
  san : Str
  siteid : Int
  segmentid : Int
  size : Str
  volume : Option Int
  capped_volume : Option Int
deriving DecidableEq

structure PvAvgRow where
  siteid : Int
  segmentid : Int
  size : Str
  bid : Option ℚ
  allocation : Int
  volume : Option ℚ
  capped_volume : Option ℚ
deriving DecidableEq

structure EVolumeAvgRow where
  siteid : Int
  segmentid : Int
  size : Str
  volume : Option ℚ
  capped_volume : Option ℚ
deriving DecidableEq

/-! ### Expansion of a file -/

/-- A line that is written for the load: its fields. -/
structure PvTuple where
  san : Str
  siteid : Str
  segmentid : Str
  size : Str
  bid : Str
  allocation : Str
  volume : Str
  capped_volume : Str
deriving DecidableEq

/-- How a number in a text is printed by `%d`, and the row that the load makes of
    a line. -/
structure Reader where
  percentD : Str → Str
  load : PvTuple → PvRow

def alpha : List Str :=
  ["0", "0", "0", "0.05", "0.1", "0.15", "0.2", "0.25", "0.3", "0.35", "0.4", "0.45", "0.5", "0.55", "0.6", "0.65",
    "0.7", "0.75", "0.8", "0.85", "0.9", "0.95", "1"].map String.toList

/-- `split(/,/)`, which leaves out empty fields at the end. -/
def fields (line : Str) : List Str := (line.splitOn ',').rdropWhile (· == [])

/-- The lines that are written for a line of a file: one for each column between
    the first three and the last two. -/
def pvTuples (reader : Reader) (san line : Str) : List PvTuple :=
  let pv := fields line
  (List.range' 3 (pv.length - 5)).map fun i =>
    { san := san
      siteid := pv.getD 0 []
      segmentid := pv.getD 2 []
      size := pv.getD 1 []
      bid := pv.getD i []
      allocation := alpha.getD i []
      volume := reader.percentD (pv.getD (pv.length - 1) [])
      capped_volume := reader.percentD (pv.getD (pv.length - 2) []) }

/-- The rows that a file is expanded into; its first line is a header. -/
def expansion (reader : Reader) (san : Str) (lines : List Str) : List PvRow :=
  (lines.foldl (afterFirst (pvTuples reader san)) (0, [])).2.map reader.load

/-- The temporary table after a file is loaded; rows whose key is taken are
    passed over. -/
def loadFile (reader : Reader) (san : Str) (lines : List Str) (temp : PvTable) : PvTable :=
  if 1 < lines.length then temp.insertIgnore (expansion reader san lines) else temp

/-! ### The files of a campaign -/

inductive Candidate where
  | date | date_1 | date_2
deriving DecidableEq

structure PvCampaign where
  san : Str
  cid : Int
deriving DecidableEq

/-- The lines, with their ends, of the files that can be opened after their
    download. -/
abbrev Files := PvCampaign → Candidate → Option (List Str)

/-- The file that is loaded for a campaign, if one is. In the last branch the
    lines of another array are counted, which has none. -/
def chosenFile (files : Candidate → Option (List Str)) : Option (List Str) :=
  match files .date with
  | some lines => if 1 < lines.length then some lines else none
  | none =>
    match files .date_1 with
    | some lines => if 1 < lines.length then some lines else none
    | none =>
      match files .date_2 with
      | some lines =>
        let line : List Str := []
        if 1 < line.length then some lines else none
      | none => none

def priceVolume (reader : Reader) (files : Files) (temp : PvTable) (campaign : PvCampaign) : PvTable :=
  match chosenFile (files campaign) with
  | some lines => loadFile reader campaign.san lines temp
  | none => temp

/-! ### The tables -/

/-- The primary keys of the tables that are rebuilt, and how averages are rounded
    to their columns. -/
structure Schema where
  κ : Type
  ν : Type
  μ : Type
  decκ : DecidableEq κ
  decν : DecidableEq ν
  decμ : DecidableEq μ
  eVolumeKey : EVolumeRow → κ
  pvAvgKey : PvAvgRow → ν
  eVolumeAvgKey : EVolumeAvgRow → μ
  rounded : PvAvgRow → PvAvgRow

attribute [instance] Schema.decκ Schema.decν Schema.decμ

structure Database (schema : Schema) where
  priceVolumeTest : Option PvTable
  priceVolumeTemp : Option PvTable
  eVolumeTest : KeyedTable schema.eVolumeKey
  priceVolumeAvg : KeyedTable schema.pvAvgKey
  eVolumeAvg : KeyedTable schema.eVolumeAvgKey

section
variable {schema : Schema}

def createPriceVolumeTable (db : Database schema) : Database schema :=
  { db with priceVolumeTemp := some (db.priceVolumeTemp.getD .empty) }

/-- The table is dropped and the temporary one renamed, if there is one. -/
def updatePriceVolumeTables (pvRows : Int) (db : Database schema) : Database schema :=
  if 0 < pvRows then { db with priceVolumeTest := db.priceVolumeTemp, priceVolumeTemp := none } else db

def testRows (db : Database schema) : List PvRow := (db.priceVolumeTest.map KeyedTable.rows).getD []

def eVolumeOf (row : PvRow) : EVolumeRow :=
  ⟨row.san, row.siteid, row.segmentid, row.size, row.volume, row.capped_volume⟩

def populateEVolume (pvRows : Int) (db : Database schema) : Database schema :=
  if 0 < pvRows then
    { db with eVolumeTest := (KeyedTable.empty.insert ((testRows db).map eVolumeOf).dedup).1 }
  else db

/-- The average of a column over the rows that have a value in it. -/
def avg (column : PvRow → Option Int) (rows : List PvRow) : Option ℚ :=
  let values := rows.filterMap column
  if values = [] then none else some ((values.sum : ℚ) / values.length)

def pvAvgGroup (row : PvRow) : Int ×ₗ Int ×ₗ Str ×ₗ Int :=
  toLex (row.siteid, toLex (row.segmentid, toLex (row.size, row.allocation)))

def pvAvgOf (group : (Int ×ₗ Int ×ₗ Str ×ₗ Int) × List PvRow) : PvAvgRow where
  siteid := (ofLex group.1).1
  segmentid := (ofLex (ofLex group.1).2).1
  size := (ofLex (ofLex (ofLex group.1).2).2).1
  bid := avg PvRow.bid group.2
  allocation := (ofLex (ofLex (ofLex group.1).2).2).2
  volume := avg PvRow.volume group.2
  capped_volume := avg PvRow.capped_volume group.2

def eVolumeAvgOf (row : PvAvgRow) : EVolumeAvgRow :=
  ⟨row.siteid, row.segmentid, row.size, row.volume, row.capped_volume⟩

def populatePVAvg (pvRows : Int) (db : Database schema) : Database schema :=
  if 0 < pvRows then
    let groups := (groupMap pvAvgGroup id (testRows db)).entries
    let priceVolumeAvg := (KeyedTable.empty.insert (groups.map fun group => schema.rounded (pvAvgOf group))).1
    { db with
      priceVolumeAvg := priceVolumeAvg
      eVolumeAvg := (KeyedTable.empty.insert (priceVolumeAvg.rows.map eVolumeAvgOf).dedup).1 }
  else db

/-- A run of the script; it always says that there were rows. -/
def aolPriceVolume (reader : Reader) (campaigns : List PvCampaign) (files : Files) (db : Database schema) :
    Database schema :=
  let created := createPriceVolumeTable db
  let loaded := { created with
    priceVolumeTemp := created.priceVolumeTemp.map fun temp => campaigns.foldl (priceVolume reader files) temp }
  populatePVAvg 1 (populateEVolume 1 (updatePriceVolumeTables 1 loaded))

/-! ### What a refresh is for -/

/-- The file has a line after its header. -/
def HasData (file : Option (List Str)) : Prop := ∃ lines, file = some lines ∧ 1 < lines.length

/-- The file of the first date that has data. -/
def newestFile (files : Candidate → Option (List Str)) : Option (List Str) :=
  [Candidate.date, .date_1, .date_2].findSome? fun candidate => (files candidate).filter fun lines => 1 < lines.length

def rowsOf (reader : Reader) (campaign : PvCampaign) (file : Option (List Str)) : List PvRow :=
  (file.map (expansion reader campaign.san)).getD []

def newestRows (reader : Reader) (files : Files) (campaign : PvCampaign) : List PvRow :=
  rowsOf reader campaign (newestFile (files campaign))

/-- If a campaign has data, the table has the rows of the newest files, and if
    none has any, the four tables are as before. -/
structure Refreshed (reader : Reader) (campaigns : List PvCampaign) (files : Files) (before after : Database schema) :
    Prop where
  newest : (∃ campaign ∈ campaigns, newestFile (files campaign) ≠ none) → ∃ test, after.priceVolumeTest = some test ∧
    test.rows.Perm (KeyedTable.empty.insertIgnore (campaigns.flatMap (newestRows reader files)) : PvTable).rows
  kept : (∀ campaign ∈ campaigns, newestFile (files campaign) = none) →
    after.priceVolumeTest.map KeyedTable.rows = before.priceVolumeTest.map KeyedTable.rows ∧
      after.eVolumeTest.rows = before.eVolumeTest.rows ∧ after.priceVolumeAvg.rows = before.priceVolumeAvg.rows ∧
      after.eVolumeAvg.rows = before.eVolumeAvg.rows

/-- The newest file with data is the first one, or the second one and there is no
    first; or it has no rows. -/
def NewestInReach (reader : Reader) (files : Files) (campaign : PvCampaign) : Prop :=
  newestRows reader files campaign = [] ∨ HasData (files campaign .date) ∨
    (files campaign .date = none ∧ HasData (files campaign .date_1))

/-- The newest files of all campaigns are in reach, and if there are none, the
    tables were empty before. -/
structure InReach (reader : Reader) (campaigns : List PvCampaign) (files : Files) (before : Database schema) : Prop where
  newest : ∀ campaign ∈ campaigns, NewestInReach reader files campaign
  empty : (∀ campaign ∈ campaigns, newestFile (files campaign) = none) →
    before.priceVolumeTest.map KeyedTable.rows = some [] ∧ before.eVolumeTest.rows = [] ∧
      before.priceVolumeAvg.rows = [] ∧ before.eVolumeAvg.rows = []

def loadedRows (reader : Reader) (files : Files) (campaign : PvCampaign) : List PvRow :=
  rowsOf reader campaign (chosenFile (files campaign))

end

section
variable {reader : Reader} {files : Files} {campaign : PvCampaign}

theorem chosenFile_hasData {candidates : Candidate → Option (List Str)} {lines : List Str}
    (chosen : chosenFile candidates = some lines) : 1 < lines.length := by
  unfold chosenFile at chosen
  cases first : candidates .date with
  | some found =>
    simp only [first] at chosen
    split at chosen
    · next long => exact Option.some.inj chosen ▸ long
    · cases chosen
  | none =>
    cases second : candidates .date_1 with
    | some found =>
      simp only [first, second] at chosen
      split at chosen
      · next long => exact Option.some.inj chosen ▸ long
      · cases chosen
    | none => cases third : candidates .date_2 <;> simp [first, second, third] at chosen

/-- A campaign's file, if one is chosen, is loaded row by row. -/
theorem priceVolume_eq (temp : PvTable) :
    priceVolume reader files temp campaign = temp.insertIgnore (loadedRows reader files campaign) := by
  cases chosen : chosenFile (files campaign) with
  | none => simp [priceVolume, loadedRows, rowsOf, chosen, KeyedTable.insertIgnore]
  | some lines => simp [priceVolume, loadedRows, rowsOf, chosen, loadFile, chosenFile_hasData chosen]

theorem priceVolume_all (campaigns : List PvCampaign) (temp : PvTable) :
    campaigns.foldl (priceVolume reader files) temp =
      temp.insertIgnore (campaigns.flatMap (loadedRows reader files)) := by
  induction campaigns generalizing temp with
  | nil => rfl
  | cons first rest ih =>
    rw [List.foldl_cons, ih, priceVolume_eq, List.flatMap_cons, KeyedTable.insertIgnore_append]

theorem newest_of_hasData {candidates : Candidate → Option (List Str)}
    (data : HasData (candidates .date) ∨ (candidates .date = none ∧ HasData (candidates .date_1))) :
    chosenFile candidates = newestFile candidates := by
  rcases data with ⟨lines, found, long⟩ | ⟨absent, lines, found, long⟩
  · simp [chosenFile, newestFile, found, long, Option.filter]
  · simp [chosenFile, newestFile, absent, found, long, Option.filter]

theorem none_of_no_data {candidates : Candidate → Option (List Str)}
    (noData : ¬ (HasData (candidates .date) ∨ (candidates .date = none ∧ HasData (candidates .date_1)))) :
    chosenFile candidates = none := by
  rw [not_or, not_and] at noData
  cases first : candidates .date with
  | some lines =>
    have short : ¬ 1 < lines.length := fun long => noData.1 ⟨lines, first, long⟩
    simp [chosenFile, first, short]
  | none =>
    cases second : candidates .date_1 with
    | some lines =>
      have short : ¬ 1 < lines.length := fun long => noData.2 first ⟨lines, second, long⟩
      simp [chosenFile, first, second, short]
    | none => cases third : candidates .date_2 <;> simp [chosenFile, first, second, third]

/-- The rows of the newest file are loaded exactly if it is in reach; otherwise
    nothing is. -/
theorem inReach_iff : NewestInReach reader files campaign ↔
    loadedRows reader files campaign = newestRows reader files campaign := by
  by_cases data : HasData (files campaign .date) ∨ (files campaign .date = none ∧ HasData (files campaign .date_1))
  · have same : loadedRows reader files campaign = newestRows reader files campaign := by
      rw [loadedRows, newestRows, newest_of_hasData data]
    exact ⟨fun _ => same, fun _ => .inr data⟩
  · have nothing : loadedRows reader files campaign = [] := by
      rw [loadedRows, none_of_no_data data]
      rfl
    rw [nothing]
    exact ⟨fun inReach => (inReach.resolve_right data).symm, fun same => .inl same.symm⟩

theorem loadedRows_nil_of_not_inReach (out : ¬ NewestInReach reader files campaign) :
    loadedRows reader files campaign = [] := by
  have noData : ¬ (HasData (files campaign .date) ∨ (files campaign .date = none ∧ HasData (files campaign .date_1))) :=
    fun data => out (.inr data)
  rw [loadedRows, none_of_no_data noData]
  rfl

theorem newestRows_of_none (none : newestFile (files campaign) = none) : newestRows reader files campaign = [] := by
  rw [newestRows, none]
  rfl

/-- Every row of a campaign has its account name, if the load keeps it. -/
theorem san_of_rowsOf (keeps : ∀ values, (reader.load values).san = values.san) {file : Option (List Str)} {row : PvRow}
    (member : row ∈ rowsOf reader campaign file) : row.san = campaign.san := by
  cases file with
  | none => exact absurd member List.not_mem_nil
  | some lines =>
    have inExpansion : row ∈ expansion reader campaign.san lines := member
    rw [expansion, afterFirst_all] at inExpansion
    obtain ⟨values, isValues, rfl⟩ := List.mem_map.mp inExpansion
    obtain ⟨line, -, inLine⟩ := List.mem_flatMap.mp isValues
    obtain ⟨i, -, rfl⟩ := List.mem_map.mp inLine
    exact keeps _

end

/-! ### Runs -/

section
variable {schema : Schema} {reader : Reader} {campaigns : List PvCampaign} {files : Files} {db : Database schema}

/-- The table after a run has what was loaded. -/
theorem aolPriceVolume_test (noTemp : db.priceVolumeTemp = none) :
    (aolPriceVolume reader campaigns files db).priceVolumeTest =
      some (KeyedTable.empty.insertIgnore (campaigns.flatMap (loadedRows reader files))) := by
  simp [aolPriceVolume, populatePVAvg, populateEVolume, updatePriceVolumeTables, createPriceVolumeTable, noTemp,
    priceVolume_all]

/-- Without any rows all four tables are empty after a run. -/
theorem aolPriceVolume_empty (noTemp : db.priceVolumeTemp = none)
    (nothing : campaigns.flatMap (loadedRows reader files) = []) :
    (aolPriceVolume reader campaigns files db).priceVolumeTest.map KeyedTable.rows = some [] ∧
      (aolPriceVolume reader campaigns files db).eVolumeTest.rows = [] ∧
      (aolPriceVolume reader campaigns files db).priceVolumeAvg.rows = [] ∧
      (aolPriceVolume reader campaigns files db).eVolumeAvg.rows = [] := by
  have loaded : campaigns.foldl (priceVolume reader files) KeyedTable.empty = KeyedTable.empty := by
    rw [priceVolume_all, nothing]
    rfl
  refine ⟨?_, ?_, ?_, ?_⟩
  · rw [aolPriceVolume_test noTemp, nothing]
    rfl
  · simp only [aolPriceVolume, createPriceVolumeTable, noTemp, Option.getD_none, Option.map_some, loaded]
    rfl
  · simp only [aolPriceVolume, createPriceVolumeTable, noTemp, Option.getD_none, Option.map_some, loaded]
    rfl
  · simp only [aolPriceVolume, createPriceVolumeTable, noTemp, Option.getD_none, Option.map_some, loaded]
    rfl

theorem nothing_loaded (noData : ∀ campaign ∈ campaigns, newestFile (files campaign) = none) :
    campaigns.flatMap (loadedRows reader files) = [] := by
  refine List.flatMap_eq_nil_iff.mpr fun campaign member => ?_
  have none : newestRows reader files campaign = [] := newestRows_of_none (noData campaign member)
  rw [inReach_iff.mp (.inl none), none]

theorem refreshed_of_inReach (noTemp : db.priceVolumeTemp = none) (inReach : InReach reader campaigns files db) :
    Refreshed reader campaigns files db (aolPriceVolume reader campaigns files db) := by
  constructor
  · intro _
    refine ⟨_, aolPriceVolume_test noTemp, ?_⟩
    have same : campaigns.flatMap (loadedRows reader files) = campaigns.flatMap (newestRows reader files) :=
      List.flatMap_congr fun campaign member => inReach_iff.mp (inReach.newest campaign member)
    rw [same]
  · intro noData
    obtain ⟨test, eVolume, pvAvg, eVolumeAvg⟩ := aolPriceVolume_empty noTemp (nothing_loaded noData)
    obtain ⟨testWas, eVolumeWas, pvAvgWas, eVolumeAvgWas⟩ := inReach.empty noData
    rw [test, eVolume, pvAvg, eVolumeAvg, testWas, eVolumeWas, pvAvgWas, eVolumeAvgWas]
    exact ⟨rfl, rfl, rfl, rfl⟩

/-- A campaign with a name of its own whose newest file is out of reach is
    missing from the table. -/
theorem inReach_of_perm (keeps : ∀ values, (reader.load values).san = values.san)
    (own : (campaigns.map PvCampaign.san).Nodup)
    (same : (KeyedTable.empty.insertIgnore (campaigns.flatMap (loadedRows reader files)) : PvTable).rows.Perm
      (KeyedTable.empty.insertIgnore (campaigns.flatMap (newestRows reader files)) : PvTable).rows)
    {campaign : PvCampaign} (member : campaign ∈ campaigns) : NewestInReach reader files campaign := by
  by_contra out
  cases rows : newestRows reader files campaign with
  | nil => exact out (.inl rows)
  | cons row rest =>
    have isNewest : row ∈ newestRows reader files campaign := rows ▸ List.mem_cons_self
    have has : (KeyedTable.empty.insertIgnore (campaigns.flatMap (newestRows reader files)) : PvTable).Has row.key :=
      KeyedTable.has_insertIgnore.mpr (.inr ⟨row, List.mem_flatMap.mpr ⟨campaign, member, isNewest⟩, rfl⟩)
    obtain ⟨found, isFound, sameKey⟩ := KeyedTable.has_iff.mp has
    -- a loaded row of that name comes from the campaign, for which nothing is loaded
    have loaded := (KeyedTable.mem_insertIgnore (same.mem_iff.mpr isFound)).resolve_left List.not_mem_nil
    obtain ⟨other, otherMember, fromOther⟩ := List.mem_flatMap.mp loaded
    have names : other.san = campaign.san := by
      rw [← san_of_rowsOf keeps fromOther, ← san_of_rowsOf keeps isNewest]
      exact congrArg Prod.fst sameKey
    have isCampaign : other = campaign := List.inj_on_of_nodup_map own otherMember member names
    rw [isCampaign, loadedRows_nil_of_not_inReach out] at fromOther
    exact absurd fromOther List.not_mem_nil

/-- A run refreshes the tables if the newest files are in reach, and only if they
    are where no two campaigns have one account name. -/
theorem refresh_iff (noTemp : db.priceVolumeTemp = none) :
    (InReach reader campaigns files db →
      Refreshed reader campaigns files db (aolPriceVolume reader campaigns files db)) ∧
    ((∀ values, (reader.load values).san = values.san) → (campaigns.map PvCampaign.san).Nodup →
      (Refreshed reader campaigns files db (aolPriceVolume reader campaigns files db) ↔
        InReach reader campaigns files db)) := by
  refine ⟨refreshed_of_inReach noTemp, fun keeps own => ⟨fun refreshed => ?_, refreshed_of_inReach noTemp⟩⟩
  constructor
  · intro campaign member
    by_cases data : ∃ other ∈ campaigns, newestFile (files other) ≠ none
    · obtain ⟨test, isTest, same⟩ := refreshed.newest data
      rw [aolPriceVolume_test noTemp] at isTest
      rw [← Option.some.inj isTest] at same
      exact inReach_of_perm keeps own same member
    · refine .inl (newestRows_of_none ?_)
      by_contra some
      exact data ⟨campaign, member, some⟩
  · intro noData
    obtain ⟨test, eVolume, pvAvg, eVolumeAvg⟩ := aolPriceVolume_empty noTemp (nothing_loaded noData)
    obtain ⟨testKept, eVolumeKept, pvAvgKept, eVolumeAvgKept⟩ := refreshed.kept noData
    exact ⟨testKept.symm.trans test, eVolumeKept.symm.trans eVolume, pvAvgKept.symm.trans pvAvg,
      eVolumeAvgKept.symm.trans eVolumeAvg⟩

end

/-! ### One campaign -/

def oneCampaign : List PvCampaign := [⟨"auo".toList, 77⟩]

/-- A header and a line with one price. -/
def onePrice : List Str := ["site,size,segment,b1,cv,v\n".toList, "20,300x250,5,1.25,900,1000\n".toList]

def filesOf (date date_1 date_2 : Option (List Str)) : Files := fun _ candidate =>
  match candidate with
  | .date => date
  | .date_1 => date_1
  | .date_2 => date_2

/-- The texts of the sample line, as they are printed and loaded. -/
def sampleReader : Reader where
  percentD text := if text = "1000\n".toList then "1000".toList else text
  load values :=
    if values.bid = "1.25".toList ∧ values.allocation = "0.05".toList ∧ values.volume = "1000".toList then
      ⟨values.san, 20, 5, values.size, some 125, 5, some 1000, some 900⟩
    else ⟨values.san, 0, 0, [], none, 0, none, none⟩

theorem sampleReader_san (values : PvTuple) : (sampleReader.load values).san = values.san := by
  simp only [sampleReader]
  split <;> rfl

def plainSchema : Schema where
  κ := EVolumeRow
  ν := PvAvgRow
  μ := EVolumeAvgRow
  decκ := inferInstance
  decν := inferInstance
  decμ := inferInstance
  eVolumeKey := id
  pvAvgKey := id
  eVolumeAvgKey := id
  rounded := id

/-- A price of the week before. -/
def goodPrices : Database plainSchema :=
  ⟨some ⟨[⟨"auo".toList, 20, 5, "300x250".toList, some 110, 5, some 800, some 700⟩], List.nodup_singleton _⟩, none,
    .empty, .empty, .empty⟩

theorem refreshed_second_date :
    Refreshed sampleReader oneCampaign (filesOf none (some onePrice) none) goodPrices
      (aolPriceVolume sampleReader oneCampaign (filesOf none (some onePrice) none) goodPrices) := by
  have own : (oneCampaign.map PvCampaign.san).Nodup := List.nodup_singleton _
  refine ((refresh_iff rfl).2 sampleReader_san own).mpr ⟨fun campaign member => ?_, fun noData => ?_⟩
  · exact .inr (.inr ⟨rfl, onePrice, rfl, by decide⟩)
  · exact absurd (noData _ (List.mem_singleton.mpr rfl)) (by decide)

/-- A table without rows is not refreshed if the newest file has one. -/
theorem not_refreshed_of_empty {files : Files}
    (empty : (aolPriceVolume sampleReader oneCampaign files goodPrices).priceVolumeTest.map KeyedTable.rows = some [])
    (data : newestFile (files ⟨"auo".toList, 77⟩) = some onePrice) :
    ¬ Refreshed sampleReader oneCampaign files goodPrices
      (aolPriceVolume sampleReader oneCampaign files goodPrices) := by
  intro refreshed
  obtain ⟨test, isTest, same⟩ := refreshed.newest ⟨_, List.mem_singleton.mpr rfl, by rw [data]; simp⟩
  rw [isTest, Option.map_some, Option.some.injEq] at empty
  have rows : oneCampaign.flatMap (newestRows sampleReader files) = expansion sampleReader "auo".toList onePrice := by
    rw [oneCampaign, List.flatMap_singleton, newestRows, data]
    rfl
  rw [empty, rows] at same
  exact absurd same.length_eq (by decide +kernel)

/-- A price that only the third date has is not loaded, nor one behind a file
    without data; without data the old price is gone. -/
theorem good_prices_wiped :
    ¬ Refreshed sampleReader oneCampaign (filesOf none none (some onePrice)) goodPrices
        (aolPriceVolume sampleReader oneCampaign (filesOf none none (some onePrice)) goodPrices) ∧
      ¬ Refreshed sampleReader oneCampaign (filesOf (some [[]]) (some onePrice) none) goodPrices
        (aolPriceVolume sampleReader oneCampaign (filesOf (some [[]]) (some onePrice) none) goodPrices) ∧
      (aolPriceVolume sampleReader oneCampaign (filesOf none none none) goodPrices).priceVolumeTest.map
        KeyedTable.rows = some [] :=
  ⟨not_refreshed_of_empty (by decide +kernel) (by decide), not_refreshed_of_empty (by decide +kernel) (by decide),
    by decide +kernel⟩

end Cdo.PriceVolumeLoad
