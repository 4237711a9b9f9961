import Cdo.BidCalc
import Cdo.Constraint
import Cdo.PriceVolumeLoad

/-!
The cells that are estimated (`GetCellData` of `CDO.pm`, `available` and
`availableAvg` of `qHatAggregations.pm`). The estimator is asked only for cells
with available impressions, those of their campaign or the average of their
placement. The two tables of available impressions are rebuilt with the prices,
and where each cell has one volume in these, every cell with a price has
available impressions. The program of an hour is then the one it would be if
every cell was estimated (`lp_of_available`).
-/
namespace Cdo.Availability
open Cdo.Text Cdo.Query Cdo.Tables Cdo.Params Cdo.Signals Cdo.LinearProgram Cdo.Objective Cdo.Constraint Cdo.BidCalc
  Cdo.PriceVolumeLoad

/-! ### Available impressions -/

def availableId (row : EVolumeRow) : Str :=
  joined '_' [row.san, intText row.siteid, intText row.segmentid, row.size]

def availableAvgId (row : EVolumeAvgRow) : Str := joined '_' [intText row.siteid, intText row.segmentid, row.size]

def available (rows : List EVolumeRow) : SortedMap Str EVolumeRow := SortedMap.ofRows availableId id rows

def availableAvg (rows : List EVolumeAvgRow) : SortedMap Str EVolumeAvgRow := SortedMap.ofRows availableAvgId id rows

structure Available where
  availImpressions : SortedMap Str EVolumeRow
  availImpressionsAvg : SortedMap Str EVolumeAvgRow

/-- The keys of a cell, with its segment id as it is stored. -/
def availInd (c : Cell) : Str := joined '_' [c.san, intText c.siteid, intText c.segmentid, c.size.text]

def availAvgInd (c : Cell) : Str := joined '_' [intText c.siteid, intText c.segmentid, c.size.text]

/-- Whether the text of an average holds in a condition. It does if the average
    is not 0; a 0 with decimals does, too. -/
structure AvgText where
  holds : ℚ → Bool
  nonzero : ∀ average, average ≠ 0 → holds average = true

/-- The condition under which a cell is estimated. -/
def isAvailable (avgText : AvgText) (optData : Available) (c : Cell) : Bool :=
  ((optData.availImpressions.get? (availInd c)).bind EVolumeRow.capped_volume).any (· != 0) ||
    ((optData.availImpressionsAvg.get? (availAvgInd c)).bind EVolumeAvgRow.capped_volume).any avgText.holds

/-- The estimate of a cell, where there is one. -/
def estimated (avgText : AvgText) (optData : Available) (qhat : Cell → Option ℚ) (c : Cell) : Option ℚ :=
  if isAvailable avgText optData c then qhat c else none

/-! ### Cells that are passed over -/

section
variable {avgText : AvgText} {d : RunData} {hour : Nat} {net : Network} {optData : Available} {qhat : Cell → Option ℚ}

/-- A cell without a price is entered in the same way whatever its estimate is. -/
theorem addCell_estimated {c : Cell} (priced : 0 < (costIn d c).espend → isAvailable avgText optData c = true)
    (h : LpHashes) (key : Str) :
    addCell d hour h (key, { c with q := estimated avgText optData qhat c }) =
      addCell d hour h (key, { c with q := qhat c }) := by
  by_cases spends : 0 < (costIn d c).espend
  · rw [estimated, if_pos (priced spends)]
  · have cost : ∀ q, costIn d { c with q := q } = costIn d c := fun _ => rfl
    simp only [addCell, cost, if_neg spends]
    rfl

/-- If every cell with a price is estimated, the others make no difference. -/
theorem lpObj_estimated (priced : ∀ c ∈ cellRows net, 0 < (costIn d c).espend → isAvailable avgText optData c = true) :
    lpObj d hour (getCellData net (estimated avgText optData qhat)) = lpObj d hour (getCellData net qhat) := by
  have entries : ∀ value : Cell → Option ℚ, (getCellData net value).entries =
      (SortedMap.ofRows (fun c => intText c.cellid) id (cellRows net)).entries.map
        fun entry => (entry.1, { entry.2 with q := value entry.2 }) :=
    fun value => SortedMap.entries_ofRows _ _ _
  have selected : ∀ entry ∈ (SortedMap.ofRows (fun c => intText c.cellid) id (cellRows net)).entries,
      entry.2 ∈ cellRows net := by
    rintro ⟨key, c⟩ member
    obtain ⟨row, isRow, -, rfl⟩ := SortedMap.get?_ofRows_some (SortedMap.mem_entries.mp member)
    exact isRow
  rw [lpObj, lpObj, entries, entries]
  generalize (SortedMap.ofRows (fun c => intText c.cellid) id (cellRows net)).entries = listed at selected ⊢
  generalize (⟨SortedMap.empty, SortedMap.empty, SortedMap.empty, []⟩ : LpHashes) = h
  induction listed generalizing h with
  | nil => rfl
  | cons entry rest ih =>
    rw [List.map_cons, List.map_cons, List.foldlM_cons, List.foldlM_cons,
      addCell_estimated (priced entry.2 (selected entry List.mem_cons_self))]
    exact bind_congr fun next => ih (fun other member => selected other (List.mem_cons_of_mem _ member)) next

end

/-! ### After a refresh -/

/-- The columns that name a cell of the campaign, or a placement. -/
def eVolumeCell (row : EVolumeRow) : Str × Int × Int × Str := (row.san, row.siteid, row.segmentid, row.size)

def eVolumePlacement (row : EVolumeAvgRow) : Int × Int × Str := (row.siteid, row.segmentid, row.size)

/-- The tables of available impressions have one row for a cell, or for a
    placement. -/
structure KeyedByCell (schema : Schema) : Prop where
  eVolume : ∀ row other, schema.eVolumeKey row = schema.eVolumeKey other → eVolumeCell row = eVolumeCell other
  eVolumeAvg : ∀ row other, schema.eVolumeAvgKey row = schema.eVolumeAvgKey other →
    eVolumePlacement row = eVolumePlacement other

/-- The prices of a cell, and the average prices of a placement, are all for the
    same volumes. -/
structure OneVolume {schema : Schema} (db : Database schema) : Prop where
  test : ∀ row ∈ testRows db, ∀ other ∈ testRows db,
    eVolumeCell (eVolumeOf row) = eVolumeCell (eVolumeOf other) → eVolumeOf row = eVolumeOf other
  avg : ∀ row ∈ db.priceVolumeAvg.rows, ∀ other ∈ db.priceVolumeAvg.rows,
    eVolumePlacement (eVolumeAvgOf row) = eVolumePlacement (eVolumeAvgOf other) → eVolumeAvgOf row = eVolumeAvgOf other

def storedTest (row : TestRow) : PvRow :=
  ⟨row.san, row.siteid, row.segmentid, row.size.text, row.price.bid, row.price.allocation, row.price.volume,
    row.price.capped_volume⟩

def storedAvg (row : AvgRow) : PvAvgRow :=
  ⟨row.siteid, row.segmentid, row.size.text, row.price.bid.map Int.cast, row.price.allocation,
    row.price.volume.map Int.cast, row.price.capped_volume.map Int.cast⟩

/-- The prices are those of the tables. -/
structure ReadFrom {schema : Schema} (pv : PriceVolume) (db : Database schema) : Prop where
  test : testRows db = pv.test.map storedTest
  avg : db.priceVolumeAvg.rows = pv.avg.map storedAvg

/-- What `GetCellData` loads from the tables. -/
def loaded {schema : Schema} (db : Database schema) : Available :=
  ⟨available db.eVolumeTest.rows, availableAvg db.eVolumeAvg.rows⟩

section
variable {schema : Schema} {reader : Reader} {campaigns : List PvCampaign} {files : Files} {db : Database schema}

/-- Rows that share a key only if they are equal are all inserted. -/
theorem mem_insert_dedup {ρ κ : Type} [DecidableEq ρ] [DecidableEq κ] {key : ρ → κ} {rows : List ρ}
    (own : ∀ row ∈ rows, ∀ other ∈ rows, key row = key other → row = other) {row : ρ} :
    row ∈ ((KeyedTable.empty : KeyedTable key).insert rows.dedup).1.rows ↔ row ∈ rows := by
  have keys : (rows.dedup.map key).Nodup := by
    refine List.Nodup.map_on (fun row member other otherMember same => ?_) (List.nodup_dedup rows)
    exact own row (List.mem_dedup.mp member) other (List.mem_dedup.mp otherMember) same
  rw [KeyedTable.insert_rows_of_fresh keys fun row _ => by simp [KeyedTable.Has, KeyedTable.empty]]
  simp [KeyedTable.empty]

theorem mem_eVolumeTest (keyed : KeyedByCell schema) (one : OneVolume (aolPriceVolume reader campaigns files db))
    {row : EVolumeRow} : row ∈ (aolPriceVolume reader campaigns files db).eVolumeTest.rows ↔
      ∃ price ∈ testRows (aolPriceVolume reader campaigns files db), eVolumeOf price = row := by
  have own : ∀ row ∈ (testRows (aolPriceVolume reader campaigns files db)).map eVolumeOf,
      ∀ other ∈ (testRows (aolPriceVolume reader campaigns files db)).map eVolumeOf,
        schema.eVolumeKey row = schema.eVolumeKey other → row = other := by
    intro row member other otherMember same
    obtain ⟨price, isPrice, rfl⟩ := List.mem_map.mp member
    obtain ⟨price', isPrice', rfl⟩ := List.mem_map.mp otherMember
    exact one.test price isPrice price' isPrice' (keyed.eVolume _ _ same)
  exact (mem_insert_dedup own).trans List.mem_map

theorem mem_eVolumeAvg (keyed : KeyedByCell schema) (one : OneVolume (aolPriceVolume reader campaigns files db))
    {row : EVolumeAvgRow} : row ∈ (aolPriceVolume reader campaigns files db).eVolumeAvg.rows ↔
      ∃ price ∈ (aolPriceVolume reader campaigns files db).priceVolumeAvg.rows, eVolumeAvgOf price = row := by
  have own : ∀ row ∈ (aolPriceVolume reader campaigns files db).priceVolumeAvg.rows.map eVolumeAvgOf,
      ∀ other ∈ (aolPriceVolume reader campaigns files db).priceVolumeAvg.rows.map eVolumeAvgOf,
        schema.eVolumeAvgKey row = schema.eVolumeAvgKey other → row = other := by
    intro row member other otherMember same
    obtain ⟨price, isPrice, rfl⟩ := List.mem_map.mp member
    obtain ⟨price', isPrice', rfl⟩ := List.mem_map.mp otherMember
    exact one.avg price isPrice price' isPrice' (keyed.eVolumeAvg _ _ same)
  exact (mem_insert_dedup own).trans List.mem_map

variable {pv : PriceVolume}

/-- A stored price is found under the key of its cell. -/
theorem available_stored (keyed : KeyedByCell schema) (one : OneVolume (aolPriceVolume reader campaigns files db))
    (reads : ReadFrom pv (aolPriceVolume reader campaigns files db)) {row : TestRow} (member : row ∈ pv.test) :
    (loaded (aolPriceVolume reader campaigns files db)).availImpressions.get?
      (availableId (eVolumeOf (storedTest row))) = some (eVolumeOf (storedTest row)) := by
  have inTest : ∀ row ∈ pv.test, storedTest row ∈ testRows (aolPriceVolume reader campaigns files db) := by
    intro row member
    rw [reads.test]
    exact List.mem_map_of_mem member
  apply SortedMap.get?_ofRows_eq ((mem_eVolumeTest keyed one).mpr ⟨_, inTest row member, rfl⟩)
  intro other isOther same
  obtain ⟨price, isPrice, rfl⟩ := (mem_eVolumeTest keyed one).mp isOther
  rw [reads.test] at isPrice
  obtain ⟨row', member', rfl⟩ := List.mem_map.mp isPrice
  unfold availableId at same
  obtain ⟨san, fields⟩ := joined_tail_injective (by simp) (by simp [eVolumeOf, storedTest, row'.size.plain])
    (by simp [eVolumeOf, storedTest, row.size.plain]) same
  simp only [List.cons.injEq, and_true] at fields
  refine one.test _ (inTest row' member') _ (inTest row member) ?_
  simp only [eVolumeCell, san, intText_injective fields.1, intText_injective fields.2.1, fields.2.2]

theorem availableAvg_stored (keyed : KeyedByCell schema) (one : OneVolume (aolPriceVolume reader campaigns files db))
    (reads : ReadFrom pv (aolPriceVolume reader campaigns files db)) {row : AvgRow} (member : row ∈ pv.avg) :
    (loaded (aolPriceVolume reader campaigns files db)).availImpressionsAvg.get?
      (availableAvgId (eVolumeAvgOf (storedAvg row))) = some (eVolumeAvgOf (storedAvg row)) := by
  have inAvg : ∀ row ∈ pv.avg, storedAvg row ∈ (aolPriceVolume reader campaigns files db).priceVolumeAvg.rows := by
    intro row member
    rw [reads.avg]
    exact List.mem_map_of_mem member
  apply SortedMap.get?_ofRows_eq ((mem_eVolumeAvg keyed one).mpr ⟨_, inAvg row member, rfl⟩)
  intro other isOther same
  obtain ⟨price, isPrice, rfl⟩ := (mem_eVolumeAvg keyed one).mp isOther
  rw [reads.avg] at isPrice
  obtain ⟨row', member', rfl⟩ := List.mem_map.mp isPrice
  unfold availableAvgId at same
  obtain ⟨site, fields⟩ := joined_tail_injective (by simp) (by simp [eVolumeAvgOf, storedAvg, row'.size.plain])
    (by simp [eVolumeAvgOf, storedAvg, row.size.plain]) same
  simp only [List.cons.injEq, and_true] at fields
  refine one.avg _ (inAvg row' member') _ (inAvg row member) ?_
  simp only [eVolumePlacement, intText_injective site, intText_injective fields.1, fields.2]

/-- A price that costs something is for some impressions. -/
theorem capped_volume_of_spend {price : Price} (spends : 0 < (costOf price).espend) :
    ∃ volume, price.capped_volume = some volume ∧ volume ≠ 0 := by
  cases isVolume : price.capped_volume with
  | none => simp [costOf, isVolume] at spends
  | some volume =>
    refine ⟨volume, rfl, ?_⟩
    rintro rfl
    simp [costOf, isVolume] at spends

theorem segment_stored {c : Cell} {segmentid : Int} (same : intText segmentid = segText c.segmentid) :
    segmentid = c.segmentid := by
  rcases lt_or_ge c.segmentid 0 with negative | nonneg
  · exact absurd same.symm (segText_negative negative _)
  · rw [segText_nonneg nonneg] at same
    exact intText_injective same

/-- Every cell with a price has available impressions. -/
theorem isAvailable_of_spend (avgText : AvgText) (keyed : KeyedByCell schema)
    (one : OneVolume (aolPriceVolume reader campaigns files db))
    (reads : ReadFrom pv (aolPriceVolume reader campaigns files db)) {d : RunData} {c : Cell}
    (spends : 0 < (costIn (withPrices d pv) c).espend) :
    isAvailable avgText (loaded (aolPriceVolume reader campaigns files db)) c = true := by
  have plain : '_' ∉ maxAlpha (lpVarMain c) c.san d.cellMaxAlpha d.campaignMaxAlpha := underscore_maxAlpha _ _ _ _
  simp only [costIn, withPrices, cellCost] at spends
  generalize maxAlpha (lpVarMain c) c.san d.cellMaxAlpha d.campaignMaxAlpha = alpha at spends plain
  rw [isAvailable, Bool.or_eq_true]
  cases found : (getCostData pv).1.get? (pvIndex c alpha) with
  | some price =>
    rw [found] at spends
    obtain ⟨row, member, same, rfl⟩ := SortedMap.get?_ofRows_some found
    obtain ⟨san, site, segment, size, -⟩ := (testKey_eq_iff plain).mp same
    obtain ⟨volume, isVolume, nonzero⟩ := capped_volume_of_spend spends
    have key : availInd c = availableId (eVolumeOf (storedTest row)) := by
      simp only [availInd, availableId, eVolumeOf, storedTest, san, site, segment_stored segment, size]
    left
    rw [key, available_stored keyed one reads (List.mem_of_mem_filter member)]
    simp [eVolumeOf, storedTest, isVolume, nonzero]
  | none =>
    rw [found] at spends
    cases average : (getCostData pv).2.get? (pvAvgIndex c alpha) with
    | none => simp [average] at spends
    | some price =>
      rw [average] at spends
      obtain ⟨row, member, same, rfl⟩ := SortedMap.get?_ofRows_some average
      obtain ⟨site, segment, size, -⟩ := (avgKey_eq_iff plain).mp same
      obtain ⟨volume, isVolume, nonzero⟩ := capped_volume_of_spend spends
      have key : availAvgInd c = availableAvgId (eVolumeAvgOf (storedAvg row)) := by
        simp only [availAvgInd, availableAvgId, eVolumeAvgOf, storedAvg, site, segment_stored segment, size]
      right
      rw [key, availableAvg_stored keyed one reads (List.mem_of_mem_filter member)]
      simp [eVolumeAvgOf, storedAvg, isVolume, avgText.nonzero, nonzero]

/-- After a refresh with one volume for each cell, the objective, the bounds and
    the budgets of an hour are those of a run that estimates every cell. -/
theorem lp_of_available (avgText : AvgText) (keyed : KeyedByCell schema)
    (one : OneVolume (aolPriceVolume reader campaigns files db))
    (reads : ReadFrom pv (aolPriceVolume reader campaigns files db)) (d : RunData) (hour : Nat) (net : Network)
    (qhat : Cell → Option ℚ) (config : SortedMap Str (Option Int)) (b : SortedMap Str BudgetSignal)
    (n : SortedMap Nat BudgetSignal) (order : config.Listing) :
    lpRows (withPrices d pv) hour
        (getCellData net (estimated avgText (loaded (aolPriceVolume reader campaigns files db)) qhat)) config b n order =
      lpRows (withPrices d pv) hour (getCellData net qhat) config b n order := by
  rw [lpRows, lpRows, lpObj_estimated fun c _ => isAvailable_of_spend avgText keyed one reads]

def cellSchema : Schema where
  κ := Str × Int × Int × Str
  ν := PvAvgRow
  μ := Int × Int × Str
  decκ := inferInstance
  decν := inferInstance
  decμ := inferInstance
  eVolumeKey := eVolumeCell
  pvAvgKey := id
  eVolumeAvgKey := eVolumePlacement
  rounded := id

def noPrices : Database cellSchema := ⟨none, none, .empty, .empty, .empty⟩

def oneRefresh : Database cellSchema :=
  aolPriceVolume sampleReader oneCampaign (filesOf (some onePrice) none none) noPrices

/-- The price of the sample file, of its campaign and on the average. -/
def onePriceRead : PriceVolume :=
  ⟨[⟨"auo".toList, 20, 5, size300x250, ⟨some 125, 5, some 1000, some 900⟩⟩],
    [⟨20, 5, size300x250, ⟨some 125, 5, some 1000, some 900⟩⟩], by decide, by decide⟩

/-- The cell may take the allocation of the price. -/
def cheapRun : RunData :=
  { pricedRun 1 with campaignMaxAlpha := SortedMap.ofRows (fun _ => "auo".toList) (fun _ => some 5) [()] }

def textOfDecimals : AvgText := ⟨fun _ => true, fun _ _ => rfl⟩

/-- The sample cell is entered, and so it is after the refresh. -/
theorem lp_of_available_one_cell :
    (lpRows (withPrices cheapRun onePriceRead) 3 (getCellData (onSegment 5) fun _ => some (1 / 100)) SortedMap.empty
        SortedMap.empty SortedMap.empty (.sorted _)).map (fun emitted => emitted.1.obj.keys) =
        some ["20_5_300x250".toList] ∧
      lpRows (withPrices cheapRun onePriceRead) 3
          (getCellData (onSegment 5) (estimated textOfDecimals (loaded oneRefresh) fun _ => some (1 / 100)))
          SortedMap.empty SortedMap.empty SortedMap.empty (.sorted _) =
        lpRows (withPrices cheapRun onePriceRead) 3 (getCellData (onSegment 5) fun _ => some (1 / 100)) SortedMap.empty
          SortedMap.empty SortedMap.empty (.sorted _) := by
  have keyed : KeyedByCell cellSchema := ⟨fun _ _ same => same, fun _ _ same => same⟩
  have reads : ReadFrom onePriceRead oneRefresh := ⟨by decide +kernel, by decide +kernel⟩
  have one : OneVolume oneRefresh := by
    constructor
    · intro row member other otherMember _
      rw [reads.test] at member otherMember
      rw [List.mem_singleton.mp member, List.mem_singleton.mp otherMember]
    · intro row member other otherMember _
      rw [reads.avg] at member otherMember
      rw [List.mem_singleton.mp member, List.mem_singleton.mp otherMember]
  exact ⟨by decide +kernel, lp_of_available textOfDecimals keyed one reads cheapRun 3 _ _ _ _ _ _⟩

end

end Cdo.Availability
