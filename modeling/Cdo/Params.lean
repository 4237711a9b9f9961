import Cdo.Tables

/-!
Allocation caps and prices as an hourly run loads them (`Params`, `GetCostData`
and `MaxAlpha` of `CDO.pm`), and the price at which `LP_Obj` enters a cell. A
decimal column holds an integer number of hundredths and reaches the program as
a text with two decimals. The price of a cell is looked up by a text that ends
in the cell's allocation cap. A cap that comes from a table has the two decimals
of the price keys; the default of 0.2 has one, and a negative segment id is
spelled with `neg`, so that such cells are found without a price
(`cost_lookup_iff`).
-/
namespace Cdo.Params
open Cdo.Text Cdo.Query Cdo.Tables

/-! ### Tables -/

/-- A row of `CellAllocation`: the greatest allocation of a cell. -/
structure CellAllocation where
  san : Str
  adid : Int
  siteid : Int
  segmentid : Int
  size : Size
  allocation : Option Int
deriving DecidableEq

structure CampaignAllocation where
  san : Str
  allocation : Option Int
deriving DecidableEq

structure Caps where
  cellAllocation : List CellAllocation
  campaignAllocation : List CampaignAllocation
  cell_key : (cellAllocation.map fun row => (row.san, row.adid, row.siteid, row.segmentid, row.size)).Nodup
  campaign_key : (campaignAllocation.map CampaignAllocation.san).Nodup

/-- A bid and the impressions it is expected to win, for a share of them. -/
structure Price where
  bid : Option Int
  allocation : Int
  volume : Option Int
  capped_volume : Option Int
deriving DecidableEq

structure TestRow where
  san : Str
  siteid : Int
  segmentid : Int
  size : Size
  price : Price
deriving DecidableEq

structure AvgRow where
  siteid : Int
  segmentid : Int
  size : Size
  price : Price
deriving DecidableEq

structure PriceVolume where
  test : List TestRow
  avg : List AvgRow
  test_key : (test.map fun row => (row.san, row.siteid, row.segmentid, row.size, row.price.allocation)).Nodup
  avg_key : (avg.map fun row => (row.siteid, row.segmentid, row.size, row.price.allocation)).Nodup

/-! ### What a run loads -/

/-- The daily budgets of the campaigns that are optimised and served through the
    API. -/
def campConfig (net : Network) : SortedMap Str (Option Int) :=
  SortedMap.ofRows Campaign.san Campaign.totalbudget
    (net.campaign.filter fun c => c.usepoe == some 1 && c.isapi == some 1)

def cellAllocationKey (row : CellAllocation) : Str :=
  joined '_' [row.san, intText row.adid, intText row.siteid, intText row.segmentid, row.size.text]

def cellMaxAlpha (net : Network) (caps : Caps) : SortedMap Str (Option Int) :=
  SortedMap.ofRows (fun row => cellAllocationKey row.1.1) (fun row => row.1.1.allocation)
    (join (fun pair (m : Media) => pair.1.adid == m.adid && m.active == some 1)
      (join (fun cell (c : Campaign) => cell.san == c.san && c.optimised) caps.cellAllocation net.campaign) net.media)

def campaignMaxAlpha (net : Network) (caps : Caps) : SortedMap Str (Option Int) :=
  SortedMap.ofRows (fun row => row.1.san) (fun row => row.1.allocation)
    (join (fun camp (c : Campaign) => camp.san == c.san && c.optimised) caps.campaignAllocation net.campaign)

def testKey (row : TestRow) : Str :=
  joined '_' [row.san, intText row.siteid, intText row.segmentid, row.size.text, twoDecimals row.price.allocation]

def avgKey (row : AvgRow) : Str :=
  joined '_' [intText row.siteid, intText row.segmentid, row.size.text, twoDecimals row.price.allocation]

/-- The prices by campaign and the site averages, without the highest bids. -/
def getCostData (pv : PriceVolume) : SortedMap Str Price × SortedMap Str Price :=
  (SortedMap.ofRows testKey TestRow.price (pv.test.filter fun row => row.price.allocation < 95),
    SortedMap.ofRows avgKey AvgRow.price (pv.avg.filter fun row => row.price.allocation < 95))

/-! ### Names and keys of a cell -/

/-- A segment id as it stands in the names of variables, with `neg` for a minus
    sign. -/
def segText (segmentid : Int) : Str :=
  (intText segmentid).flatMap fun c => if c = '-' then "neg".toList else [c]

def lpVarMain (c : Cell) : Str :=
  joined '_' [c.san, intText c.adid, intText c.siteid, segText c.segmentid, c.size.text]

def invIndex (c : Cell) : Str := joined '_' [intText c.siteid, segText c.segmentid, c.size.text]

def mdIndex (c : Cell) : Str := joined '_' [c.san, intText c.siteid, segText c.segmentid, c.size.text]

def signalIndex (c : Cell) (hour : Nat) : Str := intText c.siteid ++ segText c.segmentid ++ natText hour

def maxAlphaDefault : Str := "0.2".toList

/-- The text of a decimal column; a missing value is an empty text. -/
def capText : Option Int → Str
  | some hundredths => twoDecimals hundredths
  | none => []

/-- The greatest allocation of a cell, as a text. -/
def maxAlpha (cell san : Str) (cellMaxAlpha campaignMaxAlpha : SortedMap Str (Option Int)) : Str :=
  match cellMaxAlpha.get? cell with
  | some allocation => capText allocation
  | none =>
    match campaignMaxAlpha.get? san with
    | some allocation => capText allocation
    | none => maxAlphaDefault

def pvIndex (c : Cell) (alpha : Str) : Str :=
  joined '_' [c.san, intText c.siteid, segText c.segmentid, c.size.text, alpha]

def pvAvgIndex (c : Cell) (alpha : Str) : Str :=
  joined '_' [intText c.siteid, segText c.segmentid, c.size.text, alpha]

/-! ### Prices of cells -/

/-- Expected spend and impressions of a cell that is fully allocated. -/
structure Cost where
  espend : ℚ
  evolume : ℚ
deriving DecidableEq

def costOf (price : Price) : Cost where
  espend := num price.bid / 100 * num price.capped_volume * (1 / 1000)
  evolume := num price.capped_volume

def cellCost (cost costAvg : SortedMap Str Price) (cellMaxAlpha campaignMaxAlpha : SortedMap Str (Option Int)) (c : Cell) :
    Cost :=
  let alpha := maxAlpha (lpVarMain c) c.san cellMaxAlpha campaignMaxAlpha
  match cost.get? (pvIndex c alpha) with
  | some price => costOf price
  | none =>
    match costAvg.get? (pvAvgIndex c alpha) with
    | some price => costOf price
    | none => ⟨0, 0⟩

/-! ### Keys determine columns -/

theorem segText_natural (n : Nat) : segText n = natText n := by
  have digits : ∀ c ∈ natText n, c ≠ '-' := by
    intro c member same
    exact not_mem_natText (by decide) n (same ▸ member)
  have kept : ∀ text : Str, (∀ c ∈ text, c ≠ '-') →
      text.flatMap (fun c => if c = '-' then "neg".toList else [c]) = text := by
    intro text plain
    induction text with
    | nil => rfl
    | cons c rest ih =>
      rw [List.flatMap_cons, if_neg (plain c List.mem_cons_self),
      ih fun d member => plain d (List.mem_cons_of_mem _ member)]
      rfl
  rw [segText, intText_ofNat, kept _ digits]

theorem segText_nonneg {i : Int} (nonneg : 0 ≤ i) : segText i = intText i := by
  obtain ⟨n, rfl⟩ := Int.eq_ofNat_of_zero_le nonneg
  exact segText_natural n

theorem segText_negSucc (n : Nat) : segText (Int.negSucc n) = "neg".toList ++ natText (n + 1) := by
  rw [← segText_natural (n + 1)]
  rfl

/-- The text of a negative segment id is not a numeral. -/
theorem segText_negative {i : Int} (negative : i < 0) (j : Int) : segText i ≠ intText j := by
  obtain ⟨n, rfl⟩ := Int.eq_negSucc_of_lt_zero negative
  intro same
  have member : 'n' ∈ intText j := by
    rw [← same, segText_negSucc]
    simp
  exact not_mem_intText (by decide) (by decide) j member

theorem segText_injective {i j : Int} (same : segText i = segText j) : i = j := by
  rcases lt_or_ge i 0 with iNegative | iNonneg
  · rcases lt_or_ge j 0 with jNegative | jNonneg
    · obtain ⟨m, rfl⟩ := Int.eq_negSucc_of_lt_zero iNegative
      obtain ⟨n, rfl⟩ := Int.eq_negSucc_of_lt_zero jNegative
      rw [segText_negSucc, segText_negSucc] at same
      have equal := natText_injective (List.append_cancel_left same)
      exact congrArg Int.negSucc (by omega)
    · exact absurd (same.trans (segText_nonneg jNonneg)) (segText_negative iNegative j)
  · rcases lt_or_ge j 0 with jNegative | jNonneg
    · exact absurd (same.symm.trans (segText_nonneg iNonneg)) (segText_negative jNegative i)
    · rw [segText_nonneg iNonneg, segText_nonneg jNonneg] at same
      exact intText_injective same

@[simp] theorem underscore_segText (i : Int) : '_' ∉ segText i := by
  rcases lt_or_ge i 0 with negative | nonneg
  · obtain ⟨n, rfl⟩ := Int.eq_negSucc_of_lt_zero negative
    rw [segText_negSucc, List.mem_append, not_or]
    exact ⟨by decide, not_mem_natText (by decide) _⟩
  · rw [segText_nonneg nonneg]
    exact not_mem_intText (by decide) (by decide) i

/-- The variables of cells differ in account name, ad, site, segment or size. -/
theorem lpVarMain_injective {c d : Cell} (same : lpVarMain c = lpVarMain d) :
    c.san = d.san ∧ c.adid = d.adid ∧ c.siteid = d.siteid ∧ c.segmentid = d.segmentid ∧ c.size = d.size := by
  unfold lpVarMain at same
  obtain ⟨san, fields⟩ := joined_tail_injective (by simp) (by simp [c.size.plain]) (by simp [d.size.plain]) same
  simp only [List.cons.injEq, and_true] at fields
  exact ⟨san, intText_injective fields.1, intText_injective fields.2.1, segText_injective fields.2.2.1,
    Size.ext_text fields.2.2.2⟩

theorem invIndex_of_lpVarMain {c d : Cell} (same : lpVarMain c = lpVarMain d) : invIndex c = invIndex d := by
  obtain ⟨-, -, site, segment, size⟩ := lpVarMain_injective same
  simp only [invIndex, site, segment, size]

/-! ### Caps and prices of a cell, by their columns -/

def ofCellCap (c : Cell) (row : CellAllocation) : Bool :=
  row.san == c.san && row.adid == c.adid && row.siteid == c.siteid && row.segmentid == c.segmentid && row.size == c.size

def ofCellTest (c : Cell) (alpha : Int) (row : TestRow) : Bool :=
  row.san == c.san && row.siteid == c.siteid && row.segmentid == c.segmentid && row.size == c.size &&
    row.price.allocation == alpha

def ofCellAvg (c : Cell) (alpha : Int) (row : AvgRow) : Bool :=
  row.siteid == c.siteid && row.segmentid == c.segmentid && row.size == c.size && row.price.allocation == alpha

/-- The cap of a cell, if it has one, otherwise that of its campaign. -/
def capOf (caps : Caps) (c : Cell) : Option (Option Int) :=
  ((caps.cellAllocation.find? (ofCellCap c)).map CellAllocation.allocation).or
    ((caps.campaignAllocation.find? fun row => row.san == c.san).map CampaignAllocation.allocation)

def alphaOf (caps : Caps) (c : Cell) : Int := ((capOf caps c).map num).getD 20

/-- The price of a cell at an allocation: that of its campaign, otherwise that
    of its site, segment and size. -/
def priceAt (pv : PriceVolume) (c : Cell) (alpha : Int) : Option Price :=
  ((pv.test.find? (ofCellTest c alpha)).map TestRow.price).or ((pv.avg.find? (ofCellAvg c alpha)).map AvgRow.price)

def costAt (pv : PriceVolume) (caps : Caps) (c : Cell) : Cost :=
  ((priceAt pv c (alphaOf caps c)).map costOf).getD ⟨0, 0⟩

section
variable {net : Network} {pv : PriceVolume} {caps : Caps} {c : Cell}

theorem underscore_capText (allocation : Option Int) : '_' ∉ capText allocation := by
  cases allocation with
  | none => simp [capText]
  | some hundredths => simp [capText]

theorem underscore_maxAlpha (cell san : Str) (cellMaxAlpha campaignMaxAlpha : SortedMap Str (Option Int)) :
    '_' ∉ maxAlpha cell san cellMaxAlpha campaignMaxAlpha := by
  unfold maxAlpha
  split
  · exact underscore_capText _
  · split
    · exact underscore_capText _
    · decide

theorem testKey_eq_iff {row : TestRow} {alpha : Str} (plain : '_' ∉ alpha) :
    testKey row = pvIndex c alpha ↔ row.san = c.san ∧ row.siteid = c.siteid ∧
      intText row.segmentid = segText c.segmentid ∧ row.size = c.size ∧ twoDecimals row.price.allocation = alpha := by
  constructor
  · intro same
    unfold testKey pvIndex at same
    obtain ⟨san, fields⟩ := joined_tail_injective (by simp) (by simp [row.size.plain])
      (by simp [c.size.plain, plain]) same
    simp only [List.cons.injEq, and_true] at fields
    exact ⟨san, intText_injective fields.1, fields.2.1, Size.ext_text fields.2.2.1, fields.2.2.2⟩
  · rintro ⟨san, site, segment, size, allocation⟩
    simp only [testKey, pvIndex, san, site, segment, size, allocation]

theorem avgKey_eq_iff {row : AvgRow} {alpha : Str} (plain : '_' ∉ alpha) :
    avgKey row = pvAvgIndex c alpha ↔ row.siteid = c.siteid ∧
      intText row.segmentid = segText c.segmentid ∧ row.size = c.size ∧ twoDecimals row.price.allocation = alpha := by
  constructor
  · intro same
    unfold avgKey pvAvgIndex at same
    obtain ⟨site, fields⟩ := joined_tail_injective (by simp) (by simp [row.size.plain])
      (by simp [c.size.plain, plain]) same
    simp only [List.cons.injEq, and_true] at fields
    exact ⟨intText_injective site, fields.1, Size.ext_text fields.2.1, fields.2.2⟩
  · rintro ⟨site, segment, size, allocation⟩
    simp only [avgKey, pvAvgIndex, site, segment, size, allocation]

/-- Under a segment id that is not a numeral, or an allocation that is not a
    text with two decimals, there is no price. -/
theorem price_unread (pv : PriceVolume) {alpha : Str} (plain : '_' ∉ alpha)
    (unprinted : c.segmentid < 0 ∨ ∀ allocation, twoDecimals allocation ≠ alpha) :
    (getCostData pv).1.get? (pvIndex c alpha) = none ∧ (getCostData pv).2.get? (pvAvgIndex c alpha) = none := by
  constructor
  · refine SortedMap.get?_ofRows_none ?_
    intro row _ same
    obtain ⟨-, -, segment, -, allocation⟩ := (testKey_eq_iff plain).mp same
    rcases unprinted with negative | other
    · exact segText_negative negative _ segment.symm
    · exact other _ allocation
  · refine SortedMap.get?_ofRows_none ?_
    intro row _ same
    obtain ⟨-, segment, -, allocation⟩ := (avgKey_eq_iff plain).mp same
    rcases unprinted with negative | other
    · exact segText_negative negative _ segment.symm
    · exact other _ allocation

/-- A search is not changed by a filter that keeps everything it searches for. -/
theorem find?_filter_of_imp {ρ : Type} (rows : List ρ) (keep search : ρ → Bool)
    (kept : ∀ row, search row = true → keep row = true) : (rows.filter keep).find? search = rows.find? search := by
  rw [List.find?_filter]
  congr 1
  funext row
  cases found : search row with
  | false => simp
  | true => simp [kept row found]

/-- Where the texts of some rows determine them, a lookup is a search for the row. -/
theorem get?_kept {ρ α : Type} {rows : List ρ} {keep search : ρ → Bool} {key : ρ → Str} {value : ρ → α} {text : Str}
    (columns : ∀ row, search row = true ↔ key row = text) (kept : ∀ row, search row = true → keep row = true)
    (unique : ∀ row ∈ rows, ∀ other ∈ rows, search row = true → search other = true → other = row) :
    (SortedMap.ofRows key value (rows.filter keep)).get? text = (rows.find? search).map value := by
  rw [← find?_filter_of_imp rows keep search kept]
  refine SortedMap.get?_ofRows_find? _ (fun row _ => columns row) fun row member other otherMember same otherSame => ?_
  rw [unique row (List.mem_of_mem_filter member) other (List.mem_of_mem_filter otherMember)
    ((columns row).mpr same) ((columns other).mpr otherSame)]

theorem cost_get? (nonneg : 0 ≤ c.segmentid) {alpha : Int} (below : alpha < 95) :
    (getCostData pv).1.get? (pvIndex c (twoDecimals alpha)) = (pv.test.find? (ofCellTest c alpha)).map TestRow.price := by
  have columns : ∀ row : TestRow, ofCellTest c alpha row = true ↔ testKey row = pvIndex c (twoDecimals alpha) := by
    intro row
    rw [testKey_eq_iff (by simp), segText_nonneg nonneg]
    simp only [ofCellTest, Bool.and_eq_true, beq_iff_eq, and_assoc]
    constructor
    · rintro ⟨san, site, segment, size, allocation⟩
      exact ⟨san, site, congrArg intText segment, size, congrArg twoDecimals allocation⟩
    · rintro ⟨san, site, segment, size, allocation⟩
      exact ⟨san, site, intText_injective segment, size, twoDecimals_injective allocation⟩
  refine get?_kept columns (fun row ofCell => ?_) fun row member other otherMember ofCell otherCell => ?_
  · simp only [ofCellTest, Bool.and_eq_true, beq_iff_eq] at ofCell
    simp [ofCell.2, below]
  · simp only [ofCellTest, Bool.and_eq_true, beq_iff_eq] at ofCell otherCell
    refine List.inj_on_of_nodup_map pv.test_key otherMember member ?_
    simp only [ofCell, otherCell]

theorem costAvg_get? (nonneg : 0 ≤ c.segmentid) {alpha : Int} (below : alpha < 95) :
    (getCostData pv).2.get? (pvAvgIndex c (twoDecimals alpha)) = (pv.avg.find? (ofCellAvg c alpha)).map AvgRow.price := by
  have columns : ∀ row : AvgRow, ofCellAvg c alpha row = true ↔ avgKey row = pvAvgIndex c (twoDecimals alpha) := by
    intro row
    rw [avgKey_eq_iff (by simp), segText_nonneg nonneg]
    simp only [ofCellAvg, Bool.and_eq_true, beq_iff_eq, and_assoc]
    constructor
    · rintro ⟨site, segment, size, allocation⟩
      exact ⟨site, congrArg intText segment, size, congrArg twoDecimals allocation⟩
    · rintro ⟨site, segment, size, allocation⟩
      exact ⟨site, intText_injective segment, size, twoDecimals_injective allocation⟩
  refine get?_kept columns (fun row ofCell => ?_) fun row member other otherMember ofCell otherCell => ?_
  · simp only [ofCellAvg, Bool.and_eq_true, beq_iff_eq] at ofCell
    simp [ofCell.2, below]
  · simp only [ofCellAvg, Bool.and_eq_true, beq_iff_eq] at ofCell otherCell
    refine List.inj_on_of_nodup_map pv.avg_key otherMember member ?_
    simp only [ofCell, otherCell]

theorem joined_tables {qhat : Cell → Option ℚ} {key : Str} (found : (getCellData net qhat).get? key = some c) :
    (∃ m ∈ net.media, c.adid = m.adid ∧ m.active = some 1) ∧
      ∃ camp ∈ net.campaign, c.san = camp.san ∧ camp.usepoe = some 1 := by
  obtain ⟨row, member, -, rfl⟩ := getCellData_some found
  obtain ⟨cdo, -, m, mMember, camp, campMember, ad, -, mActive, san, used, rfl⟩ := mem_cellRows.mp member
  exact ⟨⟨m, mMember, ad, mActive⟩, camp, campMember, san, used⟩

theorem cellAllocationKey_eq_iff {c : Cell} (nonneg : 0 ≤ c.segmentid) (row : CellAllocation) :
    cellAllocationKey row = lpVarMain c ↔ ofCellCap c row = true := by
  simp only [ofCellCap, Bool.and_eq_true, beq_iff_eq, and_assoc, cellAllocationKey, lpVarMain, segText_nonneg nonneg]
  constructor
  · intro same
    obtain ⟨san, fields⟩ := joined_tail_injective (by simp) (by simp [row.size.plain]) (by simp [c.size.plain]) same
    simp only [List.cons.injEq, and_true] at fields
    exact ⟨san, intText_injective fields.1, intText_injective fields.2.1, intText_injective fields.2.2.1,
      Size.ext_text fields.2.2.2⟩
  · rintro ⟨san, ad, site, segment, size⟩
    simp only [san, ad, site, segment, size]

/-- A cell's own cap is found under its variable, unless its segment id is
    negative. -/
theorem cellMaxAlpha_get? {qhat : Cell → Option ℚ} {key : Str} (found : (getCellData net qhat).get? key = some c)
    (nonneg : 0 ≤ c.segmentid) :
    (cellMaxAlpha net caps).get? (lpVarMain c) =
      (caps.cellAllocation.find? (ofCellCap c)).map CellAllocation.allocation := by
  cases search : caps.cellAllocation.find? (ofCellCap c) with
  | none =>
    refine SortedMap.get?_ofRows_none ?_
    intro row member same
    exact List.find?_eq_none.mp search row.1.1 (mem_join.mp (mem_join.mp member).1).1
      ((cellAllocationKey_eq_iff nonneg _).mp same)
  | some cap =>
    obtain ⟨⟨m, mMember, ad, mActive⟩, camp, campMember, san, used⟩ := joined_tables found
    have capMember := List.mem_of_find?_eq_some search
    have ofCell := List.find?_some search
    have same := (cellAllocationKey_eq_iff nonneg cap).mpr ofCell
    simp only [ofCellCap, Bool.and_eq_true, beq_iff_eq] at ofCell
    have listed : ((cap, camp), m) ∈ join (fun pair (m : Media) => pair.1.adid == m.adid && m.active == some 1)
        (join (fun cell (c : Campaign) => cell.san == c.san && c.optimised) caps.cellAllocation net.campaign) net.media := by
      simp only [mem_join, Campaign.optimised, Bool.and_eq_true, beq_iff_eq]
      exact ⟨⟨capMember, campMember, ofCell.1.1.1.1.trans san, used⟩, mMember, ofCell.1.1.1.2.trans ad, mActive⟩
    rw [← same, Option.map_some]
    refine SortedMap.get?_ofRows_eq listed ?_
    intro other otherMember otherSame
    have otherCell := (cellAllocationKey_eq_iff nonneg other.1.1).mp (otherSame.trans same)
    simp only [ofCellCap, Bool.and_eq_true, beq_iff_eq] at otherCell
    have equal : other.1.1 = cap := by
      refine List.inj_on_of_nodup_map caps.cell_key (mem_join.mp (mem_join.mp otherMember).1).1 capMember ?_
      simp only [ofCell, otherCell]
    rw [equal]

theorem campaignMaxAlpha_get? {qhat : Cell → Option ℚ} {key : Str}
    (found : (getCellData net qhat).get? key = some c) :
    (campaignMaxAlpha net caps).get? c.san =
      (caps.campaignAllocation.find? fun row => row.san == c.san).map CampaignAllocation.allocation := by
  cases search : caps.campaignAllocation.find? fun row => row.san == c.san with
  | none =>
    refine SortedMap.get?_ofRows_none ?_
    intro row member same
    exact List.find?_eq_none.mp search row.1 (mem_join.mp member).1 (beq_iff_eq.mpr same)
  | some cap =>
    obtain ⟨-, camp, campMember, san, used⟩ := joined_tables found
    have capMember := List.mem_of_find?_eq_some search
    have same : cap.san = c.san := by simpa using List.find?_some search
    have listed : (cap, camp) ∈ join (fun row (c : Campaign) => row.san == c.san && c.optimised) caps.campaignAllocation
        net.campaign := by
      simp only [mem_join, Campaign.optimised, Bool.and_eq_true, beq_iff_eq]
      exact ⟨capMember, campMember, same.trans san, used⟩
    rw [← same, Option.map_some]
    refine SortedMap.get?_ofRows_eq listed ?_
    intro other otherMember otherSame
    have equal : other.1 = cap :=
      List.inj_on_of_nodup_map caps.campaign_key (mem_join.mp otherMember).1 capMember otherSame
    rw [equal]

theorem maxAlpha_eq {qhat : Cell → Option ℚ} {key : Str} (found : (getCellData net qhat).get? key = some c)
    (nonneg : 0 ≤ c.segmentid) :
    maxAlpha (lpVarMain c) c.san (cellMaxAlpha net caps) (campaignMaxAlpha net caps) =
      ((capOf caps c).map capText).getD maxAlphaDefault := by
  unfold maxAlpha capOf
  rw [cellMaxAlpha_get? found nonneg, campaignMaxAlpha_get? found]
  cases caps.cellAllocation.find? (ofCellCap c) with
  | some cap => rfl
  | none => cases caps.campaignAllocation.find? (fun row => row.san == c.san) <;> rfl

/-- The default is not a text with two decimals. -/
theorem twoDecimals_ne_default (hundredths : Int) : twoDecimals hundredths ≠ maxAlphaDefault := by
  intro same
  cases hundredths with
  | ofNat n =>
    have empty : natText (n / 100) = [] := by
      simpa [twoDecimals, hundredthsText, maxAlphaDefault] using congrArg List.length same
    exact natText_ne_nil _ empty
  | negSucc n => exact absurd (List.cons.inj same).1 (by decide)

theorem twoDecimals_ne_nil (hundredths : Int) : twoDecimals hundredths ≠ [] := by
  cases hundredths with
  | ofNat n => simp [twoDecimals, hundredthsText]
  | negSucc n => simp [twoDecimals]

end

/-- `LP_Obj` gives a cell the cost of the price row at its greatest allocation
    exactly if its segment id is not negative and its cap is a number from a
    table, or if that cost is 0. -/
theorem cost_lookup_iff (net : Network) (qhat : Cell → Option ℚ) (pv : PriceVolume) (caps : Caps) (key : Str) (c : Cell)
    (found : (getCellData net qhat).get? key = some c) (below : alphaOf caps c < 95) :
    cellCost (getCostData pv).1 (getCostData pv).2 (cellMaxAlpha net caps) (campaignMaxAlpha net caps) c =
      costAt pv caps c ↔
    (0 ≤ c.segmentid ∧ ∃ allocation, capOf caps c = some (some allocation)) ∨ costAt pv caps c = ⟨0, 0⟩ := by
  by_cases printed : 0 ≤ c.segmentid ∧ ∃ allocation, capOf caps c = some (some allocation)
  · obtain ⟨nonneg, allocation, cap⟩ := printed
    have alpha : alphaOf caps c = allocation := by simp [alphaOf, cap]
    have text : maxAlpha (lpVarMain c) c.san (cellMaxAlpha net caps) (campaignMaxAlpha net caps) = twoDecimals allocation := by
      rw [maxAlpha_eq found nonneg, cap]
      rfl
    have same : cellCost (getCostData pv).1 (getCostData pv).2 (cellMaxAlpha net caps) (campaignMaxAlpha net caps) c =
        costAt pv caps c := by
      unfold cellCost costAt priceAt
      rw [alpha] at below ⊢
      simp only [text, cost_get? nonneg below, costAvg_get? nonneg below]
      cases pv.test.find? (ofCellTest c allocation) with
      | some row => rfl
      | none => cases pv.avg.find? (ofCellAvg c allocation) <;> rfl
    exact ⟨fun _ => .inl ⟨nonneg, allocation, cap⟩, fun _ => same⟩
  · have unprinted : c.segmentid < 0 ∨ ∀ hundredths, twoDecimals hundredths ≠
        maxAlpha (lpVarMain c) c.san (cellMaxAlpha net caps) (campaignMaxAlpha net caps) := by
      by_cases nonneg : 0 ≤ c.segmentid
      · refine .inr fun hundredths => ?_
        rw [maxAlpha_eq found nonneg]
        cases cap : capOf caps c with
        | none => exact twoDecimals_ne_default hundredths
        | some allocation =>
          cases allocation with
          | none => exact twoDecimals_ne_nil hundredths
          | some allocation => exact absurd ⟨nonneg, allocation, cap⟩ printed
      · exact .inl (not_le.mp nonneg)
    have unpriced : cellCost (getCostData pv).1 (getCostData pv).2 (cellMaxAlpha net caps) (campaignMaxAlpha net caps) c =
        ⟨0, 0⟩ := by
      obtain ⟨test, avg⟩ := price_unread pv (underscore_maxAlpha _ _ _ _) unprinted
      simp only [cellCost, test, avg]
    rw [unpriced, or_iff_right printed]
    exact eq_comm

/-- A network with one active cell, on the given segment. -/
def onSegment (segmentid : Int) : Network where
  campaign := [⟨"auo".toList, 1, some 100, some 1, some 1, some 3⟩]
  media := [⟨11, size300x250, "auo".toList, some 1, 1⟩]
  cdoCells := [⟨7, 11, 20, segmentid, some 1, some 0⟩]
  campaign_key := by decide
  media_key := by decide
  cdoCells_key := by simp

def cellOn (segmentid : Int) : Cell := ⟨7, 11, 20, segmentid, size300x250, "auo".toList, 1, none⟩

def priced (segmentid : Int) : PriceVolume where
  test := [⟨"auo".toList, 20, segmentid, size300x250, ⟨some 150, 20, some 5000, some 4000⟩⟩]
  avg := []
  test_key := by simp
  avg_key := by simp

def noCaps : Caps := ⟨[], [], by simp, by simp⟩

/-- A cap of 0.20 for the campaign of that cell. -/
def campaignCap : Caps := ⟨[], [⟨"auo".toList, some 20⟩], by simp, by simp⟩

theorem cost_lookup_campaign_cap :
    cellCost (getCostData (priced 5)).1 (getCostData (priced 5)).2 (cellMaxAlpha (onSegment 5) campaignCap)
      (campaignMaxAlpha (onSegment 5) campaignCap) (cellOn 5) = costAt (priced 5) campaignCap (cellOn 5) :=
  (cost_lookup_iff (onSegment 5) (fun _ => none) (priced 5) campaignCap "7".toList (cellOn 5) (by decide)
    (by decide)).mpr (.inl ⟨by decide, 20, by decide⟩)

/-- A cell without a cap, whose price row at 0.20 costs 6, enters at no cost. -/
theorem default_cap_unpriced :
    (getCellData (onSegment 5) fun _ => none).get? "7".toList = some (cellOn 5) ∧ alphaOf noCaps (cellOn 5) = 20 ∧
      costAt (priced 5) noCaps (cellOn 5) = ⟨6, 4000⟩ ∧
      cellCost (getCostData (priced 5)).1 (getCostData (priced 5)).2 (cellMaxAlpha (onSegment 5) noCaps)
        (campaignMaxAlpha (onSegment 5) noCaps) (cellOn 5) = ⟨0, 0⟩ := by
  refine ⟨by decide, by decide, by decide +kernel, by decide⟩

end Cdo.Params
