import Cdo.LpText
import Cdo.BidCalc

/-!
What the rounding of allocations leaves of the limits of the linear program.
Each allocation is rounded to the nearest multiple of 0.05 by itself, so it
moves by at most 0.025 (`gridAlloc_near`). A cap that is such a multiple is
kept; the cells of a placement may together exceed the campaign's limit by 0.025
each, and the spend of a campaign may exceed its budget by what 0.025 of each of
its cells costs (`rounded_within_slack`).
-/
namespace Cdo.RoundedSolution
open Cdo.Text Cdo.Query Cdo.Tables Cdo.Params Cdo.Signals Cdo.LinearProgram Cdo.Objective Cdo.Constraint Cdo.WellPosed
open Cdo.LpText (limitOf allocationRow_of_enters)
open Cdo.BidCalc

/-! ### One allocation -/

/-- Rounding moves an allocation by at most 0.025. -/
theorem gridAlloc_near {r : Rounding} {x : ℚ} (nonneg : 0 ≤ x) : |(gridAlloc r x : ℚ) / 100 - x| ≤ 1 / 40 := by
  obtain ⟨lower, higher⟩ := abs_le.mp (r.near x)
  have grid := gridAlloc_eq (r := r) nonneg
  have close : gridAlloc r x ≤ r.round x + 2 ∧ r.round x - 2 ≤ gridAlloc r x := by omega
  have above : (gridAlloc r x : ℚ) ≤ r.round x + 2 := by exact_mod_cast close.1
  have under : (r.round x : ℚ) - 2 ≤ gridAlloc r x := by exact_mod_cast close.2
  rw [abs_le]
  constructor <;> linarith

/-- Rounding keeps a cap that is a multiple of 0.05. -/
theorem gridAlloc_le {r : Rounding} {x : ℚ} (nonneg : 0 ≤ x) {cap : Int} (onGrid : 5 ∣ cap) (below : x ≤ cap / 100) :
    gridAlloc r x ≤ cap := by
  have lower := (abs_le.mp (r.near x)).1
  have rounded : r.round x ≤ cap := by
    by_contra above
    have next : (cap : ℚ) + 1 ≤ r.round x := by
      have integer : cap + 1 ≤ r.round x := by omega
      exact_mod_cast integer
    linarith
  have grid := gridAlloc_eq (r := r) nonneg
  omega

/-! ### Recorded values -/

def recordedAlloc (optBids : SortedMap Str OptBid) (v : Str) : ℚ :=
  ((optBids.get? v).map fun bid => (bid.allocation : ℚ) / 100).getD 0

def recordedSpend (optBids : SortedMap Str OptBid) (v : Str) : ℚ := ((optBids.get? v).map OptBid.espend).getD 0

/-- The lines of a solution give the values of a point. -/
structure Reports (solution : Solution) (x : Str → ℚ) (vars : List Str) : Prop where
  values : ∀ line ∈ solution.lines, line.2 = x line.1
  complete : ∀ v ∈ vars, v ∈ solution.lines.map Prod.fst

section
variable {r : Rounding} {d : RunData} {hour : Nat} {solution : Solution} {optBids : SortedMap Str OptBid} {x : Str → ℚ}
  {vars : List Str} {v : Str}

theorem Reports.line (reports : Reports solution x vars) (member : v ∈ solution.lines.map Prod.fst) :
    (v, x v) ∈ solution.lines := by
  obtain ⟨⟨name, ap⟩, listed, rfl⟩ := List.mem_map.mp member
  have value := reports.values _ listed
  simp only at value
  rw [← value]
  exact listed

theorem recordedAlloc_eq (run : bidCalc r d hour solution = some optBids) (reports : Reports solution x vars)
    (member : v ∈ solution.lines.map Prod.fst) : recordedAlloc optBids v = (gridAlloc r (x v) : ℚ) / 100 := by
  obtain ⟨bid, line, recorded⟩ := (bidCalc_records run).1 _ _ (reports.line member)
  rw [recordedAlloc, recorded, Option.map_some, Option.getD_some, lineBid_allocation line]

theorem recordedAlloc_absent (run : bidCalc r d hour solution = some optBids)
    (absent : v ∉ solution.lines.map Prod.fst) : recordedAlloc optBids v = 0 := by
  rw [recordedAlloc, (bidCalc_records run).2 v absent]
  rfl

/-- The recorded allocation of a variable is close to its value. -/
theorem recordedAlloc_le (run : bidCalc r d hour solution = some optBids) (reports : Reports solution x vars)
    (nonneg : ∀ v, 0 ≤ x v) (v : Str) : recordedAlloc optBids v ≤ x v + 1 / 40 := by
  by_cases member : v ∈ solution.lines.map Prod.fst
  · rw [recordedAlloc_eq run reports member]
    linarith [(abs_le.mp (gridAlloc_near (r := r) (nonneg v))).2]
  · rw [recordedAlloc_absent run member]
    linarith [nonneg v]

theorem recordedAlloc_le_cap (run : bidCalc r d hour solution = some optBids) (reports : Reports solution x vars)
    (nonneg : ∀ v, 0 ≤ x v) {cap : Int} (onGrid : 5 ∣ cap) (below : x v ≤ cap / 100) :
    recordedAlloc optBids v ≤ cap / 100 := by
  by_cases member : v ∈ solution.lines.map Prod.fst
  · rw [recordedAlloc_eq run reports member]
    have kept : (gridAlloc r (x v) : ℚ) ≤ cap := by exact_mod_cast gridAlloc_le (nonneg v) onGrid below
    linarith
  · rw [recordedAlloc_absent run member]
    exact (nonneg v).trans below

theorem sum_recordedAlloc_le (run : bidCalc r d hour solution = some optBids) (reports : Reports solution x vars)
    (nonneg : ∀ v, 0 ≤ x v) {rel : Relation Str} (plain : ∀ term ∈ rel.terms, term.1 = 1) (holds : rel.Holds x) :
    ∃ limit, rel.limit = some limit ∧ (rel.vars.map (recordedAlloc optBids)).sum ≤ limit + rel.vars.length / 40 := by
  obtain ⟨limit, isLimit, below⟩ := holds
  refine ⟨limit, isLimit, ?_⟩
  have sums : (rel.vars.map (recordedAlloc optBids)).sum ≤
      total x rel.terms + (rel.terms.map Prod.fst).sum * (1 / 40) := by
    refine sum_le_total_add ?_
    intro term member
    rw [plain term member, one_mul, one_mul]
    exact recordedAlloc_le run reports nonneg term.2
  have ones : (rel.terms.map Prod.fst).sum = rel.vars.length := by
    rw [List.map_congr_left plain, List.map_const', List.sum_replicate, Relation.vars, List.length_map, nsmul_one]
  rw [ones] at sums
  linarith

end

/-! ### Spend -/

def ofColumns (c : Cell) (row : TestRow) : Bool :=
  row.san == c.san && row.siteid == c.siteid && row.segmentid == c.segmentid && row.size == c.size

/-- Campaign prices as they are loaded from the price files, with bids that do
    not fall as the allocation grows: the allocations are multiples of 0.05, and
    all rows of a cell have one capped volume. -/
structure LoadedPrices (pv : PriceVolume) : Prop where
  grid : ∀ row ∈ pv.test, 5 ∣ row.price.allocation
  capped : ∀ c, ∀ row ∈ pv.test, ∀ row' ∈ pv.test, ofColumns c row = true → ofColumns c row' = true →
    num row.price.capped_volume = num row'.price.capped_volume
  monotone : ∀ c, ∀ row ∈ pv.test, ∀ row' ∈ pv.test, ofColumns c row = true → ofColumns c row' = true →
    row.price.allocation ≤ row'.price.allocation → num row.price.bid ≤ num row'.price.bid

def NoMisdelivery (d : RunData) : Prop := d.cellMdFactors = SortedMap.empty ∧ d.siteSegMdFactors = SortedMap.empty

section
variable {pv : PriceVolume} {d : RunData} {hour : Nat} {c : Cell} {cells : SortedMap Str Cell} {k : Coefficients}

theorem ofCellTest_eq (c : Cell) (alloc : Int) (row : TestRow) :
    ofCellTest c alloc row = (ofColumns c row && row.price.allocation == alloc) := rfl

/-- A greatest allocation whose text has two decimals is the limit of the cell. -/
theorem limitOf_of_maxAlpha {alloc : Int}
    (text : maxAlpha (lpVarMain c) c.san d.cellMaxAlpha d.campaignMaxAlpha = twoDecimals alloc) :
    limitOf d c = some ((alloc : ℚ) / 100) := by
  have capped : ∀ cap, capText cap = twoDecimals alloc → capLimit cap = some ((alloc : ℚ) / 100) := by
    intro cap same
    cases cap with
    | none => exact absurd same.symm (twoDecimals_ne_nil _)
    | some hundredths => rw [twoDecimals_injective same]; rfl
  unfold limitOf
  unfold maxAlpha at text
  cases own : d.cellMaxAlpha.get? (lpVarMain c) with
  | some cap =>
    rw [own] at text
    exact capped cap text
  | none =>
    rw [own] at text
    simp only [campaignLimit]
    cases campaign : d.campaignMaxAlpha.get? c.san with
    | some cap =>
      rw [campaign] at text
      exact capped cap text
    | none =>
      rw [campaign] at text
      exact absurd text.symm (twoDecimals_ne_default _)

/-- A cell that is priced from `PriceVolumeTest` is priced by its row at the
    limit of its allocation. -/
theorem pricedFrom_test (priced : pricedFrom (withPrices d pv) c = some .test) :
    ∃ row ∈ pv.test, ofColumns c row = true ∧ limitOf (withPrices d pv) c = some ((row.price.allocation : ℚ) / 100) ∧
      costIn (withPrices d pv) c = costOf row.price ∧ ∃ key, (getCostData pv).1.get? key = some row.price := by
  have plain := underscore_maxAlpha (lpVarMain c) c.san d.cellMaxAlpha d.campaignMaxAlpha
  cases found : (getCostData pv).1.get? (pvIndex c (maxAlpha (lpVarMain c) c.san d.cellMaxAlpha d.campaignMaxAlpha)) with
  | none =>
    have unpriced : (withPrices d pv).cost.get? (pvIndex c (maxAlpha (lpVarMain c) c.san (withPrices d pv).cellMaxAlpha
        (withPrices d pv).campaignMaxAlpha)) = none := found
    simp only [pricedFrom, unpriced, Option.isSome_none, Bool.false_eq_true, if_false] at priced
    revert priced
    split_ifs <;> simp
  | some price =>
    obtain ⟨row, member, key, rfl⟩ := SortedMap.get?_ofRows_some found
    obtain ⟨san, site, segment, size, allocation⟩ := (testKey_eq_iff plain).mp key
    have nonneg : 0 ≤ c.segmentid := by
      by_contra negative
      exact segText_negative (not_le.mp negative) _ segment.symm
    rw [segText_nonneg nonneg] at segment
    refine ⟨row, List.mem_of_mem_filter member, ?_, ?_, ?_, _, found⟩
    · simp [ofColumns, san, site, intText_injective segment, size]
    · exact limitOf_of_maxAlpha (d := withPrices d pv) allocation.symm
    · simp only [costIn, cellCost, withPrices, found]

/-- Without misdelivery rows both stages scale a cell by its impression factor. -/
theorem factors_eq (pv : PriceVolume) (hour : Nat) (none : NoMisdelivery d) (plain : '_' ∉ c.san) :
    bidFactor (withPrices d pv) hour (lpVarMain c) = impFactor (withPrices d pv) hour c ∧
      mdFactor (withPrices d pv) c = 1 := by
  have ratio : ∀ md_ind inv_ind, mdRatio md_ind inv_ind d.cellMdFactors d.siteSegMdFactors = 1 := by
    intro md_ind inv_ind
    rw [none.1, none.2]
    rfl
  have index : signalInd (lpVarMain c) hour = signalIndex c hour := by
    rw [signalInd, field, field, splitOn_lpVarMain plain]
    rfl
  refine ⟨?_, ratio _ _⟩
  simp only [bidFactor, impFactor, withPrices, index, ratio, mul_one]
  exact Option.map_id'

/-- At a row of the cell in the table its coefficients are from, the spend is at
    most what the budget coefficient gives. -/
theorem row_spend_le (loaded : LoadedPrices pv) (none : NoMisdelivery d) (nonneg : DataNonneg (withPrices d pv))
    (plain : '_' ∉ c.san) (enters : Enters (withPrices d pv) hour cells c k)
    (priced : pricedFrom (withPrices d pv) c = some .test)
    {r : Rounding} {ap : ℚ} (apNonneg : 0 ≤ ap) (limited : ∀ limit, limitOf (withPrices d pv) c = some limit → ap ≤ limit)
    {row : TestRow} (member : row ∈ pv.test) (columns : ofColumns c row = true)
    (allocation : row.price.allocation = gridAlloc r ap) {factor : ℚ}
    (isFactor : bidFactor (withPrices d pv) hour (lpVarMain c) = some factor) :
    (num row.price.bid : ℚ) / 100 * ((gridAlloc r ap / 100 : ℚ) * num row.price.capped_volume * factor) / 1000 ≤
      k.spend * ((gridAlloc r ap : ℚ) / 100) := by
  have grid : (0 : ℚ) ≤ gridAlloc r ap := Int.cast_nonneg (gridAlloc_nonneg r ap)
  obtain ⟨row', member', columns', isLimit, cost, key, stored⟩ := pricedFrom_test priced
  obtain ⟨-, -, imp_factor, imp, rfl⟩ := coefficients_eq_some.mp enters.2
  obtain ⟨sameFactor, ratio⟩ := factors_eq pv hour none plain
  -- the row the coefficients are from has the larger allocation, and so the higher bid
  have atMost : gridAlloc r ap ≤ row'.price.allocation :=
    gridAlloc_le apNonneg (loaded.grid row' member') (limited _ isLimit)
  have cheaper := loaded.monotone c row member row' member' columns columns' (allocation ▸ atMost)
  have volume := loaded.capped c row member row' member' columns columns'
  have cappedNonneg : (0 : ℚ) ≤ num row'.price.capped_volume :=
    Int.cast_nonneg (nonneg.cost key row'.price stored).2.2
  rw [sameFactor, imp] at isFactor
  obtain rfl := Option.some.inj isFactor
  have impNonneg := impFactor_nonneg nonneg imp
  have scaled : (0 : ℚ) ≤ gridAlloc r ap / 100 * num row'.price.capped_volume * imp_factor := by positivity
  have bidLe : (num row.price.bid : ℚ) ≤ num row'.price.bid := by exact_mod_cast cheaper
  have spend := mul_le_mul_of_nonneg_right bidLe scaled
  simp only [coefficientsAt, cost, ratio, costOf, volume]
  linarith

/-- The spend that is recorded for a cell is at most what its budget coefficient
    gives for the recorded allocation. -/
theorem espend_le (loaded : LoadedPrices pv) (none : NoMisdelivery d) (nonneg : DataNonneg (withPrices d pv))
    (plain : '_' ∉ c.san) (enters : Enters (withPrices d pv) hour cells c k)
    (source : pricedFrom (withPrices d pv) c = some .test ∨ ∀ row ∈ pv.test, ofColumns c row = false)
    {r : Rounding} {ap : ℚ} (apNonneg : 0 ≤ ap) (limited : ∀ limit, limitOf (withPrices d pv) c = some limit → ap ≤ limit)
    {bid : OptBid} (line : lineBid r (withPrices d pv) hour (lpVarMain c) ap = some bid) :
    bid.espend ≤ k.spend * ((gridAlloc r ap : ℚ) / 100) := by
  have spends := spend_pos nonneg enters
  have grid : (0 : ℚ) ≤ gridAlloc r ap := Int.cast_nonneg (gridAlloc_nonneg r ap)
  have enough : 0 ≤ k.spend * ((gridAlloc r ap : ℚ) / 100) := by positivity
  rcases (gridAlloc_nonneg r ap).eq_or_lt with zero | positive
  · rw [lineBid, if_pos zero.symm] at line
    obtain rfl := Option.some.inj line
    exact enough
  obtain ⟨factor, isFactor, rfl⟩ := lineBid_positive positive line
  rw [bidPrice_withPrices]
  split_ifs with below
  · cases found : pv.test.find? (decodesTo (lpVarMain c) (gridAlloc r ap)) with
    | none => exact enough
    | some row =>
      have member := List.mem_of_find?_eq_some found
      have decoded := List.find?_some found
      rw [decodesTo_lpVarMain plain, ofCellTest_eq, Bool.and_eq_true, beq_iff_eq] at decoded
      simp only [Option.map_some]
      split_ifs with unbid
      · exact enough
      · rcases source with priced | absent
        · rw [decoded.2]
          exact row_spend_le loaded none nonneg plain enters priced apNonneg limited member decoded.1 decoded.2 isFactor
        · rw [absent row member] at decoded
          exact absurd decoded.1 (by decide)
  · exact enough

end

/-! ### All limits -/

/-- A point of the program holds a cell that enters to its limit. -/
theorem le_limit_of_feasible {d : RunData} {hour : Nat} {cells : SortedMap Str Cell} {h : LpHashes}
    {rows : List (Str × Relation Str)} {x : Str → ℚ} {c : Cell} {k : Coefficients} (run : lpObj d hour cells = some h)
    (feasible : Feasible (relations d h rows) x) (enters : Enters d hour cells c k) :
    ∀ limit, limitOf d c = some limit → x (lpVarMain c) ≤ limit := by
  intro limit isLimit
  obtain ⟨row, member, term, rowLimit⟩ := allocationRow_of_enters run enters
  obtain ⟨limit', rLimit, below⟩ := le_limit_of_holds feasible.1 member (allocationRow_feasible feasible member) term
  rw [rowLimit, isLimit] at rLimit
  obtain rfl := Option.some.inj rLimit
  exact below

theorem recordedSpend_le {r : Rounding} {pv : PriceVolume} {d : RunData} {hour : Nat} {cells : SortedMap Str Cell}
    {h : LpHashes} {rows : List (Str × Relation Str)} {x : Str → ℚ} {solution : Solution} {optBids : SortedMap Str OptBid}
    {c : Cell} {k : Coefficients} (built : lpObj (withPrices d pv) hour cells = some h)
    (feasible : Feasible (relations (withPrices d pv) h rows) x)
    (reports : Reports solution x ((objective h).map Prod.snd))
    (run : bidCalc r (withPrices d pv) hour solution = some optBids) (loaded : LoadedPrices pv) (none : NoMisdelivery d)
    (nonneg : DataNonneg (withPrices d pv)) (plain : '_' ∉ c.san) (enters : Enters (withPrices d pv) hour cells c k)
    (source : pricedFrom (withPrices d pv) c = some .test ∨ ∀ row ∈ pv.test, ofColumns c row = false) :
    recordedSpend optBids (lpVarMain c) ≤ k.spend * x (lpVarMain c) + k.spend * (1 / 40) := by
  obtain ⟨a, inObjective⟩ := objective_of_enters built enters
  have hasLine := reports.complete _ (List.mem_map.mpr ⟨_, inObjective, rfl⟩)
  obtain ⟨bid, line, recorded⟩ := (bidCalc_records run).1 _ _ (reports.line hasLine)
  have spent := espend_le loaded none nonneg plain enters source (feasible.1 _)
    (le_limit_of_feasible built feasible enters) line
  have near := (abs_le.mp (gridAlloc_near (r := r) (feasible.1 (lpVarMain c)))).2
  have costs := mul_le_mul_of_nonneg_left near (spend_pos nonneg enters).le
  rw [recordedSpend, recorded, Option.map_some, Option.getD_some]
  linarith

/-- The recorded values of a solution stay within the limits of the program up
    to what moving each allocation by 0.025 can add. -/
theorem rounded_within_slack (r : Rounding) (pv : PriceVolume) (d : RunData) (hour : Nat) (cells : SortedMap Str Cell)
    (config : SortedMap Str (Option Int)) (b : SortedMap Str BudgetSignal) (n : SortedMap Nat BudgetSignal)
    (order : config.Listing) (h : LpHashes) (rows : List (Str × Relation Str)) (x : Str → ℚ) (solution : Solution)
    (optBids : SortedMap Str OptBid) (emitted : lpRows (withPrices d pv) hour cells config b n order = some (h, rows))
    (feasible : Feasible (relations (withPrices d pv) h rows) x)
    (reports : Reports solution x ((objective h).map Prod.snd))
    (run : bidCalc r (withPrices d pv) hour solution = some optBids) :
    (∀ san site rel, (Limited.placement san site, rel) ∈ allocationRows (withPrices d pv) h →
      ∃ limit, rel.limit = some limit ∧ (rel.vars.map (recordedAlloc optBids)).sum ≤ limit + rel.vars.length / 40) ∧
    (∀ v cap, d.cellMaxAlpha.get? v = some (some cap) →
      recordedAlloc optBids v ≤ cap / 100 + 1 / 40 ∧ (5 ∣ cap → recordedAlloc optBids v ≤ cap / 100)) ∧
    (LoadedPrices pv → NoMisdelivery d → DataNonneg (withPrices d pv) → ∀ san rel, (san, rel) ∈ rows → '_' ∉ san →
      (∀ c k, Enters (withPrices d pv) hour cells c k → c.san = san →
        pricedFrom (withPrices d pv) c = some .test ∨ ∀ row ∈ pv.test, ofColumns c row = false) →
      ∃ amount, rel.limit = some amount ∧
        (rel.vars.map (recordedSpend optBids)).sum ≤ amount + (rel.terms.map Prod.fst).sum / 40) := by
  obtain ⟨built, printed⟩ := lpRows_eq_some.mp emitted
  refine ⟨?_, ?_, ?_⟩
  · intro san site rel member
    exact sum_recordedAlloc_le run reports feasible.1 (allocationRow_coeffs member)
      (allocationRow_feasible feasible member)
  · intro v cap capped
    have listed : cellRow (v, some cap) ∈ allocationRows (withPrices d pv) h :=
      List.mem_append_right _ (List.mem_map.mpr ⟨(v, some cap), SortedMap.mem_entries.mpr capped, rfl⟩)
    obtain ⟨limit, isLimit, below⟩ := allocationRow_feasible feasible listed
    obtain rfl := Option.some.inj isLimit
    have within : x v ≤ cap / 100 := by
      simp only [cellRow, total_cons, total_nil] at below
      linarith
    refine ⟨?_, fun onGrid => recordedAlloc_le_cap run reports feasible.1 onGrid within⟩
    linarith [recordedAlloc_le run reports feasible.1 v]
  · intro loaded none nonneg san rel member plain source
    obtain ⟨amount, isLimit, below⟩ :=
      feasible.2 rel (List.mem_append_left _ (List.mem_map.mpr ⟨(san, rel), member, rfl⟩))
    refine ⟨amount, isLimit, ?_⟩
    have sums : (rel.vars.map (recordedSpend optBids)).sum ≤
        total x rel.terms + (rel.terms.map Prod.fst).sum * (1 / 40) := by
      refine sum_le_total_add ?_
      rintro ⟨a, v⟩ term
      obtain ⟨-, -, amount', -, rfl⟩ := (mem_lpConstraint printed).mp member
      obtain ⟨c, k, enters, rfl, rfl, rfl⟩ := budget_some built (mem_budgetTerms.mp term)
      exact recordedSpend_le built feasible reports run loaded none nonneg plain enters (source c k enters rfl)
    linarith

/-! ### Three cells of one placement -/

def threeAds : Network where
  campaign := (onSegment 5).campaign
  media := [⟨11, (cellOn 5).size, "auo".toList, some 1, 1⟩, ⟨12, (cellOn 5).size, "auo".toList, some 1, 1⟩,
    ⟨13, (cellOn 5).size, "auo".toList, some 1, 1⟩]
  cdoCells := [⟨7, 11, 20, 5, some 1, some 0⟩, ⟨8, 12, 20, 5, some 1, some 0⟩, ⟨9, 13, 20, 5, some 1, some 0⟩]
  campaign_key := (onSegment 5).campaign_key
  media_key := by decide
  cdoCells_key := by decide

def threeCells : SortedMap Str Cell := getCellData threeAds fun _ => some (1 / 100)

/-- Allocations of 0.08, 0.08 and 0.04, which use up a limit of 0.20. -/
def thirds : Solution where
  lines := [("auo_11_20_5_300x250".toList, 2 / 25), ("auo_12_20_5_300x250".toList, 2 / 25),
    ("auo_13_20_5_300x250".toList, 1 / 25)]
  once := by decide

def thirdsPoint (v : Str) : ℚ := ((thirds.lines.find? fun line => line.1 = v).map Prod.snd).getD 0

theorem pricesIn_loaded : LoadedPrices (pricesIn .test) := by
  have bids : ∀ row ∈ (pricesIn .test).test, ∀ row' ∈ (pricesIn .test).test,
      row.price.allocation ≤ row'.price.allocation → num row.price.bid ≤ num row'.price.bid := by decide
  have volumes : ∀ row ∈ (pricesIn .test).test, ∀ row' ∈ (pricesIn .test).test,
      num row.price.capped_volume = num row'.price.capped_volume := by decide
  exact ⟨by decide, fun _ row member row' member' _ _ => volumes row member row' member',
    fun _ row member row' member' _ _ le => bids row member row' member' le⟩

theorem thirdsPoint_nonneg (v : Str) : 0 ≤ thirdsPoint v := by
  have lines : ∀ line ∈ thirds.lines, 0 ≤ line.2 := by decide +kernel
  unfold thirdsPoint
  cases found : thirds.lines.find? fun line => line.1 = v with
  | none => exact le_refl 0
  | some line => exact lines line (List.mem_of_find?_eq_some found)

theorem thirds_run :
    ∃ h rows optBids, lpRows (withPrices cappedRun (pricesIn .test)) 3 threeCells (campConfig threeAds) SortedMap.empty
        budgetHour (sortedOrder _) = some (h, rows) ∧
      Feasible (relations (withPrices cappedRun (pricesIn .test)) h rows) thirdsPoint ∧
      Reports thirds thirdsPoint ((objective h).map Prod.snd) ∧
      bidCalc halfUp (withPrices cappedRun (pricesIn .test)) 3 thirds = some optBids ∧
      allocationRows (withPrices cappedRun (pricesIn .test)) h =
        [(.placement "auo".toList "20_5_300x250".toList, ⟨thirds.lines.map fun line => (1, line.1), some (1 / 5)⟩)] ∧
      ((thirds.lines.map Prod.fst).map (recordedAlloc optBids)).sum = 1 / 4 := by
  have prints : (lpRows (withPrices cappedRun (pricesIn .test)) 3 threeCells (campConfig threeAds) SortedMap.empty
      budgetHour (sortedOrder _)).map (fun printed => (printed.2, (objective printed.1).map Prod.snd)) =
      some ([("auo".toList, ⟨thirds.lines.map fun line => (3 / 5, line.1), some 10⟩)], thirds.lines.map Prod.fst) := by
    decide +kernel
  have limits : (lpRows (withPrices cappedRun (pricesIn .test)) 3 threeCells (campConfig threeAds) SortedMap.empty
      budgetHour (sortedOrder _)).map (fun printed => allocationRows (withPrices cappedRun (pricesIn .test)) printed.1) =
      some [(.placement "auo".toList "20_5_300x250".toList, ⟨thirds.lines.map fun line => (1, line.1), some (1 / 5)⟩)] := by
    decide +kernel
  have bids : (bidCalc halfUp (withPrices cappedRun (pricesIn .test)) 3 thirds).map (fun optBids =>
      ((thirds.lines.map Prod.fst).map (recordedAlloc optBids)).sum) = some (1 / 4) := by decide +kernel
  obtain ⟨⟨h, rows⟩, emitted, printed⟩ := Option.map_eq_some_iff.mp prints
  obtain ⟨budgetRows, names⟩ := Prod.mk.inj printed
  rw [emitted] at limits
  have limitRows := Option.some.inj limits
  obtain ⟨optBids, run, recorded⟩ := Option.map_eq_some_iff.mp bids
  refine ⟨h, rows, optBids, emitted, ⟨thirdsPoint_nonneg, ?_⟩, ⟨by decide +kernel, ?_⟩, run, limitRows, recorded⟩
  · intro r member
    simp only at budgetRows limitRows
    rw [relations, budgetRows, limitRows] at member
    rcases List.mem_cons.mp member with rfl | last
    · exact ⟨10, rfl, by decide +kernel⟩
    · obtain rfl := List.mem_singleton.mp last
      exact ⟨1 / 5, rfl, by decide +kernel⟩
  · simp only at names
    rw [names]
    exact fun _ inLines => inLines

theorem thirds_nonneg : DataNonneg (withPrices cappedRun (pricesIn .test)) :=
  dataNonneg_of_entries (by decide) (by decide) (by decide) (by decide) (by decide) (by decide) (by decide) (by decide)

theorem thirds_within_slack :
    ∃ h rows optBids, lpRows (withPrices cappedRun (pricesIn .test)) 3 threeCells (campConfig threeAds) SortedMap.empty
        budgetHour (sortedOrder _) = some (h, rows) ∧
      bidCalc halfUp (withPrices cappedRun (pricesIn .test)) 3 thirds = some optBids ∧
      (∀ san site rel, (Limited.placement san site, rel) ∈ allocationRows (withPrices cappedRun (pricesIn .test)) h →
        ∃ limit, rel.limit = some limit ∧ (rel.vars.map (recordedAlloc optBids)).sum ≤ limit + rel.vars.length / 40) ∧
      ∀ rel, ("auo".toList, rel) ∈ rows → ∃ amount, rel.limit = some amount ∧
        (rel.vars.map (recordedSpend optBids)).sum ≤ amount + (rel.terms.map Prod.fst).sum / 40 := by
  obtain ⟨h, rows, optBids, emitted, feasible, reports, run, -⟩ := thirds_run
  obtain ⟨placements, -, budgets⟩ := rounded_within_slack halfUp (pricesIn .test) cappedRun 3 threeCells _ _ _ _ h rows
    thirdsPoint thirds optBids emitted feasible reports run
  refine ⟨h, rows, optBids, emitted, run, placements, fun rel member => ?_⟩
  refine budgets pricesIn_loaded ⟨rfl, rfl⟩ thirds_nonneg _ rel member (by decide) ?_
  rintro c k ⟨⟨key, found⟩, -⟩ -
  have priced : ∀ entry ∈ threeCells.entries,
      pricedFrom (withPrices cappedRun (pricesIn .test)) entry.2 = some .test := by decide +kernel
  exact .inl (priced (key, c) (SortedMap.mem_entries.mpr found))

/-- Allocations of 0.08, 0.08 and 0.04 are recorded as 0.10, 0.10 and 0.05. -/
theorem rounding_exceeds_limit :
    LoadedPrices (pricesIn .test) ∧ NoMisdelivery cappedRun ∧
    ∃ h rows optBids, lpRows (withPrices cappedRun (pricesIn .test)) 3 threeCells (campConfig threeAds) SortedMap.empty
        budgetHour (sortedOrder _) = some (h, rows) ∧
      Feasible (relations (withPrices cappedRun (pricesIn .test)) h rows) thirdsPoint ∧
      Reports thirds thirdsPoint ((objective h).map Prod.snd) ∧
      bidCalc halfUp (withPrices cappedRun (pricesIn .test)) 3 thirds = some optBids ∧
      ∃ san site rel, (Limited.placement san site, rel) ∈ allocationRows (withPrices cappedRun (pricesIn .test)) h ∧
        rel.limit = some (1 / 5) ∧ ¬ (rel.vars.map (recordedAlloc optBids)).sum ≤ 1 / 5 := by
  obtain ⟨h, rows, optBids, emitted, feasible, reports, run, limitRows, recorded⟩ := thirds_run
  refine ⟨pricesIn_loaded, ⟨rfl, rfl⟩, h, rows, optBids, emitted, feasible, reports, run, "auo".toList,
    "20_5_300x250".toList, ⟨thirds.lines.map fun line => (1, line.1), some (1 / 5)⟩, ?_, rfl, ?_⟩
  · rw [limitRows]
    exact List.mem_singleton_self _
  · have names : Relation.vars ⟨thirds.lines.map fun line => ((1 : ℚ), line.1), some (1 / 5)⟩ =
        thirds.lines.map Prod.fst := by
      simp [Relation.vars, Function.comp_def]
    rw [names, recorded]
    norm_num

end Cdo.RoundedSolution
