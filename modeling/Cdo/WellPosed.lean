import Cdo.Constraint

/-!
The hourly linear program is well posed when the tables hold no negative
entries (`well_posed`): every variable of the objective has a positive
coefficient there and in the budget row of its campaign, exactly one row limits
its allocation, allocating nothing meets every row, and the objective is
bounded.
-/
namespace Cdo.WellPosed
open Cdo.Text Cdo.Query Cdo.Tables Cdo.Params Cdo.Signals Cdo.LinearProgram Cdo.Objective Cdo.Constraint

def PriceNonneg (price : Price) : Prop := 0 ≤ num price.bid ∧ 0 ≤ num price.volume ∧ 0 ≤ num price.capped_volume

def SignalNonneg (signal : ImpSignal) : Prop := 0 ≤ num signal.hour_imps ∧ 0 ≤ num signal.total_imps

/-- A cap that is a number, and not a negative one. -/
def CapNonneg (allocation : Option Int) : Prop := ∃ hundredths, allocation = some hundredths ∧ 0 ≤ hundredths

/-- Tables without negative entries. -/
structure DataNonneg (d : RunData) : Prop where
  cost : ∀ key price, d.cost.get? key = some price → PriceNonneg price
  costAvg : ∀ key price, d.costAvg.get? key = some price → PriceNonneg price
  siteSegSignal : ∀ key signal, d.siteSegSignal.get? key = some signal → SignalNonneg signal
  networkSignal : ∀ hour signal, d.networkSignal.get? hour = some signal → SignalNonneg signal
  cellMaxAlpha : ∀ key allocation, d.cellMaxAlpha.get? key = some allocation → CapNonneg allocation
  campaignMaxAlpha : ∀ san allocation, d.campaignMaxAlpha.get? san = some allocation → CapNonneg allocation
  cellMdFactors : ∀ key ratio, d.cellMdFactors.get? key = some ratio → 0 ≤ ratio
  siteSegMdFactors : ∀ key ratio, d.siteSegMdFactors.get? key = some ratio → 0 ≤ ratio

instance (price : Price) : Decidable (PriceNonneg price) := inferInstanceAs (Decidable (_ ∧ _ ∧ _))

instance (signal : ImpSignal) : Decidable (SignalNonneg signal) := inferInstanceAs (Decidable (_ ∧ _))

instance (allocation : Option Int) : Decidable (CapNonneg allocation) :=
  decidable_of_iff (∃ hundredths ∈ allocation, 0 ≤ hundredths) Iff.rfl

theorem dataNonneg_of_entries {d : RunData} (cost : ∀ entry ∈ d.cost.entries, PriceNonneg entry.2)
    (costAvg : ∀ entry ∈ d.costAvg.entries, PriceNonneg entry.2)
    (siteSegSignal : ∀ entry ∈ d.siteSegSignal.entries, SignalNonneg entry.2)
    (networkSignal : ∀ entry ∈ d.networkSignal.entries, SignalNonneg entry.2)
    (cellMaxAlpha : ∀ entry ∈ d.cellMaxAlpha.entries, CapNonneg entry.2)
    (campaignMaxAlpha : ∀ entry ∈ d.campaignMaxAlpha.entries, CapNonneg entry.2)
    (cellMdFactors : ∀ entry ∈ d.cellMdFactors.entries, 0 ≤ entry.2)
    (siteSegMdFactors : ∀ entry ∈ d.siteSegMdFactors.entries, 0 ≤ entry.2) : DataNonneg d where
  cost _ _ found := cost _ (SortedMap.mem_entries.mpr found)
  costAvg _ _ found := costAvg _ (SortedMap.mem_entries.mpr found)
  siteSegSignal _ _ found := siteSegSignal _ (SortedMap.mem_entries.mpr found)
  networkSignal _ _ found := networkSignal _ (SortedMap.mem_entries.mpr found)
  cellMaxAlpha _ _ found := cellMaxAlpha _ (SortedMap.mem_entries.mpr found)
  campaignMaxAlpha _ _ found := campaignMaxAlpha _ (SortedMap.mem_entries.mpr found)
  cellMdFactors _ _ found := cellMdFactors _ (SortedMap.mem_entries.mpr found)
  siteSegMdFactors _ _ found := siteSegMdFactors _ (SortedMap.mem_entries.mpr found)

/-- The relations of `lp_main.lp` after the objective, in the order of the file. -/
def relations (d : RunData) (h : LpHashes) (rows : List (Str × Relation Str)) : List (Relation Str) :=
  rows.map Prod.snd ++ (allocationRows d h).map Prod.snd

/-! ### Signs -/

section
variable {d : RunData} {hour : Nat} {cells : SortedMap Str Cell} {h : LpHashes} {config : SortedMap Str (Option Int)}
  {b : SortedMap Str BudgetSignal} {n : SortedMap Nat BudgetSignal} {order : config.Listing}
  {rows : List (Str × Relation Str)} {c : Cell} {k : Coefficients}

theorem quotient_nonneg {a b : Int} {q : ℚ} (aNonneg : 0 ≤ a) (bNonneg : 0 ≤ b) (found : quotient a b = some q) :
    0 ≤ q := by
  unfold quotient at found
  split_ifs at found with zero
  obtain rfl := Option.some.inj found
  exact div_nonneg (Int.cast_nonneg aNonneg) (Int.cast_nonneg bNonneg)

theorem networkImps_nonneg (nonneg : DataNonneg d) {q : ℚ} (found : networkImps d.networkSignal hour = some q) :
    0 ≤ q := by
  unfold networkImps at found
  cases signal : d.networkSignal.get? hour with
  | none => simp [signal, quotient] at found
  | some entry =>
    obtain ⟨imps, total⟩ := nonneg.networkSignal hour entry signal
    rw [signal] at found
    exact quotient_nonneg imps total found

theorem impFactor_nonneg (nonneg : DataNonneg d) {imp_factor : ℚ} (found : impFactor d hour c = some imp_factor) :
    0 ≤ imp_factor := by
  unfold impFactor impSignal at found
  split at found
  · rename_i entry signal
    split_ifs at found with zero
    · exact networkImps_nonneg nonneg found
    · obtain ⟨imps, total⟩ := nonneg.siteSegSignal _ entry signal
      exact quotient_nonneg imps total found
  · exact networkImps_nonneg nonneg found

theorem mdFactor_nonneg (nonneg : DataNonneg d) (c : Cell) : 0 ≤ mdFactor d c := by
  unfold mdFactor mdRatio
  split
  · rename_i ratio found
    exact nonneg.cellMdFactors _ ratio found
  · split
    · rename_i ratio found
      exact nonneg.siteSegMdFactors _ ratio found
    · exact zero_le_one

theorem spend_pos (nonneg : DataNonneg d) (enters : Enters d hour cells c k) : 0 < k.spend := by
  obtain ⟨spends, worth, imp_factor, imp, rfl⟩ := coefficients_eq_some.mp enters.2
  have impNonneg := impFactor_nonneg nonneg imp
  have mdNonneg := mdFactor_nonneg nonneg c
  have impPos : 0 < imp_factor := by
    refine lt_of_le_of_ne impNonneg fun zero => ?_
    simp [coefficientsAt, ← zero] at worth
  have mdPos : 0 < mdFactor d c := by
    refine lt_of_le_of_ne mdNonneg fun zero => ?_
    simp [coefficientsAt, ← zero] at worth
  exact mul_pos (mul_pos spends impPos) mdPos

theorem capLimit_nonneg {allocation : Option Int} (nonneg : CapNonneg allocation) :
    ∃ limit, capLimit allocation = some limit ∧ 0 ≤ limit := by
  obtain ⟨hundredths, rfl, sign⟩ := nonneg
  exact ⟨hundredths / 100, rfl, div_nonneg (Int.cast_nonneg sign) (by norm_num)⟩

theorem campaignLimit_nonneg (nonneg : DataNonneg d) (san : Str) :
    ∃ limit, campaignLimit d san = some limit ∧ 0 ≤ limit := by
  unfold campaignLimit
  split
  · rename_i allocation found
    exact capLimit_nonneg (nonneg.campaignMaxAlpha san allocation found)
  · exact ⟨1 / 5, rfl, by norm_num⟩

/-- Every allocation row has a limit, and not a negative one. -/
theorem allocationRow_limit (nonneg : DataNonneg d) {row : Limited × Relation Str} (member : row ∈ allocationRows d h) :
    ∃ limit, row.2.limit = some limit ∧ 0 ≤ limit := by
  rcases List.mem_append.mp member with placement | cell
  · obtain ⟨limited, r⟩ := row
    obtain ⟨san, site, vars, -, -, -, rfl⟩ := mem_placementRows.mp placement
    exact campaignLimit_nonneg nonneg san
  · obtain ⟨⟨name, allocation⟩, capMember, rfl⟩ := List.mem_map.mp cell
    exact capLimit_nonneg (nonneg.cellMaxAlpha name allocation (SortedMap.mem_entries.mp capMember))

theorem one_le_budgetAmount {totalbudget : Option Int} {san : Str} {amount : ℚ}
    (found : budgetAmount totalbudget b n san hour = some amount) : 1 ≤ amount := by
  obtain ⟨share, -, rfl⟩ := Option.map_eq_some_iff.mp found
  unfold greaterOf
  split_ifs with above
  · exact above.le
  · exact le_refl 1

/-- Every budget row has a limit of at least 1. -/
theorem budgetRow_limit (printed : lpConstraint h.budgetConstraint config b n hour order.keys = some rows)
    {row : Str × Relation Str} (member : row ∈ rows) : ∃ limit, row.2.limit = some limit ∧ 1 ≤ limit := by
  obtain ⟨san, r⟩ := row
  obtain ⟨-, -, amount, budget, rfl⟩ := (mem_lpConstraint printed).mp member
  exact ⟨amount, rfl, one_le_budgetAmount budget⟩

theorem zero_holds {r : Relation Str} {limit : ℚ} (rLimit : r.limit = some limit) (nonneg : 0 ≤ limit) :
    r.Holds fun _ => 0 := by
  refine ⟨limit, rLimit, ?_⟩
  rw [total_eq_zero fun _ _ => rfl]
  exact nonneg

/-- Allocating nothing meets every row. -/
theorem zero_feasible (nonneg : DataNonneg d)
    (printed : lpConstraint h.budgetConstraint config b n hour order.keys = some rows) :
    Feasible (relations d h rows) fun _ => 0 := by
  refine ⟨fun _ => le_refl 0, ?_⟩
  intro r member
  rcases List.mem_append.mp member with budget | allocation
  · obtain ⟨row, rowMember, rfl⟩ := List.mem_map.mp budget
    obtain ⟨limit, rLimit, least⟩ := budgetRow_limit printed rowMember
    exact zero_holds rLimit (zero_le_one.trans least)
  · obtain ⟨row, rowMember, rfl⟩ := List.mem_map.mp allocation
    obtain ⟨limit, rLimit, sign⟩ := allocationRow_limit nonneg rowMember
    exact zero_holds rLimit sign

theorem allocationRow_exists (run : lpObj d hour cells = some h) (enters : Enters d hour cells c k) :
    ∃ row ∈ allocationRows d h, (1, lpVarMain c) ∈ row.2.terms := by
  cases capped : d.cellMaxAlpha.get? (lpVarMain c) with
  | some allocation =>
    have only := allocationRow_capped run capped
    exact ⟨_, List.mem_of_mem_filter (only ▸ List.mem_singleton_self _), List.mem_singleton_self _⟩
  | none =>
    obtain ⟨r, only, -, term, -⟩ := allocationRow_uncapped run enters capped
    exact ⟨_, List.mem_of_mem_filter (only ▸ List.mem_singleton_self _), term⟩

/-- An allocation row that holds limits each of its variables. -/
theorem le_limit_of_holds {x : Str → ℚ} (nonneg : ∀ v, 0 ≤ x v) {row : Limited × Relation Str}
    (member : row ∈ allocationRows d h) (holds : row.2.Holds x) {v : Str} (term : (1, v) ∈ row.2.terms) :
    ∃ limit, row.2.limit = some limit ∧ x v ≤ limit := by
  obtain ⟨limit, rLimit, below⟩ := holds
  have least : 1 * x v ≤ total x row.2.terms := by
    refine term_le_total nonneg ?_ term
    intro other otherMember
    rw [allocationRow_coeffs member other otherMember]
    exact zero_le_one
  exact ⟨limit, rLimit, by linarith⟩

theorem allocationRow_feasible {x : Str → ℚ} (feasible : Feasible (relations d h rows) x) {row : Limited × Relation Str}
    (member : row ∈ allocationRows d h) : row.2.Holds x :=
  feasible.2 row.2 (List.mem_append_right _ (List.mem_map.mpr ⟨row, member, rfl⟩))

/-- The allocation row of a variable bounds it at every feasible point. -/
theorem variable_bounded (run : lpObj d hour cells = some h) (enters : Enters d hour cells c k) :
    ∃ limit, ∀ x, Feasible (relations d h rows) x → x (lpVarMain c) ≤ limit := by
  obtain ⟨row, member, term⟩ := allocationRow_exists run enters
  refine ⟨row.2.limit.getD 0, fun x feasible => ?_⟩
  obtain ⟨limit, rLimit, below⟩ := le_limit_of_holds feasible.1 member (allocationRow_feasible feasible member) term
  rw [rLimit, Option.getD_some]
  exact below

end

/-- The program is well posed. -/
theorem well_posed (d : RunData) (hour : Nat) (cells : SortedMap Str Cell) (config : SortedMap Str (Option Int))
    (b : SortedMap Str BudgetSignal) (n : SortedMap Nat BudgetSignal) (order : config.Listing) (h : LpHashes)
    (rows : List (Str × Relation Str)) (nonneg : DataNonneg d)
    (emitted : lpRows d hour cells config b n order = some (h, rows)) :
    ((objective h).map Prod.snd).Nodup ∧
    (∀ a v, (a, v) ∈ objective h → 0 < a ∧ ∃ key c, cells.get? key = some c ∧ lpVarMain c = v ∧
      (∀ allocation, d.cellMaxAlpha.get? v = some allocation →
        (allocationRows d h).filter (fun row => row.2.Mentions v) = [cellRow (v, allocation)]) ∧
      (d.cellMaxAlpha.get? v = none →
        ∃ r, (allocationRows d h).filter (fun row => row.2.Mentions v) = [(.placement c.san (invIndex c), r)]) ∧
      ∀ r, (c.san, r) ∈ rows → 0 < r.coeff v) ∧
    Feasible (relations d h rows) (fun _ => 0) ∧
    ∃ most, ∀ x, Feasible (relations d h rows) x → total x (objective h) ≤ most := by
  obtain ⟨run, printed⟩ := lpRows_eq_some.mp emitted
  have positive : ∀ term ∈ objective h, 0 < term.1 := by
    rintro ⟨a, v⟩ member
    obtain ⟨c, k, enters, -, rfl⟩ := mem_objective run member
    exact (coefficients_eq_some.mp enters.2).2.1
  refine ⟨nodup_objective run, ?_, zero_feasible nonneg printed, ?_⟩
  · intro a v member
    obtain ⟨c, k, enters, rfl, -⟩ := mem_objective run member
    obtain ⟨key, found⟩ := enters.1
    refine ⟨positive _ member, key, c, found, rfl, fun allocation capped => allocationRow_capped run capped, ?_, ?_⟩
    · intro uncapped
      obtain ⟨r, only, -⟩ := allocationRow_uncapped run enters uncapped
      exact ⟨r, only⟩
    · intro r rowMember
      rw [(budget_row run printed enters rowMember).2]
      exact spend_pos nonneg enters
  · refine exists_bound (fun term member => (positive term member).le) ?_
    rintro ⟨a, v⟩ member
    obtain ⟨c, k, enters, rfl, -⟩ := mem_objective run member
    exact variable_bounded run enters

/-! ### Three cells on two placements -/

/-- Two ads of one size in a campaign. -/
def sharedAds : List Media := [⟨11, size300x250, "auo".toList, some 1, 1⟩, ⟨12, size300x250, "auo".toList, some 1, 1⟩]

/-- A cell of each ad on one placement, and another cell of the second ad. -/
def sharedCells : List CdoCell :=
  [⟨7, 11, 20, 5, some 1, some 0⟩, ⟨8, 12, 20, 5, some 1, some 0⟩, ⟨9, 12, 21, 5, some 1, some 0⟩]

theorem sharedAds_key : (sharedAds.map Media.adid).Nodup := by decide

theorem sharedCells_key : (sharedCells.map CdoCell.cellid).Nodup := by decide

def sharedPlacement : Network where
  campaign := (withApi 1).campaign
  media := sharedAds
  cdoCells := sharedCells
  campaign_key := (withApi 1).campaign_key
  media_key := sharedAds_key
  cdoCells_key := sharedCells_key

/-- A cap for the campaign and one for the cell that is alone on its placement. -/
def bothCaps : Caps where
  cellAllocation := [⟨"auo".toList, 12, 21, 5, size300x250, some 20⟩]
  campaignAllocation := campaignCap.campaignAllocation
  cell_key := List.nodup_singleton _
  campaign_key := campaignCap.campaign_key

/-- One price on both placements. -/
def sharedPrices : List TestRow :=
  [⟨"auo".toList, 20, 5, size300x250, ⟨some 150, 20, some 5000, some 4000⟩⟩,
    ⟨"auo".toList, 21, 5, size300x250, ⟨some 150, 20, some 5000, some 4000⟩⟩]

theorem sharedPrices_key :
    (sharedPrices.map fun row => (row.san, row.siteid, row.segmentid, row.size, row.price.allocation)).Nodup := by
  decide

def twoPrices : PriceVolume := ⟨sharedPrices, (priced 5).avg, sharedPrices_key, (priced 5).avg_key⟩

def sharedRun : RunData where
  cost := (getCostData twoPrices).1
  costAvg := (getCostData twoPrices).2
  siteSegSignal := SortedMap.empty
  networkSignal := oneHour
  cellMaxAlpha := cellMaxAlpha sharedPlacement bothCaps
  campaignMaxAlpha := campaignMaxAlpha sharedPlacement bothCaps
  cellMdFactors := SortedMap.empty
  siteSegMdFactors := SortedMap.empty

def emittedShared : Option (LpHashes × List (Str × Relation Str)) :=
  lpRows sharedRun 3 (getCellData sharedPlacement fun _ => some (1 / 100)) (campConfig sharedPlacement)
    SortedMap.empty budgetHour (sortedOrder _)

theorem sharedRun_nonneg : DataNonneg sharedRun :=
  dataNonneg_of_entries (by decide) (by decide) (by decide) (by decide) (by decide) (by decide) (by decide) (by decide)

/-- The variables of the three cells. -/
theorem emittedShared_variables :
    emittedShared.map (fun program => (objective program.1).map Prod.snd) =
      some ["auo_11_20_5_300x250".toList, "auo_12_20_5_300x250".toList, "auo_12_21_5_300x250".toList] := by
  decide +kernel

theorem sharedPlacement_cells :
    ∀ entry ∈ (getCellData sharedPlacement fun _ => some (1 / 100)).entries, entry.2.san = "auo".toList ∧
      (lpVarMain entry.2 ≠ "auo_12_21_5_300x250".toList → invIndex entry.2 = "20_5_300x250".toList) := by
  decide +kernel

theorem sharedRun_caps :
    sharedRun.cellMaxAlpha.get? "auo_12_21_5_300x250".toList = some (some 20) ∧
      sharedRun.cellMaxAlpha.get? "auo_11_20_5_300x250".toList = none ∧
      sharedRun.cellMaxAlpha.get? "auo_12_20_5_300x250".toList = none := by
  decide +kernel

/-- Two cells share the row of their placement, the capped one has a row of its own. -/
theorem well_posed_priced_run :
    ∃ h rows, emittedShared = some (h, rows) ∧ ((objective h).map Prod.snd).Nodup ∧
      (∀ v ∈ ["auo_11_20_5_300x250".toList, "auo_12_20_5_300x250".toList], ∃ r,
        (allocationRows sharedRun h).filter (fun row => row.2.Mentions v) =
          [(.placement "auo".toList "20_5_300x250".toList, r)]) ∧
      (allocationRows sharedRun h).filter (fun row => row.2.Mentions "auo_12_21_5_300x250".toList) =
        [cellRow ("auo_12_21_5_300x250".toList, some 20)] ∧
      (∀ a v, (a, v) ∈ objective h → 0 < a ∧ ∀ r, ("auo".toList, r) ∈ rows → 0 < r.coeff v) ∧
      Feasible (relations sharedRun h rows) (fun _ => 0) ∧
      ∃ most, ∀ x, Feasible (relations sharedRun h rows) x → total x (objective h) ≤ most := by
  obtain ⟨⟨h, rows⟩, emitted, names⟩ := Option.map_eq_some_iff.mp emittedShared_variables
  obtain ⟨once, limited, feasible, bounded⟩ := well_posed sharedRun 3 _ _ _ _ _ h rows sharedRun_nonneg emitted
  obtain ⟨capped, first, second⟩ := sharedRun_caps
  have entered : ∀ v ∈ ["auo_11_20_5_300x250".toList, "auo_12_20_5_300x250".toList, "auo_12_21_5_300x250".toList],
      ∃ a, (a, v) ∈ objective h := by
    intro v member
    rw [← names] at member
    obtain ⟨⟨a, v⟩, inObjective, rfl⟩ := List.mem_map.mp member
    exact ⟨a, inObjective⟩
  refine ⟨h, rows, emitted, once, ?_, ?_, ?_, feasible, bounded⟩
  · intro v member
    obtain ⟨a, inObjective⟩ := entered v (List.mem_append_left ["auo_12_21_5_300x250".toList] member)
    obtain ⟨-, key, c, found, isName, -, uncapped, -⟩ := limited a v inObjective
    obtain ⟨san, placement⟩ := sharedPlacement_cells (key, c) (SortedMap.mem_entries.mpr found)
    have other : v ≠ "auo_12_21_5_300x250".toList ∧ sharedRun.cellMaxAlpha.get? v = none := by
      obtain rfl | rfl := List.mem_pair.mp member
      · exact ⟨by decide, first⟩
      · exact ⟨by decide, second⟩
    obtain ⟨r, only⟩ := uncapped other.2
    rw [san, placement (isName ▸ other.1)] at only
    exact ⟨r, only⟩
  · obtain ⟨a, inObjective⟩ := entered "auo_12_21_5_300x250".toList (by decide)
    obtain ⟨-, key, c, found, isName, isCapped, -, -⟩ := limited a _ inObjective
    exact isCapped _ capped
  · intro a v inObjective
    obtain ⟨positive, key, c, found, isName, -, -, budget⟩ := limited a v inObjective
    obtain ⟨san, -⟩ := sharedPlacement_cells (key, c) (SortedMap.mem_entries.mpr found)
    rw [san] at budget
    exact ⟨positive, budget⟩
end Cdo.WellPosed
