import Cdo.QHatAggregations
import Cdo.Pooling

/-!
The conversion rate estimator (`Qhat` of `CDO_Q_Calc.pm`). Eight levels of history
are pooled one after the other, from the size on; each has a rate, the share of
its impressions that led to an action, and a precision that the rate is weighted
with. A level without data counts as a rate of 0 with precision 1. The cell's own
history is pooled with the level of site, size and segment. The precision has the
impressions without an action in a divisor. The cell's actions are cut to its
impressions first, those of a level are not: a level with one action more than
impressions stops the program, and one with still more has a negative precision
(`qhat_rated_iff`). Otherwise the estimate is a chain of averages (`qhatWith_eq`).
-/
namespace Cdo.Qhat
open Cdo.Text Cdo.Query Cdo.Tables Cdo.QHatAggregations Cdo.Pooling

/-! ### Levels -/

/-- Division, which stops the program at a zero divisor. -/
def divide (x y : ℚ) : Option ℚ := if y = 0 then none else some (x / y)

def noDivByZero (denom num sub : ℚ) : ℚ := if 0 < denom then num / denom else sub

def precision (n a : Int) (scale : ℚ) : Option ℚ :=
  (divide ((n + 2) ^ 2 * (n + 3)) ((a + 1) * (n - a + 1))).map (· * scale)

def HasData (e : Evidence) : Prop := 0 < e.cells ∧ 0 < e.n

instance (e : Evidence) : Decidable (HasData e) := inferInstanceAs (Decidable (_ ∧ _))

/-- The first level, that of the size. -/
def sizeLevel (beta : ℚ) (e : Evidence) : Option (Estimate ℚ) :=
  if HasData e then (precision e.n e.a (beta / e.cells)).map fun R => ⟨R, noDivByZero e.n e.a 0⟩
  else some ⟨1, 1 / 10 ^ 12⟩

/-- A level after the one before it. -/
def nextLevel (beta : ℚ) (e : Evidence) (prior : Estimate ℚ) : Option (Estimate ℚ) :=
  if HasData e then do
    let R ← precision e.n e.a (beta / e.cells)
    let qhat ← divide (R * (e.a / e.n) + prior.weight * prior.rate) (R + prior.weight)
    return ⟨R, qhat⟩
  else do
    let qhat ← divide (prior.weight * prior.rate) (1 + prior.weight)
    return ⟨1, 0 + qhat⟩

/-- The actions of a cell, cut to its impressions. -/
def cutActions (cell : Int × Int) : Int := if cell.1 < cell.2 then cell.1 else cell.2

def cellLevel (beta : ℚ) (cell : Int × Int) (prior : Estimate ℚ) : Option ℚ := do
  let n := cell.1
  let a := cutActions cell
  let R ← precision n a beta
  if 0 < n then divide (R * (a / n) + prior.weight * prior.rate) (R + prior.weight)
  else
    let qhat ← divide (prior.weight * prior.rate) (R + prior.weight)
    return 0 + qhat

/-! ### The estimate -/

/-- The level that an estimate is reported for. -/
inductive Status where
  | cell
  | level (level : Level)
deriving DecidableEq

def baseRate (e : Evidence) : ℚ := noDivByZero e.n e.a 0

/-- The levels in the order in which they are reported. -/
def statusLevels : List Level :=
  [.cpsSiteSegment, .cpsSegment, .cps, .siteSizeSegment, .siteSize, .siteSegment, .segment]

def qhatStatus (optData : OptData) (c : Cell) : Status :=
  if 0 < cutActions (qhatCell optData c) then .cell
  else .level ((statusLevels.find? fun level => 0 < baseRate (qhatLevel optData c level)).getD .size)

def nextLevels (beta : ℚ) (evidence : Level → Evidence) (levels : List Level) (prior : Estimate ℚ) :
    Option (Estimate ℚ) :=
  levels.foldlM (fun prior level => nextLevel beta (evidence level) prior) prior

/-- The levels after the size that the cell's history is pooled with. -/
def siteLevels : List Level := [.segment, .siteSegment, .siteSize, .siteSizeSegment]

def cpsLevels : List Level := [.cps, .cpsSegment, .cpsSiteSegment]

def qhatWith (beta : ℚ) (optData : OptData) (c : Cell) : Option (ℚ × Status) := do
  let zd ← sizeLevel beta (qhatLevel optData c .size)
  let sssd ← nextLevels beta (qhatLevel optData c) siteLevels zd
  -- the estimates of the campaign levels are computed and not used
  let _ ← nextLevels beta (qhatLevel optData c) cpsLevels sssd
  let qhat ← cellLevel beta (qhatCell optData c) sssd
  return (qhat, qhatStatus optData c)

/-- The scaling of the precisions. -/
def beta : ℚ := 1000000

def qhat (optData : OptData) (c : Cell) : Option (ℚ × Status) := qhatWith beta optData c

/-! ### Weights and rates -/

theorem noNull_nonneg (input : Option Int) : 0 ≤ noNull input 0 := by
  unfold noNull
  split_ifs with positive
  · exact positive.le
  · exact le_refl 0

theorem qhatLevel_nonneg (optData : OptData) (c : Cell) (level : Level) : 0 ≤ (qhatLevel optData c level).a := by
  cases level <;> exact noNull_nonneg _

/-- Where a level has data, its actions are at most its impressions. -/
def Fits (e : Evidence) : Prop := HasData e → e.a ≤ e.n

instance (e : Evidence) : Decidable (Fits e) := inferInstanceAs (Decidable (_ → _))

/-- The precision as a number. -/
def odds (n a : Int) : ℚ := (n + 2) ^ 2 * (n + 3) / ((a + 1) * (n - a + 1))

def weight (beta : ℚ) (e : Evidence) : ℚ := if HasData e then odds e.n e.a * (beta / e.cells) else 1

def rate (e : Evidence) : ℚ := if HasData e then e.a / e.n else 0

def item (beta : ℚ) (e : Evidence) : ℚ × ℚ := (weight beta e, rate e)

def start (beta : ℚ) (e : Evidence) : Estimate ℚ := ⟨weight beta e, if HasData e then rate e else 1 / 10 ^ 12⟩

def cellRate (cell : Int × Int) : ℚ := if 0 < cell.1 then cutActions cell / cell.1 else 0

def cellItem (beta : ℚ) (cell : Int × Int) : ℚ × ℚ := (odds cell.1 (cutActions cell) * beta, cellRate cell)

theorem divide_of_pos {x y : ℚ} (positive : 0 < y) : divide x y = some (x / y) := if_neg positive.ne'

section
variable {n a : Int}

theorem odds_divisor_pos (nonneg : 0 ≤ a) (within : a ≤ n) : (0 : ℚ) < (a + 1) * (n - a + 1) := by
  have first : (0 : ℚ) ≤ a := by exact_mod_cast nonneg
  have second : (a : ℚ) ≤ n := by exact_mod_cast within
  exact mul_pos (by linarith) (by linarith)

theorem odds_pos (nonneg : 0 ≤ a) (within : a ≤ n) : 0 < odds n a := by
  have impressions : (0 : ℚ) ≤ n := by exact_mod_cast nonneg.trans within
  exact div_pos (by positivity) (odds_divisor_pos nonneg within)

theorem precision_eq (nonneg : 0 ≤ a) (within : a ≤ n) (scale : ℚ) : precision n a scale = some (odds n a * scale) := by
  rw [precision, divide_of_pos (odds_divisor_pos nonneg within)]
  rfl

end

section
variable {beta : ℚ} {e : Evidence} {prior : Estimate ℚ}

theorem weight_pos (positive : 0 < beta) (nonneg : 0 ≤ e.a) (fits : Fits e) : 0 < weight beta e := by
  unfold weight
  split_ifs with data
  · have cells : (0 : ℚ) < e.cells := by exact_mod_cast data.1
    exact mul_pos (odds_pos nonneg (fits data)) (div_pos positive cells)
  · exact one_pos

theorem rate_nonneg (nonneg : 0 ≤ e.a) : 0 ≤ rate e := by
  unfold rate
  split_ifs with data
  · have impressions : (0 : ℚ) < e.n := by exact_mod_cast data.2
    exact div_nonneg (by exact_mod_cast nonneg) impressions.le
  · exact le_refl 0

theorem rate_le_one (fits : Fits e) : rate e ≤ 1 := by
  unfold rate
  split_ifs with data
  · have impressions : (0 : ℚ) < e.n := by exact_mod_cast data.2
    rw [div_le_one impressions]
    exact_mod_cast fits data
  · exact zero_le_one

theorem sizeLevel_eq (nonneg : 0 ≤ e.a) (fits : Fits e) : sizeLevel beta e = some (start beta e) := by
  unfold sizeLevel start
  by_cases data : HasData e
  · have impressions : (0 : ℚ) < e.n := by exact_mod_cast data.2
    simp only [if_pos data, precision_eq nonneg (fits data), Option.map_some, noDivByZero, if_pos impressions, weight, rate]
  · simp only [if_neg data, weight]

theorem nextLevel_eq (positive : 0 < beta) (nonneg : 0 ≤ e.a) (fits : Fits e) (priorPositive : 0 < prior.weight) :
    nextLevel beta e prior = some (pool prior (weight beta e) (rate e)) := by
  have weightPositive := weight_pos positive nonneg fits
  unfold nextLevel
  by_cases data : HasData e
  · have isWeight : odds e.n e.a * (beta / e.cells) = weight beta e := by rw [weight, if_pos data]
    have isRate : (e.a / e.n : ℚ) = rate e := by rw [rate, if_pos data]
    simp only [if_pos data, precision_eq nonneg (fits data), isWeight, isRate, Option.bind_eq_bind, Option.bind_some,
      divide_of_pos (add_pos weightPositive priorPositive)]
    rfl
  · have isWeight : weight beta e = 1 := if_neg data
    have isRate : rate e = 0 := if_neg data
    simp only [if_neg data, divide_of_pos (add_pos one_pos priorPositive), Option.bind_eq_bind, Option.bind_some, pool,
      isWeight, isRate, mul_zero, zero_add]
    rfl

theorem nextLevels_eq (positive : 0 < beta) {evidence : Level → Evidence} {levels : List Level}
    (nonneg : ∀ level, 0 ≤ (evidence level).a) (fits : ∀ level ∈ levels, Fits (evidence level))
    (priorPositive : 0 < prior.weight) :
    nextLevels beta evidence levels prior = some (chain prior (levels.map fun level => item beta (evidence level))) := by
  induction levels generalizing prior with
  | nil => rfl
  | cons level rest ih =>
    have here := fits level List.mem_cons_self
    rw [nextLevels, List.foldlM_cons, nextLevel_eq positive (nonneg level) here priorPositive]
    exact ih (fun other member => fits other (List.mem_cons_of_mem _ member)) (weight_pos positive (nonneg level) here)

end

section
variable {beta : ℚ} {cell : Int × Int} {prior : Estimate ℚ}

theorem cutActions_le (cell : Int × Int) : cutActions cell ≤ cell.1 := by
  unfold cutActions
  split_ifs with above
  · exact le_refl _
  · exact not_lt.mp above

theorem cutActions_nonneg (impressions : 0 ≤ cell.1) (actions : 0 ≤ cell.2) : 0 ≤ cutActions cell := by
  unfold cutActions
  split_ifs
  · exact impressions
  · exact actions

theorem qhatCell_nonneg (optData : OptData) (c : Cell) : 0 ≤ (qhatCell optData c).1 ∧ 0 ≤ (qhatCell optData c).2 :=
  ⟨noNull_nonneg _, noNull_nonneg _⟩

theorem cellWeight_pos (positive : 0 < beta) (nonneg : 0 ≤ cutActions cell) : 0 < (cellItem beta cell).1 :=
  mul_pos (odds_pos nonneg (cutActions_le cell)) positive

theorem cellRate_nonneg (nonneg : 0 ≤ cutActions cell) : 0 ≤ cellRate cell := by
  unfold cellRate
  split_ifs with impressions
  · exact div_nonneg (by exact_mod_cast nonneg) (by exact_mod_cast impressions.le)
  · exact le_refl 0

theorem cellRate_le_one (cell : Int × Int) : cellRate cell ≤ 1 := by
  unfold cellRate
  split_ifs with impressions
  · have some : (0 : ℚ) < cell.1 := by exact_mod_cast impressions
    rw [div_le_one some]
    exact_mod_cast cutActions_le cell
  · exact zero_le_one

theorem cellLevel_eq (positive : 0 < beta) (nonneg : 0 ≤ cutActions cell) (priorPositive : 0 < prior.weight) :
    cellLevel beta cell prior = some (pool prior (cellItem beta cell).1 (cellItem beta cell).2).rate := by
  have weightPositive := cellWeight_pos positive nonneg
  simp only [cellItem] at weightPositive
  simp only [cellLevel, precision_eq nonneg (cutActions_le cell), Option.bind_eq_bind, Option.bind_some, cellItem, pool,
    divide_of_pos (add_pos weightPositive priorPositive), cellRate]
  split_ifs with impressions
  · rfl
  · simp

end

/-! ### The whole chain -/

/-- The weights and rates that are pooled with the first level. -/
def items (beta : ℚ) (optData : OptData) (c : Cell) : List (ℚ × ℚ) :=
  siteLevels.map (fun level => item beta (qhatLevel optData c level)) ++ [cellItem beta (qhatCell optData c)]

section
variable {beta : ℚ} {optData : OptData} {c : Cell}

theorem start_weight_pos (positive : 0 < beta) (fits : ∀ level, Fits (qhatLevel optData c level)) :
    0 < (start beta (qhatLevel optData c .size)).weight :=
  weight_pos positive (qhatLevel_nonneg optData c .size) (fits .size)

theorem cell_nonneg (optData : OptData) (c : Cell) : 0 ≤ cutActions (qhatCell optData c) :=
  cutActions_nonneg (qhatCell_nonneg optData c).1 (qhatCell_nonneg optData c).2

theorem items_pos (positive : 0 < beta) (fits : ∀ level, Fits (qhatLevel optData c level)) :
    ∀ pooled ∈ items beta optData c, 0 < pooled.1 := by
  intro pooled member
  rcases List.mem_append.mp member with ofLevel | ofCell
  · obtain ⟨level, -, rfl⟩ := List.mem_map.mp ofLevel
    exact weight_pos positive (qhatLevel_nonneg optData c level) (fits level)
  · rw [List.mem_singleton.mp ofCell]
    exact cellWeight_pos positive (cell_nonneg optData c)

/-- Where the actions of all levels are at most their impressions, the estimate
    is the chain of averages. -/
theorem qhatWith_eq (positive : 0 < beta) (fits : ∀ level, Fits (qhatLevel optData c level)) :
    qhatWith beta optData c =
      some ((chain (start beta (qhatLevel optData c .size)) (items beta optData c)).rate, qhatStatus optData c) := by
  have nonneg := qhatLevel_nonneg optData c
  have levelsPositive : ∀ levels : List Level, ∀ pooled ∈ levels.map (fun level => item beta (qhatLevel optData c level)),
      0 < pooled.1 := by
    intro levels pooled member
    obtain ⟨level, -, rfl⟩ := List.mem_map.mp member
    exact weight_pos positive (nonneg level) (fits level)
  have startPositive := start_weight_pos positive fits
  have sssdPositive := chain_weight_pos (levelsPositive siteLevels) startPositive
  simp only [qhatWith, sizeLevel_eq (nonneg .size) (fits .size), Option.bind_eq_bind, Option.bind_some,
    nextLevels_eq positive nonneg (fun level _ => fits level) startPositive,
    nextLevels_eq positive nonneg (fun level _ => fits level) sssdPositive,
    cellLevel_eq positive (cell_nonneg optData c) sssdPositive, items, chain_append, chain_cons, chain_nil]
  rfl

/-- A level or the cell itself as a source of evidence. -/
theorem item_rate_mem {pooled : ℚ × ℚ} (member : pooled ∈ items beta optData c) :
    (∃ level ∈ siteLevels, pooled.2 = rate (qhatLevel optData c level)) ∨ pooled.2 = cellRate (qhatCell optData c) := by
  rcases List.mem_append.mp member with ofLevel | ofCell
  · obtain ⟨level, isLevel, rfl⟩ := List.mem_map.mp ofLevel
    exact .inl ⟨level, isLevel, rfl⟩
  · rw [List.mem_singleton.mp ofCell]
    exact .inr rfl

/-- No division by zero, and a rate. -/
def Rated (result : Option (ℚ × Status)) : Prop := ∃ qhat status, result = some (qhat, status) ∧ 0 ≤ qhat ∧ qhat ≤ 1

theorem rated_of_fits (positive : 0 < beta) (fits : ∀ level, Fits (qhatLevel optData c level)) :
    Rated (qhatWith beta optData c) := by
  have startPositive := start_weight_pos positive fits
  have itemsPositive := items_pos positive fits
  refine ⟨_, _, qhatWith_eq positive fits, ?_, ?_⟩
  · refine le_chain itemsPositive startPositive ?_ ?_
    · intro pooled member
      rcases item_rate_mem member with ⟨level, -, isRate⟩ | isRate
      · exact isRate ▸ rate_nonneg (qhatLevel_nonneg optData c level)
      · exact isRate ▸ cellRate_nonneg (cell_nonneg optData c)
    · unfold start
      split_ifs
      · exact rate_nonneg (qhatLevel_nonneg optData c .size)
      · norm_num
  · refine chain_le itemsPositive startPositive ?_ ?_
    · intro pooled member
      rcases item_rate_mem member with ⟨level, -, isRate⟩ | isRate
      · exact isRate ▸ rate_le_one (fits level)
      · exact isRate ▸ cellRate_le_one _
    · unfold start
      split_ifs
      · exact rate_le_one (fits .size)
      · norm_num

end

/-! ### Levels with more actions than impressions -/

/-- The precision of a level, or 1. -/
def levelWeight (beta : ℚ) (e : Evidence) : Option ℚ :=
  if HasData e then precision e.n e.a (beta / e.cells) else some 1

theorem sizeLevel_some {beta : ℚ} {e : Evidence} {zd : Estimate ℚ} (run : sizeLevel beta e = some zd) :
    levelWeight beta e = some zd.weight := by
  unfold sizeLevel at run
  unfold levelWeight
  split_ifs at run ⊢
  · obtain ⟨R, isR, rfl⟩ := Option.map_eq_some_iff.mp run
    exact isR
  · rw [← Option.some.inj run]

theorem divide_eq_some {x y z : ℚ} (run : divide x y = some z) : y ≠ 0 := by
  intro zero
  rw [divide, if_pos zero] at run
  cases run

/-- A level that is passed has its weight, which does not cancel the one before. -/
theorem nextLevel_some {beta : ℚ} {e : Evidence} {prior next : Estimate ℚ} (run : nextLevel beta e prior = some next) :
    levelWeight beta e = some next.weight ∧ next.weight + prior.weight ≠ 0 := by
  unfold nextLevel at run
  unfold levelWeight
  split_ifs at run ⊢
  · simp only [Option.bind_eq_bind, Option.bind_eq_some_iff, Option.pure_def, Option.some.injEq] at run
    obtain ⟨R, isR, qhat, quotient, rfl⟩ := run
    exact ⟨isR, divide_eq_some quotient⟩
  · simp only [Option.bind_eq_bind, Option.bind_eq_some_iff, Option.pure_def, Option.some.injEq] at run
    obtain ⟨qhat, quotient, rfl⟩ := run
    exact ⟨rfl, divide_eq_some quotient⟩

/-- The level before a level; for the first one, the level after it. -/
def neighbour : Level → Level
  | .size => .segment
  | .segment => .size
  | .siteSegment => .segment
  | .siteSize => .siteSegment
  | .siteSizeSegment => .siteSize
  | .cps => .siteSizeSegment
  | .cpsSegment => .cps
  | .cpsSiteSegment => .cpsSegment

/-- In a run that is not stopped no two neighbouring weights cancel. -/
theorem weights_of_some {beta : ℚ} {optData : OptData} {c : Cell} {result : ℚ × Status}
    (run : qhatWith beta optData c = some result) (level : Level) :
    ∃ R R', levelWeight beta (qhatLevel optData c level) = some R ∧
      levelWeight beta (qhatLevel optData c (neighbour level)) = some R' ∧ R + R' ≠ 0 := by
  simp only [qhatWith, nextLevels, siteLevels, cpsLevels, List.foldlM_cons, List.foldlM_nil, Option.bind_eq_bind,
    Option.bind_eq_some_iff, Option.pure_def, Option.some.injEq, exists_eq_right] at run
  obtain ⟨zd, isZd, sssd, ⟨sd, isSd, ssd, isSsd, szd, isSzd, isSssd⟩,
    ⟨cpsssd, ⟨cps, isCps, cpssd, isCpssd, isCpsssd⟩, -⟩⟩ := run
  have zdWeight := sizeLevel_some isZd
  have sdWeight := nextLevel_some isSd
  have ssdWeight := nextLevel_some isSsd
  have szdWeight := nextLevel_some isSzd
  have sssdWeight := nextLevel_some isSssd
  have cpsWeight := nextLevel_some isCps
  have cpssdWeight := nextLevel_some isCpssd
  have cpsssdWeight := nextLevel_some isCpsssd
  cases level with
  | size => exact ⟨_, _, zdWeight, sdWeight.1, by rw [add_comm]; exact sdWeight.2⟩
  | segment => exact ⟨_, _, sdWeight.1, zdWeight, sdWeight.2⟩
  | siteSegment => exact ⟨_, _, ssdWeight.1, sdWeight.1, ssdWeight.2⟩
  | siteSize => exact ⟨_, _, szdWeight.1, ssdWeight.1, szdWeight.2⟩
  | siteSizeSegment => exact ⟨_, _, sssdWeight.1, szdWeight.1, sssdWeight.2⟩
  | cps => exact ⟨_, _, cpsWeight.1, sssdWeight.1, cpsWeight.2⟩
  | cpsSegment => exact ⟨_, _, cpssdWeight.1, cpsWeight.1, cpssdWeight.2⟩
  | cpsSiteSegment => exact ⟨_, _, cpsssdWeight.1, cpssdWeight.1, cpsssdWeight.2⟩

/-- With one action more than impressions the divisor of the precision is 0. -/
theorem levelWeight_one_more {beta : ℚ} {e : Evidence} (data : HasData e) (more : e.a = e.n + 1) :
    levelWeight beta e = none := by
  have zero : ((e.a : ℚ) + 1) * (e.n - e.a + 1) = 0 := by
    rw [more]
    push_cast
    ring
  rw [levelWeight, if_pos data, precision, divide, if_pos zero]
  rfl

theorem levelWeight_eq {beta : ℚ} {e : Evidence} (data : HasData e) (nonneg : 0 ≤ e.a) (other : e.a ≠ e.n + 1) :
    levelWeight beta e = some (odds e.n e.a * (beta / e.cells)) := by
  have first : ((e.a : ℚ) + 1) ≠ 0 := by
    have : (0 : ℚ) ≤ e.a := by exact_mod_cast nonneg
    positivity
  have second : (e.n - e.a + 1 : ℚ) ≠ 0 := by
    intro zero
    have equal : (e.a : ℚ) = e.n + 1 := by linarith
    exact other (by exact_mod_cast equal)
  rw [levelWeight, if_pos data, precision, divide, if_neg (mul_ne_zero first second)]
  rfl

/-- Evidence whose weight is the opposite of a negative one. -/
def cancelling (e : Evidence) : Evidence :=
  let s := (e.n + 2) ^ 2 * (e.n + 3)
  ⟨s * (s - 2) - 2, s - 3, s * (s - 1) * ((e.a + 1) * (e.a - e.n - 1) * e.cells)⟩

section
variable {e : Evidence}

theorem cancelling_spec (data : HasData e) (more : e.n + 2 ≤ e.a) :
    HasData (cancelling e) ∧ 0 ≤ (cancelling e).a ∧ (cancelling e).a ≤ (cancelling e).n := by
  obtain ⟨cells, impressions⟩ := data
  obtain ⟨s, isS⟩ : ∃ s, s = (e.n + 2) ^ 2 * (e.n + 3) := ⟨_, rfl⟩
  have large : 36 ≤ s := by
    rw [isS]
    nlinarith
  have actions : 0 < (e.a + 1) * (e.a - e.n - 1) * e.cells :=
    mul_pos (mul_pos (by omega) (by omega)) cells
  simp only [cancelling, HasData, ← isS]
  refine ⟨⟨mul_pos (mul_pos (by omega) (by omega)) actions, ?_⟩, by omega, ?_⟩
  · nlinarith
  · nlinarith

/-- The two weights add up to 0. -/
theorem odds_cancelling (beta : ℚ) (data : HasData e) (more : e.n + 2 ≤ e.a) :
    odds e.n e.a * (beta / e.cells) + odds (cancelling e).n (cancelling e).a * (beta / (cancelling e).cells) = 0 := by
  obtain ⟨cells, impressions⟩ := data
  have cellsNe : (e.cells : ℚ) ≠ 0 := by exact_mod_cast cells.ne'
  have n1 : (1 : ℚ) ≤ e.n := by exact_mod_cast impressions
  have a1 : (e.n : ℚ) + 2 ≤ e.a := by exact_mod_cast more
  have firstNe : (e.a + 1 : ℚ) ≠ 0 := by linarith
  have secondNe : (e.n - e.a + 1 : ℚ) ≠ 0 := by linarith
  have thirdNe : (e.a - e.n - 1 : ℚ) ≠ 0 := by linarith
  obtain ⟨s, isS⟩ : ∃ s : ℚ, s = (e.n + 2) ^ 2 * (e.n + 3) := ⟨_, rfl⟩
  have large : 36 ≤ s := by
    rw [isS]
    nlinarith
  have s0 : s ≠ 0 := by linarith
  have s1 : s - 1 ≠ 0 := by linarith
  have s2 : s - 2 ≠ 0 := by linarith
  -- the numbers of the cancelling evidence, in terms of `s`
  have ownOdds : odds e.n e.a = -(s / ((e.a + 1) * (e.a - e.n - 1))) := by
    rw [odds, ← isS, ← neg_sub, ← div_neg]
    congr 1
    ring
  have otherOdds : odds (cancelling e).n (cancelling e).a = s ^ 2 * (s - 1) := by
    have top : (((cancelling e).n : ℚ) + 2) ^ 2 * ((cancelling e).n + 3) =
        s ^ 2 * (s - 1) * ((s - 2) * ((s - 1) * (s - 2))) := by
      simp only [cancelling]
      push_cast
      rw [← isS]
      ring
    have bottom : (((cancelling e).a : ℚ) + 1) * ((cancelling e).n - (cancelling e).a + 1) =
        (s - 2) * ((s - 1) * (s - 2)) := by
      simp only [cancelling]
      push_cast
      rw [← isS]
      ring
    rw [odds, top, bottom, mul_div_cancel_right₀ _ (by positivity)]
  have otherCells : ((cancelling e).cells : ℚ) = s * (s - 1) * ((e.a + 1) * (e.a - e.n - 1) * e.cells) := by
    simp only [cancelling]
    push_cast
    rw [← isS]
  rw [ownOdds, otherOdds, otherCells]
  field_simp
  ring

end

/-! ### Changed entries -/

/-- The data with another entry of a level for a cell. -/
def withLevel (optData : OptData) (c : Cell) (level : Level) (row : LevelRow) : OptData :=
  match level with
  | .size => { optData with size := optData.size.insert (zInd c) row }
  | .segment => { optData with segment := optData.segment.insert (sInd c) row }
  | .siteSegment => { optData with siteSegment := optData.siteSegment.insert (ssInd c) row }
  | .siteSize => { optData with siteSize := optData.siteSize.insert (szInd c) row }
  | .siteSizeSegment => { optData with siteSizeSegment := optData.siteSizeSegment.insert (sssInd c) row }
  | .cps => { optData with cps := optData.cps.insert (cpsInd c) row }
  | .cpsSegment => { optData with cpsSegment := optData.cpsSegment.insert (cpssInd c) row }
  | .cpsSiteSegment => { optData with cpsSiteSegment := optData.cpsSiteSegment.insert (cpsssInd c) row }

/-- The data with another entry of a cell. -/
def withCell (optData : OptData) (c : Cell) (kna : Kna) : OptData :=
  { optData with cellKNA := optData.cellKNA.insert (lpInd c) kna }

/-- What is read from an entry. -/
def evidenceOf (row : LevelRow) : Evidence := ⟨noNull row.n 0, noNull row.a 0, noNull row.cells 0⟩

def noData : OptData :=
  ⟨.empty, .empty, .empty, .empty, .empty, .empty, .empty, .empty, .empty⟩

@[simp] theorem qhatLevel_withLevel (optData : OptData) (c : Cell) (level other : Level) (row : LevelRow) :
    qhatLevel (withLevel optData c level row) c other =
      if other = level then evidenceOf row else qhatLevel optData c other := by
  cases level <;> cases other <;> simp [withLevel, qhatLevel, readLevel, evidenceOf]

@[simp] theorem qhatCell_withLevel (optData : OptData) (c : Cell) (level : Level) (row : LevelRow) :
    qhatCell (withLevel optData c level row) c = qhatCell optData c := by
  cases level <;> rfl

@[simp] theorem qhatLevel_withCell (optData : OptData) (c : Cell) (kna : Kna) (level : Level) :
    qhatLevel (withCell optData c kna) c level = qhatLevel optData c level := by
  cases level <;> rfl

@[simp] theorem qhatCell_withCell (optData : OptData) (c : Cell) (kna : Kna) :
    qhatCell (withCell optData c kna) c = (noNull kna.n 0, noNull kna.a 0) := by
  simp [qhatCell, withCell]

theorem noNull_some {i : Int} (nonneg : 0 ≤ i) : noNull (some i) 0 = i := by
  unfold noNull
  split_ifs with positive
  · rfl
  · exact le_antisymm nonneg (not_lt.mp positive)

/-- The entry that evidence is read from. -/
def rowOf (e : Evidence) : LevelRow := ⟨some e.n, some 0, some e.a, some e.cells⟩

theorem evidenceOf_rowOf {e : Evidence} (data : HasData e) (nonneg : 0 ≤ e.a) : evidenceOf (rowOf e) = e := by
  simp only [evidenceOf, rowOf, noNull_some data.2.le, noNull_some nonneg, noNull_some data.1.le]

theorem noData_level (c : Cell) (level : Level) : qhatLevel noData c level = Evidence.zero := by
  cases level <;> rfl

theorem fits_zero : Fits Evidence.zero := by decide

theorem neighbour_ne (level : Level) : neighbour level ≠ level := by
  cases level <;> decide

theorem stopped_of_one_more {beta : ℚ} {optData : OptData} {c : Cell} {level : Level}
    (data : HasData (qhatLevel optData c level))
    (oneMore : (qhatLevel optData c level).a = (qhatLevel optData c level).n + 1) : qhatWith beta optData c = none := by
  by_contra run
  obtain ⟨result, isResult⟩ := Option.ne_none_iff_exists'.mp run
  obtain ⟨R, R', isR, -⟩ := weights_of_some isResult level
  rw [levelWeight_one_more data oneMore] at isR
  cases isR

/-- Data in which an entry with more actions than impressions stops the program,
    while the actions of all other levels are at most their impressions. -/
theorem stopped_of_not_fits (c : Cell) (level : Level) (row : LevelRow) (unfit : ¬ Fits (evidenceOf row)) :
    ∃ optData, (∀ other, other ≠ level → Fits (qhatLevel optData c other)) ∧
      qhatWith beta (withLevel optData c level row) c = none := by
  obtain ⟨data, more⟩ : HasData (evidenceOf row) ∧ (evidenceOf row).n < (evidenceOf row).a := by
    simpa [Fits] using unfit
  by_cases oneMore : (evidenceOf row).a = (evidenceOf row).n + 1
  · have here : qhatLevel (withLevel noData c level row) c level = evidenceOf row := by
      rw [qhatLevel_withLevel, if_pos rfl]
    rw [← here] at data oneMore
    exact ⟨noData, fun other _ => by rw [noData_level]; exact fits_zero, stopped_of_one_more data oneMore⟩
  · obtain ⟨otherData, otherNonneg, otherWithin⟩ := cancelling_spec data (by omega)
    have read := evidenceOf_rowOf otherData otherNonneg
    refine ⟨withLevel noData c (neighbour level) (rowOf (cancelling (evidenceOf row))), ?_, ?_⟩
    · intro other _
      rw [qhatLevel_withLevel]
      split_ifs
      · rw [read]
        exact fun _ => otherWithin
      · rw [noData_level]
        exact fits_zero
    · by_contra run
      obtain ⟨result, isResult⟩ := Option.ne_none_iff_exists'.mp run
      obtain ⟨R, R', isR, isR', apart⟩ := weights_of_some isResult level
      rw [qhatLevel_withLevel, if_pos rfl, levelWeight_eq data (noNull_nonneg _) oneMore] at isR
      rw [qhatLevel_withLevel, if_neg (neighbour_ne level), qhatLevel_withLevel, if_pos rfl, read,
        levelWeight_eq otherData otherNonneg (by omega)] at isR'
      refine apart ?_
      rw [← Option.some.inj isR, ← Option.some.inj isR']
      exact odds_cancelling beta data (by omega)

/-- The estimate is a rate if the actions of every level with data are at most
    its impressions. For an entry of a level, this is also needed: otherwise there
    are entries of the other levels, with actions at most their impressions, for
    which the program divides by zero; with one action more than impressions it
    always does. -/
theorem qhat_rated_iff (optData : OptData) (c : Cell) :
    ((∀ level, Fits (qhatLevel optData c level)) → Rated (qhat optData c)) ∧
    (∀ level row,
      (∀ otherData, (∀ other, other ≠ level → Fits (qhatLevel otherData c other)) →
          Rated (qhat (withLevel otherData c level row) c)) ↔
        Fits (evidenceOf row)) ∧
    ∀ level, HasData (qhatLevel optData c level) →
      (qhatLevel optData c level).a = (qhatLevel optData c level).n + 1 → qhat optData c = none := by
  have positive : 0 < beta := by norm_num [beta]
  refine ⟨fun fits => rated_of_fits positive fits, fun level row => ⟨fun rated => ?_, ?_⟩,
    fun level data oneMore => stopped_of_one_more data oneMore⟩
  · by_contra unfit
    obtain ⟨otherData, others, stopped⟩ := stopped_of_not_fits c level row unfit
    obtain ⟨rate, status, run, -⟩ := rated otherData others
    rw [qhat, stopped] at run
    cases run
  · intro fits otherData others
    refine rated_of_fits positive fun other => ?_
    rw [qhatLevel_withLevel]
    split_ifs with same
    · exact fits
    · exact others other same

/-! ### A cell -/

def sampleCell : Cell := ⟨1, 11, 20, 5, size300x250, "auo".toList, 7, none⟩

/-- Data with an entry for the size of the sample cell only. -/
def sizeOnly (n a cells : Int) : OptData := withLevel noData sampleCell .size ⟨some n, some 0, some a, some cells⟩

theorem sizeOnly_fits {n a cells : Int} (within : Fits (evidenceOf ⟨some n, some 0, some a, some cells⟩)) (level : Level) :
    Fits (qhatLevel (sizeOnly n a cells) sampleCell level) := by
  rw [sizeOnly, qhatLevel_withLevel, noData_level]
  split_ifs
  · exact within
  · exact fits_zero

theorem qhat_rated_size_only :
    Rated (qhat (sizeOnly 1000 7 12) sampleCell) ∧ qhat (sizeOnly 3 4 1) sampleCell = none :=
  ⟨(qhat_rated_iff _ _).1 (sizeOnly_fits (by decide)), (qhat_rated_iff _ _).2.2 .size (by decide) (by decide)⟩

/-- Four actions on three impressions of the size stop the program; three on one
    give a negative rate if the segment has impressions. -/
theorem more_actions_unrated :
    ¬ Rated (qhat (sizeOnly 3 4 1) sampleCell) ∧
      ¬ Rated (qhat (withLevel (sizeOnly 1 3 1) sampleCell .segment ⟨some 100, some 0, some 0, some 1⟩) sampleCell) := by
  have stopped : qhat (sizeOnly 3 4 1) sampleCell = none := by decide +kernel
  have negative : ((qhat (withLevel (sizeOnly 1 3 1) sampleCell .segment ⟨some 100, some 0, some 0, some 1⟩)
      sampleCell).map fun result => decide (result.1 < 0)) = some true := by decide +kernel
  constructor
  · rintro ⟨rate, status, run, -⟩
    rw [stopped] at run
    cases run
  · rintro ⟨rate, status, run, nonneg, -⟩
    rw [run, Option.map_some, Option.some.injEq, decide_eq_true_iff] at negative
    exact absurd nonneg (not_le.mpr negative)

end Cdo.Qhat
