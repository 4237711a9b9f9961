import Cdo.Qhat

/-!
What the estimated conversion rate is worth. If the actions of every level are at
most its impressions, the estimate lies between the rates of the evidence that it
pools (`qhat_enclosed`). It also grows with the actions of the cell
(`more_actions_raise_qhat`), although the cell's weight falls with them up to half
of its impressions: with a prior rate between 0 and 1 the gain in the rate
outweighs the loss of weight (`pool_odds_lt`).
-/
namespace Cdo.QhatBounds
open Cdo.Text Cdo.Query Cdo.Tables Cdo.QHatAggregations Cdo.Pooling Cdo.Qhat

/-- The actions of every level are at most its impressions. -/
def Within (optData : OptData) (c : Cell) : Prop :=
  ∀ level, (qhatLevel optData c level).a ≤ (qhatLevel optData c level).n

theorem Within.fits {optData : OptData} {c : Cell} (within : Within optData c) (level : Level) :
    Fits (qhatLevel optData c level) := fun _ => within level

theorem beta_pos : 0 < beta := by norm_num [beta]

/-! ### Between the rates of the evidence -/

/-- The levels that are pooled with the cell's history. -/
def pooledLevels : List Level := .size :: siteLevels

section
variable {optData : OptData} {c : Cell}

theorem qhat_le_evidence (within : Within optData c) {q : ℚ} {status : Status} (run : qhat optData c = some (q, status)) :
    q ≤ 1 / 10 ^ 12 ∨
      (∃ level ∈ pooledLevels, HasData (qhatLevel optData c level) ∧ q ≤ rate (qhatLevel optData c level)) ∨
      (0 < (qhatCell optData c).1 ∧ q ≤ cellRate (qhatCell optData c)) := by
  rw [qhat, qhatWith_eq beta_pos within.fits, Option.some.injEq, Prod.mk.injEq] at run
  by_contra above
  simp only [not_or, not_exists, not_and, not_le] at above
  obtain ⟨aboveDefault, aboveLevels, aboveCell⟩ := above
  have positive : 0 < q := lt_trans (by norm_num) aboveDefault
  have below : (chain (start beta (qhatLevel optData c .size)) (items beta optData c)).rate < q := by
    refine chain_lt (items_pos beta_pos within.fits) (start_weight_pos beta_pos within.fits) ?_ ?_
    · intro pooled member
      rcases item_rate_mem member with ⟨level, isLevel, isRate⟩ | isRate
      · rw [isRate]
        by_cases data : HasData (qhatLevel optData c level)
        · exact aboveLevels level (List.mem_cons_of_mem _ isLevel) data
        · rw [rate, if_neg data]
          exact positive
      · rw [isRate]
        by_cases impressions : 0 < (qhatCell optData c).1
        · exact aboveCell impressions
        · rw [cellRate, if_neg impressions]
          exact positive
    · by_cases data : HasData (qhatLevel optData c .size)
      · simp only [start, if_pos data]
        exact aboveLevels .size List.mem_cons_self data
      · simp only [start, if_neg data]
        exact aboveDefault
  exact absurd run.1 below.ne

theorem evidence_le_qhat (within : Within optData c) {q : ℚ} {status : Status} (run : qhat optData c = some (q, status))
    (size : HasData (qhatLevel optData c .size)) :
    (∃ level ∈ pooledLevels, rate (qhatLevel optData c level) ≤ q) ∨ cellRate (qhatCell optData c) ≤ q := by
  rw [qhat, qhatWith_eq beta_pos within.fits, Option.some.injEq, Prod.mk.injEq] at run
  by_contra below
  simp only [not_or, not_exists, not_and, not_le] at below
  obtain ⟨belowLevels, belowCell⟩ := below
  have above : q < (chain (start beta (qhatLevel optData c .size)) (items beta optData c)).rate := by
    refine lt_chain (items_pos beta_pos within.fits) (start_weight_pos beta_pos within.fits) ?_ ?_
    · intro pooled member
      rcases item_rate_mem member with ⟨level, isLevel, isRate⟩ | isRate
      · exact isRate ▸ belowLevels level (List.mem_cons_of_mem _ isLevel)
      · exact isRate ▸ belowCell
    · simp only [start, if_pos size]
      exact belowLevels .size List.mem_cons_self
  exact absurd run.1 above.ne'

end

/-- The estimate is at most 1e-12 or the rate of a level or of the cell that has
    data; if all of them have data it is also at least the rate of one of them. -/
theorem qhat_enclosed (optData : OptData) (c : Cell) (within : Within optData c) :
    ∃ q status, qhat optData c = some (q, status) ∧
      (q ≤ 1 / 10 ^ 12 ∨
        (∃ level ∈ pooledLevels, HasData (qhatLevel optData c level) ∧ q ≤ rate (qhatLevel optData c level)) ∨
        (0 < (qhatCell optData c).1 ∧ q ≤ cellRate (qhatCell optData c))) ∧
      ((∀ level ∈ pooledLevels, HasData (qhatLevel optData c level)) → 0 < (qhatCell optData c).1 →
        (∃ level ∈ pooledLevels, rate (qhatLevel optData c level) ≤ q) ∨ cellRate (qhatCell optData c) ≤ q) := by
  obtain ⟨q, status, run, -⟩ := rated_of_fits beta_pos within.fits
  refine ⟨q, status, run, qhat_le_evidence within run, fun data _ => ?_⟩
  exact evidence_le_qhat within run (data .size List.mem_cons_self)

/-! ### Actions of the cell -/

/-- A pooled rate with the weight of odds, cleared of the divisor of the odds. -/
theorem pool_odds {c d x w p : ℚ} (positive : 0 < d) : (pool ⟨w, p⟩ (c / d) x).rate = (c * x + w * p * d) / (c + w * d) := by
  have top : (c / d * x + w * p) * d = c * x + w * p * d := by field_simp
  have bottom : (c / d + w) * d = c + w * d := by field_simp
  show (c / d * x + w * p) / (c / d + w) = _
  rw [← top, ← bottom, mul_div_mul_right _ _ positive.ne']

/-- Among impressions with more actions the pooled rate is higher. -/
theorem pool_odds_lt {n a a' : Int} {scale w p : ℚ} (impressions : 0 < n) (nonneg : 0 ≤ a) (more : a < a') (within : a' ≤ n)
    (scalePositive : 0 < scale) (weightPositive : 0 < w) (rateNonneg : 0 ≤ p) (rateLe : p ≤ 1) :
    (pool ⟨w, p⟩ (odds n a * scale) (a / n)).rate < (pool ⟨w, p⟩ (odds n a' * scale) (a' / n)).rate := by
  have n0 : (0 : ℚ) < n := by exact_mod_cast impressions
  have a0 : (0 : ℚ) ≤ a := by exact_mod_cast nonneg
  have step : (0 : ℚ) < a' - a := sub_pos.mpr (by exact_mod_cast more)
  have rest : (0 : ℚ) ≤ n - a' := sub_nonneg.mpr (by exact_mod_cast within)
  have divisor := odds_divisor_pos nonneg (more.le.trans within)
  have divisor' := odds_divisor_pos (nonneg.trans more.le) within
  obtain ⟨top, isTop⟩ : ∃ top : ℚ, top = (n + 2) ^ 2 * (n + 3) * scale := ⟨_, rfl⟩
  have topPositive : 0 < top := by
    rw [isTop]
    positivity
  have weights : ∀ x : Int, odds n x * scale = top / ((x + 1) * (n - x + 1)) := by
    intro x
    rw [odds, isTop, div_mul_eq_mul_div]
  rw [weights, weights, pool_odds divisor, pool_odds divisor', div_lt_div_iff₀ (by positivity) (by positivity)]
  -- the gain is linear in the prior rate and positive at both ends of its range
  have gain : 0 < (1 - p) * (n + 1 + a * a') + p * ((n - a) * (n - a') + n + 1) := by
    have first : (0 : ℚ) < n + 1 + a * a' := by nlinarith
    have second : (0 : ℚ) < (n - a) * (n - a') + n + 1 := by nlinarith
    rcases rateNonneg.eq_or_lt with zero | positive
    · rw [← zero]
      linarith
    · exact add_pos_of_nonneg_of_pos (mul_nonneg (by linarith) first.le) (mul_pos positive second)
  have difference : (top * (a' / n) + w * p * ((a' + 1) * (n - a' + 1))) * (top + w * ((a + 1) * (n - a + 1))) -
      (top * (a / n) + w * p * ((a + 1) * (n - a + 1))) * (top + w * ((a' + 1) * (n - a' + 1))) =
      top * (a' - a) / n * (top + w * ((1 - p) * (n + 1 + a * a') + p * ((n - a) * (n - a') + n + 1))) := by
    field_simp
    ring
  have positive : 0 < top * (a' - a) / n * (top + w * ((1 - p) * (n + 1 + a * a') + p * ((n - a) * (n - a') + n + 1))) := by
    positivity
  linarith

/-- The estimate that a cell's history is pooled with. -/
def prior (optData : OptData) (c : Cell) : Estimate ℚ :=
  chain (start beta (qhatLevel optData c .size)) (siteLevels.map fun level => item beta (qhatLevel optData c level))

section
variable {optData : OptData} {c : Cell}

theorem prior_spec (within : Within optData c) :
    0 < (prior optData c).weight ∧ 0 ≤ (prior optData c).rate ∧ (prior optData c).rate ≤ 1 := by
  have startPositive := start_weight_pos beta_pos within.fits
  have positive : ∀ pooled ∈ siteLevels.map fun level => item beta (qhatLevel optData c level), 0 < pooled.1 :=
    fun pooled member => items_pos beta_pos within.fits pooled (List.mem_append_left _ member)
  have rates : ∀ pooled ∈ siteLevels.map fun level => item beta (qhatLevel optData c level),
      0 ≤ pooled.2 ∧ pooled.2 ≤ 1 := by
    intro pooled member
    obtain ⟨level, -, rfl⟩ := List.mem_map.mp member
    exact ⟨rate_nonneg (qhatLevel_nonneg optData c level), rate_le_one (within.fits level)⟩
  have first : 0 ≤ (start beta (qhatLevel optData c .size)).rate ∧ (start beta (qhatLevel optData c .size)).rate ≤ 1 := by
    unfold start
    split_ifs
    · exact ⟨rate_nonneg (qhatLevel_nonneg optData c .size), rate_le_one (within.fits .size)⟩
    · norm_num
  exact ⟨chain_weight_pos positive startPositive,
    le_chain positive startPositive (fun pooled member => (rates pooled member).1) first.1,
    chain_le positive startPositive (fun pooled member => (rates pooled member).2) first.2⟩

theorem qhat_eq_prior (within : Within optData c) :
    qhat optData c = some ((pool (prior optData c) (cellItem beta (qhatCell optData c)).1
      (cellItem beta (qhatCell optData c)).2).rate, qhatStatus optData c) := by
  rw [qhat, qhatWith_eq beta_pos within.fits, items, chain_append]
  rfl

end

theorem cutActions_eq_min (cell : Int × Int) : cutActions cell = min cell.1 cell.2 := by
  unfold cutActions
  split_ifs with above
  · exact (min_eq_left above.le).symm
  · exact (min_eq_right (not_lt.mp above)).symm

/-- With more actions of the cell the estimate is not lower, and it is higher as
    long as there are impressions for them. -/
theorem more_actions_raise_qhat (optData : OptData) (c : Cell) (within : Within optData c) (n a a' : Int)
    (k k' : Option Int) (impressions : 1 ≤ n) (nonneg : 0 ≤ a) (more : a ≤ a') :
    ∃ q q' status status', qhat (withCell optData c ⟨some n, k, some a⟩) c = some (q, status) ∧
      qhat (withCell optData c ⟨some n, k', some a'⟩) c = some (q', status') ∧ q ≤ q' ∧ (a < a' → a' ≤ n → q < q') := by
  have still : ∀ kna, Within (withCell optData c kna) c := by
    intro kna level
    rw [qhatLevel_withCell]
    exact within level
  have samePrior : ∀ kna, prior (withCell optData c kna) c = prior optData c := by
    intro kna
    simp only [prior, qhatLevel_withCell]
  have cellItems : ∀ (k : Option Int) {x : Int}, 0 ≤ x →
      cellItem beta (qhatCell (withCell optData c ⟨some n, k, some x⟩) c) =
        (odds n (min n x) * beta, ((min n x : Int) : ℚ) / n) := by
    intro k x xNonneg
    rw [qhatCell_withCell, noNull_some (by omega), noNull_some xNonneg, cellItem, cellRate, cutActions_eq_min,
      if_pos (by omega)]
  obtain ⟨weightPositive, rateNonneg, rateLe⟩ := prior_spec within
  refine ⟨_, _, _, _, qhat_eq_prior (still _), qhat_eq_prior (still _), ?_, ?_⟩
  · rw [samePrior, samePrior, cellItems k nonneg, cellItems k' (nonneg.trans more)]
    rcases (min_le_min_left n more).eq_or_lt with same | less
    · rw [same]
    · exact (pool_odds_lt (by omega) (le_min (by omega) nonneg) less (min_le_left _ _) beta_pos weightPositive rateNonneg
        rateLe).le
  · intro less fits
    rw [samePrior, samePrior, cellItems k nonneg, cellItems k' (nonneg.trans more), min_eq_right fits,
      min_eq_right (more.trans fits)]
    exact pool_odds_lt (by omega) nonneg less fits beta_pos weightPositive rateNonneg rateLe

/-! ### A cell with history -/

/-- The sample cell's size has 1000 impressions with 7 actions. -/
theorem within_sizeOnly : Within (sizeOnly 1000 7 12) sampleCell := by
  intro level
  rw [sizeOnly, qhatLevel_withLevel, noData_level]
  split_ifs <;> decide

/-- Seven actions on 1000 impressions at every pooled level, two on 100 of the
    cell. -/
def fullData : OptData :=
  withCell (pooledLevels.foldl (fun optData level => withLevel optData sampleCell level
    ⟨some 1000, some 0, some 7, some 12⟩) noData) sampleCell ⟨some 100, none, some 2⟩

theorem within_fullData : Within fullData sampleCell := by
  intro level
  cases level <;> decide +kernel

theorem qhat_between_rates :
    ∃ q status, qhat fullData sampleCell = some (q, status) ∧ 7 / 1000 ≤ q ∧ q ≤ 2 / 100 := by
  have data : ∀ level ∈ pooledLevels, HasData (qhatLevel fullData sampleCell level) := by decide +kernel
  have rates : ∀ level ∈ pooledLevels, rate (qhatLevel fullData sampleCell level) = 7 / 1000 := by decide +kernel
  have cell : cellRate (qhatCell fullData sampleCell) = 2 / 100 := by decide +kernel
  obtain ⟨q, status, run, most, least⟩ := qhat_enclosed fullData sampleCell within_fullData
  refine ⟨q, status, run, ?_, ?_⟩
  · rcases least data (by decide +kernel) with ⟨level, isLevel, aboveRate⟩ | aboveCell
    · exact rates level isLevel ▸ aboveRate
    · exact le_trans (by norm_num) (cell ▸ aboveCell)
  · rcases most with tiny | ⟨level, isLevel, -, belowRate⟩ | ⟨-, belowCell⟩
    · exact tiny.trans (by norm_num)
    · exact (rates level isLevel ▸ belowRate).trans (by norm_num)
    · exact cell ▸ belowCell

theorem three_actions_over_two :
    ∃ q q' status status',
      qhat (withCell (sizeOnly 1000 7 12) sampleCell ⟨some 100, none, some 2⟩) sampleCell = some (q, status) ∧
      qhat (withCell (sizeOnly 1000 7 12) sampleCell ⟨some 100, none, some 3⟩) sampleCell = some (q', status') ∧ q < q' := by
  obtain ⟨q, q', status, status', run, run', -, higher⟩ := more_actions_raise_qhat (sizeOnly 1000 7 12) sampleCell
    within_sizeOnly 100 2 3 none none (by decide) (by decide) (by decide)
  exact ⟨q, q', status, status', run, run', higher (by decide) (by decide)⟩

end Cdo.QhatBounds
