import Cdo.QhatBounds

/-!
Which of its data the estimator depends on. The scaling of the precisions is meant
to be arbitrary, but a level without data has the precision 1, which is not
scaled: the estimate is the same under every scaling only if all levels have data,
or where the levels up to the last one without data happen to agree with what
comes next (`scale_free_iff`). A level that is reported as the source of an
estimate has an influence on it unless it is one of the campaign levels, whose
estimates are computed and then not used (`reported_level_matters_iff`).
-/
namespace Cdo.QhatLevels
open Cdo.Text Cdo.Query Cdo.Tables Cdo.QHatAggregations Cdo.Pooling Cdo.Qhat Cdo.QhatBounds

/-! ### Estimates of a list of levels -/

/-- The estimate after levels were pooled in order. -/
def estimate (beta : ℚ) : List Evidence → Estimate ℚ
  | [] => ⟨1, 0⟩
  | first :: rest => chain (start beta first) (rest.map (item beta))

structure Sound (e : Evidence) : Prop where
  nonneg : 0 ≤ e.a
  fits : Fits e

theorem sound_of_within {optData : OptData} {c : Cell} (within : Within optData c) (level : Level) :
    Sound (qhatLevel optData c level) := ⟨qhatLevel_nonneg optData c level, within.fits level⟩

section
variable {scale : ℚ} {e : Evidence} {levels : List Evidence}

theorem weight_scaled (data : HasData e) : weight scale e = scale * weight 1 e := by
  simp only [weight, if_pos data]
  ring

theorem estimate_snoc (some : levels ≠ []) :
    estimate scale (levels ++ [e]) = pool (estimate scale levels) (weight scale e) (rate e) := by
  cases levels with
  | nil => exact absurd rfl some
  | cons first rest => simp only [List.cons_append, estimate, List.map_append, chain_append, List.map_cons, List.map_nil,
      chain_cons, chain_nil, item]

theorem estimate_last_weight (levels : List Evidence) (e : Evidence) :
    (estimate scale (levels ++ [e])).weight = weight scale e := by
  cases levels with
  | nil => rfl
  | cons first rest => rw [estimate_snoc (List.cons_ne_nil _ _), pool_weight]

theorem items_weight_pos (positive : 0 < scale) (sound : ∀ e ∈ levels, Sound e) :
    ∀ pooled ∈ levels.map (item scale), 0 < pooled.1 := by
  intro pooled member
  obtain ⟨e, isLevel, rfl⟩ := List.mem_map.mp member
  exact weight_pos positive (sound e isLevel).nonneg (sound e isLevel).fits

theorem items_rate_nonneg (sound : ∀ e ∈ levels, Sound e) : ∀ pooled ∈ levels.map (item scale), 0 ≤ pooled.2 := by
  intro pooled member
  obtain ⟨e, isLevel, rfl⟩ := List.mem_map.mp member
  exact rate_nonneg (sound e isLevel).nonneg

theorem start_rate_nonneg (sound : Sound e) : 0 ≤ (start scale e).rate := by
  unfold start
  split_ifs
  · exact rate_nonneg sound.nonneg
  · norm_num

theorem start_rate_le_one (sound : Sound e) : (start scale e).rate ≤ 1 := by
  unfold start
  split_ifs
  · exact rate_le_one sound.fits
  · norm_num

theorem estimate_rate_bounded (positive : 0 < scale) (sound : ∀ e ∈ levels, Sound e) : |(estimate scale levels).rate| ≤ 1 := by
  cases levels with
  | nil => norm_num [estimate]
  | cons first rest =>
    have firstSound := sound first List.mem_cons_self
    have restSound : ∀ e ∈ rest, Sound e := fun e member => sound e (List.mem_cons_of_mem _ member)
    have weights := items_weight_pos positive restSound
    have startPositive : 0 < (start scale first).weight := weight_pos positive firstSound.nonneg firstSound.fits
    rw [estimate, abs_of_nonneg (le_chain weights startPositive (items_rate_nonneg restSound) (start_rate_nonneg firstSound))]
    refine chain_le weights startPositive ?_ (start_rate_le_one firstSound)
    intro pooled member
    obtain ⟨e, isLevel, rfl⟩ := List.mem_map.mp member
    exact rate_le_one (restSound e isLevel).fits

end

/-! ### Estimates that no scaling changes -/

/-- The first of the levels has data, and none of them has actions. -/
def NoActions : List Evidence → Prop
  | [] => False
  | first :: rest => HasData first ∧ ∀ e ∈ first :: rest, HasData e → e.a = 0

theorem rate_eq_zero_iff {e : Evidence} : rate e = 0 ↔ (HasData e → e.a = 0) := by
  unfold rate
  split_ifs with data
  · have impressions : (e.n : ℚ) ≠ 0 := by exact_mod_cast data.2.ne'
    rw [div_eq_zero_iff, or_iff_left impressions, Int.cast_eq_zero]
    exact ⟨fun zero _ => zero, fun zero => zero data⟩
  · exact ⟨fun _ some => absurd some data, fun _ => rfl⟩

theorem estimate_zero_iff {scale : ℚ} {levels : List Evidence} (some : levels ≠ []) (positive : 0 < scale)
    (sound : ∀ e ∈ levels, Sound e) : (estimate scale levels).rate = 0 ↔ NoActions levels := by
  cases levels with
  | nil => exact absurd rfl some
  | cons first rest =>
    have firstSound := sound first List.mem_cons_self
    have restSound : ∀ e ∈ rest, Sound e := fun e member => sound e (List.mem_cons_of_mem _ member)
    have startPositive : 0 < (start scale first).weight := weight_pos positive firstSound.nonneg firstSound.fits
    rw [estimate, chain_eq_zero_iff (items_weight_pos positive restSound) startPositive (items_rate_nonneg restSound)
      (start_rate_nonneg firstSound)]
    simp only [NoActions, List.forall_mem_map, item, rate_eq_zero_iff, List.forall_mem_cons]
    by_cases data : HasData first
    · have startRate : (start scale first).rate = rate first := if_pos data
      simp only [startRate, rate_eq_zero_iff, data, true_and, forall_const]
    · have startRate : (start scale first).rate = 1 / 10 ^ 12 := if_neg data
      simp [startRate, data]

theorem noActions_snoc {levels : List Evidence} {missing : Evidence} (noData : ¬ HasData missing) :
    NoActions (levels ++ [missing]) ↔ NoActions levels := by
  cases levels with
  | nil => simp [NoActions, noData]
  | cons first rest =>
    simp only [List.cons_append, NoActions, List.forall_mem_cons, List.forall_mem_append]
    constructor
    · rintro ⟨data, own, others, -⟩
      exact ⟨data, own, others⟩
    · rintro ⟨data, own, others⟩
      exact ⟨data, own, others, fun some => absurd some noData, by simp⟩

theorem estimate_missing_rate {scale : ℚ} {levels : List Evidence} {missing : Evidence} (some : levels ≠ [])
    (noData : ¬ HasData missing) :
    estimate scale (levels ++ [missing]) = pool (estimate scale levels) 1 0 := by
  rw [estimate_snoc some, weight, rate, if_neg noData, if_neg noData]

/-- Up to a level without data the estimate is the same under every scaling only
    if it is 0, or if there are no data at all. -/
theorem steady_missing_iff {before : List Evidence} {missing : Evidence} (noData : ¬ HasData missing)
    (sound : ∀ e ∈ before, Sound e) (t : ℚ) :
    Steady (fun scale => (estimate scale (before ++ [missing])).rate) t ↔
      NoActions before ∧ t = 0 ∨ (∀ e ∈ before, ¬ HasData e) ∧ t = 1 / 10 ^ 12 / 2 ^ before.length := by
  induction before using List.reverseRecOn generalizing missing t with
  | nil =>
    have rates : ∀ scale, (estimate scale ([] ++ [missing])).rate = 1 / 10 ^ 12 := fun scale => if_neg noData
    simp only [Steady, rates, NoActions, false_and, false_or, List.not_mem_nil, false_imp_iff, implies_true, true_and,
      List.length_nil, pow_zero, div_one]
    exact ⟨fun steady => (steady 1 one_pos).symm, fun same _ _ => same.symm⟩
  | append_singleton before last ih =>
    have beforeSound : ∀ e ∈ before, Sound e := fun e member => sound e (List.mem_append_left _ member)
    have some : before ++ [last] ≠ [] := by simp
    simp only [estimate_missing_rate some noData]
    by_cases data : HasData last
    · -- the weight before the missing level is scaled
      have isWeight : ∀ scale, (estimate scale (before ++ [last])).weight = scale * weight 1 last := fun scale => by
        rw [estimate_last_weight, weight_scaled data]
      have lastSound := sound last (by simp)
      have old := @scaled_old_iff ℚ _ _ _ (fun scale => (estimate scale (before ++ [last])).rate) 1 (weight 1 last) 1 t
        one_pos (weight_pos one_pos lastSound.nonneg lastSound.fits)
        (fun scale positive => estimate_rate_bounded positive sound)
      simp only [← isWeight] at old
      have zero : Steady (fun scale => (estimate scale (before ++ [last])).rate) 0 ↔ NoActions (before ++ [last]) :=
        ⟨fun steady => (estimate_zero_iff some one_pos sound).mp (steady 1 one_pos),
          fun none scale positive => (estimate_zero_iff some positive sound).mpr none⟩
      have notMissing : ¬ ∀ e ∈ before ++ [last], ¬ HasData e := fun none => none last (by simp) data
      rw [old, zero, and_comm]
      simp only [notMissing, false_and, or_false]
    · -- neither weight is scaled, and the estimate is halved
      have isWeight : ∀ scale, (estimate scale (before ++ [last])).weight = 1 := fun scale => by
        rw [estimate_last_weight, weight, if_neg data]
      have halved : Steady (fun scale => (pool (estimate scale (before ++ [last])) 1 0).rate) t ↔
          Steady (fun scale => (estimate scale (before ++ [last])).rate) (2 * t) := by
        refine forall_congr' fun scale => imp_congr_right fun _ => ?_
        simp only [pool, isWeight]
        rw [div_eq_iff (by norm_num)]
        constructor <;> intro same <;> linarith
      have nothing : (∀ e ∈ before ++ [last], ¬ HasData e) ↔ ∀ e ∈ before, ¬ HasData e := by
        rw [List.forall_mem_append, List.forall_mem_singleton]
        exact and_iff_left data
      have power : 2 * t = 1 / 10 ^ 12 / 2 ^ before.length ↔ t = 1 / 10 ^ 12 / 2 ^ (before ++ [last]).length := by
        rw [List.length_append, List.length_singleton, pow_succ 2, ← div_div, eq_div_iff two_ne_zero, mul_comm]
      rw [halved, ih data beforeSound, noActions_snoc data, nothing, power]
      simp

/-- The rate that is pooled in first after the last level without data. -/
def nextRate (after : List Evidence) (cell : ℚ) : ℚ :=
  match after with
  | [] => cell
  | e :: _ => rate e

/-- The rate after the last level without data, if there is one, is that of the
    levels up to there: 0 if the first level has data and none has actions, or the
    default rate halved at each further level if none has data. -/
def ScaleFree (levels : List Evidence) (cell : ℚ) : Prop :=
  ∀ before missing after, levels = before ++ missing :: after → ¬ HasData missing → (∀ e ∈ after, HasData e) →
    NoActions before ∧ nextRate after cell = 0 ∨
      (∀ e ∈ before, ¬ HasData e) ∧ nextRate after cell = 1 / 10 ^ 12 / 2 ^ before.length

theorem last_missing (levels : List Evidence) :
    (∀ e ∈ levels, HasData e) ∨
      ∃ before missing after, levels = before ++ missing :: after ∧ ¬ HasData missing ∧ ∀ e ∈ after, HasData e := by
  induction levels with
  | nil => exact .inl (by simp)
  | cons e rest ih =>
    rcases ih with all | ⟨before, missing, after, rfl, noData, data⟩
    · by_cases data : HasData e
      · exact .inl (by simpa using ⟨data, all⟩)
      · exact .inr ⟨[], e, rest, rfl, data, all⟩
    · exact .inr ⟨e :: before, missing, after, rfl, noData, data⟩

theorem item_scaled {e : Evidence} (scale : ℚ) (data : HasData e) :
    item scale e = (scale * (item 1 e).1, (item 1 e).2) := by
  rw [item, weight_scaled data]
  rfl

theorem cellItem_scaled (scale : ℚ) (cell : Int × Int) :
    cellItem scale cell = (scale * (cellItem 1 cell).1, (cellItem 1 cell).2) := by
  rw [cellItem, cellItem, mul_one, mul_comm]

/-- Behind levels with data all weights are scaled. -/
theorem items_scaled {levels : List Evidence} (scale : ℚ) (cell : Int × Int) (data : ∀ e ∈ levels, HasData e) :
    levels.map (item scale) ++ [cellItem scale cell] =
      (levels.map (item 1) ++ [cellItem 1 cell]).map fun item => (scale * item.1, item.2) := by
  rw [List.map_append, List.map_singleton, List.map_map, ← cellItem_scaled]
  congr 1
  exact List.map_congr_left fun e member => item_scaled scale (data e member)

section
variable {cell : Int × Int}

theorem steady_of_data {first : Evidence} {rest : List Evidence} (sound : ∀ e ∈ first :: rest, Sound e)
    (nonneg : 0 ≤ cutActions cell) (data : ∀ e ∈ first :: rest, HasData e) :
    ∃ t, Steady (fun scale => (chain (estimate scale (first :: rest)) [cellItem scale cell]).rate) t := by
  have firstSound := sound first List.mem_cons_self
  have restData : ∀ e ∈ rest, HasData e := fun e member => data e (List.mem_cons_of_mem _ member)
  have restSound : ∀ e ∈ rest, Sound e := fun e member => sound e (List.mem_cons_of_mem _ member)
  have begin : ∀ scale, start scale first = ⟨scale * weight 1 first, rate first⟩ := fun scale => by
    rw [start, weight_scaled (data first List.mem_cons_self), if_pos (data first List.mem_cons_self)]
  have positive : ∀ pooled ∈ rest.map (item 1) ++ [cellItem 1 cell], 0 < pooled.1 :=
    List.forall_mem_append.mpr ⟨items_weight_pos one_pos restSound,
      List.forall_mem_singleton.mpr (cellWeight_pos one_pos nonneg)⟩
  have scaled : ∀ scale, chain (estimate scale (first :: rest)) [cellItem scale cell] =
      chain ⟨scale * weight 1 first, rate first⟩
        ((rest.map (item 1) ++ [cellItem 1 cell]).map fun item => (scale * item.1, item.2)) := fun scale => by
    rw [estimate, ← chain_append, items_scaled scale cell restData, begin]
  simp only [scaled]
  exact (scaled_chain_iff positive (weight_pos one_pos firstSound.nonneg firstSound.fits)).mpr ⟨rate first, fun _ _ => rfl⟩

theorem estimate_append {before after : List Evidence} (scale : ℚ) (some : before ≠ []) :
    estimate scale (before ++ after) = chain (estimate scale before) (after.map (item scale)) := by
  cases before with
  | nil => exact absurd rfl some
  | cons first rest => rw [List.cons_append, estimate, estimate, List.map_append, chain_append]

theorem steady_behind_missing {before after : List Evidence} {missing : Evidence}
    (sound : ∀ e ∈ before ++ missing :: after, Sound e) (nonneg : 0 ≤ cutActions cell) (noData : ¬ HasData missing)
    (data : ∀ e ∈ after, HasData e) :
    (∃ t, Steady (fun scale => (chain (estimate scale (before ++ missing :: after)) [cellItem scale cell]).rate) t) ↔
      Steady (fun scale => (estimate scale (before ++ [missing])).rate) (nextRate after (cellRate cell)) := by
  have upTo : ∀ e ∈ before ++ [missing], Sound e := fun e member => sound e (by
    rcases List.mem_append.mp member with earlier | here
    · exact List.mem_append_left _ earlier
    · rw [List.mem_singleton.mp here]
      exact List.mem_append_right _ List.mem_cons_self)
  have isWeight : ∀ scale, (estimate scale (before ++ [missing])).weight = 1 := fun scale => by
    rw [estimate_last_weight, weight, if_neg noData]
  have isEstimate : ∀ scale, estimate scale (before ++ [missing]) = ⟨1, (estimate scale (before ++ [missing])).rate⟩ :=
    fun scale => by rw [← isWeight scale]
  have positive : ∀ pooled ∈ after.map (item 1) ++ [cellItem 1 cell], 0 < pooled.1 :=
    List.forall_mem_append.mpr ⟨items_weight_pos one_pos fun e member =>
      sound e (List.mem_append_right _ (List.mem_cons_of_mem _ member)),
      List.forall_mem_singleton.mpr (cellWeight_pos one_pos nonneg)⟩
  have split : before ++ missing :: after = (before ++ [missing]) ++ after := by simp
  obtain ⟨next, later, isItems, isNext⟩ : ∃ next later,
      after.map (item 1) ++ [cellItem 1 cell] = next :: later ∧ next.2 = nextRate after (cellRate cell) := by
    cases after with
    | nil => exact ⟨_, _, rfl, rfl⟩
    | cons e rest => exact ⟨_, _, rfl, rfl⟩
  rw [isItems] at positive
  have behind := @scaled_chain_new_iff ℚ _ _ _ (fun scale => (estimate scale (before ++ [missing])).rate) 1 1 next later
    positive one_pos (fun scale scalePositive => estimate_rate_bounded scalePositive upTo)
  have scaled : ∀ scale, chain (estimate scale (before ++ missing :: after)) [cellItem scale cell] =
      chain ⟨1, (estimate scale (before ++ [missing])).rate⟩
        ((next :: later).map fun item => (scale * item.1, item.2)) := fun scale => by
    rw [split, estimate_append scale (by simp), ← chain_append, items_scaled scale cell data, isItems, ← isEstimate scale]
  simp only [scaled]
  rw [isNext] at behind
  exact behind

theorem steady_iff {levels : List Evidence} (some : levels ≠ []) (sound : ∀ e ∈ levels, Sound e)
    (nonneg : 0 ≤ cutActions cell) :
    (∃ t, Steady (fun scale => (chain (estimate scale levels) [cellItem scale cell]).rate) t) ↔
      ScaleFree levels (cellRate cell) := by
  have atMissing : ∀ before missing after, levels = before ++ missing :: after → ¬ HasData missing →
      (∀ e ∈ after, HasData e) →
      ((∃ t, Steady (fun scale => (chain (estimate scale levels) [cellItem scale cell]).rate) t) ↔
        NoActions before ∧ nextRate after (cellRate cell) = 0 ∨
          (∀ e ∈ before, ¬ HasData e) ∧ nextRate after (cellRate cell) = 1 / 10 ^ 12 / 2 ^ before.length) := by
    rintro before missing after rfl noData data
    rw [steady_behind_missing sound nonneg noData data,
      steady_missing_iff noData fun e member => sound e (List.mem_append_left _ member)]
  constructor
  · intro steady before missing after isLevels noData data
    exact (atMissing before missing after isLevels noData data).mp steady
  · intro free
    rcases last_missing levels with all | ⟨before, missing, after, isLevels, noData, data⟩
    · cases levels with
      | nil => exact absurd rfl some
      | cons first rest => exact steady_of_data sound nonneg all
    · exact (atMissing before missing after isLevels noData data).mpr (free before missing after isLevels noData data)

end

/-- The evidence of the levels that are pooled. -/
def pooled (optData : OptData) (c : Cell) : List Evidence := pooledLevels.map (qhatLevel optData c)

/-- The estimate and the status are the same under every scaling exactly where the
    levels up to the last one without data agree with what comes next. -/
theorem scale_free_iff (optData : OptData) (c : Cell) (within : Within optData c) :
    (∀ scale, 0 < scale → qhatWith scale optData c = qhat optData c) ↔
      ScaleFree (pooled optData c) (cellRate (qhatCell optData c)) := by
  have sound : ∀ e ∈ pooled optData c, Sound e := by
    intro e member
    obtain ⟨level, -, rfl⟩ := List.mem_map.mp member
    exact sound_of_within within level
  have value : ∀ scale, 0 < scale → qhatWith scale optData c =
      some ((chain (estimate scale (pooled optData c)) [cellItem scale (qhatCell optData c)]).rate, qhatStatus optData c) :=
    fun scale positive => by
      rw [qhatWith_eq positive within.fits, items, chain_append]
      rfl
  rw [← steady_iff (by simp [pooled, pooledLevels]) sound (cell_nonneg optData c)]
  constructor
  · intro same
    refine ⟨(chain (estimate beta (pooled optData c)) [cellItem beta (qhatCell optData c)]).rate, fun scale positive => ?_⟩
    have equal := same scale positive
    rw [qhat, value scale positive, value beta beta_pos, Option.some.injEq, Prod.mk.injEq] at equal
    exact equal.1
  · rintro ⟨t, steady⟩ scale positive
    have equal := (steady scale positive).trans (steady beta beta_pos).symm
    rw [qhat, value scale positive, value beta beta_pos, Option.some.injEq, Prod.mk.injEq]
    exact ⟨equal, rfl⟩

theorem scaleFree_of_data {levels : List Evidence} {cell : ℚ} (data : ∀ e ∈ levels, HasData e) : ScaleFree levels cell := by
  rintro before missing after rfl noData -
  exact absurd (data missing (by simp)) noData

/-- With data at every pooled level no scaling changes the estimate. -/
theorem full_data_scale_free :
    Within fullData sampleCell ∧ ∀ scale, 0 < scale → qhatWith scale fullData sampleCell = qhat fullData sampleCell := by
  refine ⟨within_fullData, (scale_free_iff fullData sampleCell within_fullData).mpr (scaleFree_of_data ?_)⟩
  decide +kernel

/-- With data of the size alone, another scaling gives another estimate. -/
theorem size_only_scaled :
    Within (sizeOnly 1000 7 12) sampleCell ∧
      qhatWith 1 (sizeOnly 1000 7 12) sampleCell ≠ qhat (sizeOnly 1000 7 12) sampleCell :=
  ⟨within_sizeOnly, by decide +kernel⟩

/-! ### The reported level -/

/-- Other data, with another entry of the level that is reported. -/
def Differs (optData : OptData) (c : Cell) (status : Status) (changed : OptData) : Prop :=
  match status with
  | .cell => ∃ kna, changed = withCell optData c kna
  | .level level => ∃ row, changed = withLevel optData c level row

/-- Another entry of the level gives another estimate. -/
def Matters (optData : OptData) (c : Cell) (q : ℚ) (status : Status) : Prop :=
  ∃ changed q' status', Differs optData c status changed ∧ qhat changed c = some (q', status') ∧ q' ≠ q

/-- Of two different estimates one differs from a third. -/
theorem matters_of_lt {optData : OptData} {c : Cell} {status : Status} {low high : OptData} {q lowRate highRate : ℚ}
    {lowStatus highStatus : Status} (lowDiffers : Differs optData c status low) (highDiffers : Differs optData c status high)
    (lowRun : qhat low c = some (lowRate, lowStatus)) (highRun : qhat high c = some (highRate, highStatus))
    (apart : lowRate < highRate) : Matters optData c q status := by
  by_cases same : lowRate = q
  · exact ⟨high, highRate, highStatus, highDiffers, highRun, same ▸ apart.ne'⟩
  · exact ⟨low, lowRate, lowStatus, lowDiffers, lowRun, same⟩

section
variable {optData : OptData} {c : Cell}

theorem cell_matters (within : Within optData c) (q : ℚ) : Matters optData c q .cell := by
  have still : ∀ kna, Within (withCell optData c kna) c := fun kna level => by
    rw [qhatLevel_withCell]
    exact within level
  have samePrior : ∀ kna, prior (withCell optData c kna) c = prior optData c := fun kna => by
    simp only [prior, qhatLevel_withCell]
  obtain ⟨weightPositive, rateNonneg, rateLe⟩ := prior_spec within
  refine matters_of_lt ⟨⟨some 1, none, some 0⟩, rfl⟩ ⟨⟨some 1, none, some 1⟩, rfl⟩ (qhat_eq_prior (still _))
    (qhat_eq_prior (still _)) ?_
  rw [samePrior, samePrior, qhatCell_withCell, qhatCell_withCell]
  exact pool_odds_lt one_pos le_rfl one_pos le_rfl beta_pos weightPositive rateNonneg rateLe

/-- One impression, with an action or without. -/
def oneImpression (a : Int) : LevelRow := ⟨some 1, some 0, some a, some 1⟩

theorem weight_oneImpression (scale : ℚ) :
    weight scale (evidenceOf (oneImpression 0)) = weight scale (evidenceOf (oneImpression 1)) := by
  have low : HasData (evidenceOf (oneImpression 0)) := by decide
  have high : HasData (evidenceOf (oneImpression 1)) := by decide
  have same : odds 1 0 = odds 1 1 := by decide +kernel
  rw [weight, weight, if_pos low, if_pos high]
  exact congrArg (· * (scale / 1)) same

theorem rate_oneImpression : rate (evidenceOf (oneImpression 0)) = 0 ∧ rate (evidenceOf (oneImpression 1)) = 1 := by
  decide +kernel

theorem within_withLevel (within : Within optData c) (level : Level) {row : LevelRow}
    (fits : (evidenceOf row).a ≤ (evidenceOf row).n) : Within (withLevel optData c level row) c := by
  intro other
  rw [qhatLevel_withLevel]
  split_ifs
  · exact fits
  · exact within other

/-- Whether the one impression of a level has an action, the weights are the same. -/
theorem weight_withLevel (level other : Level) :
    weight beta (qhatLevel (withLevel optData c level (oneImpression 0)) c other) =
      weight beta (qhatLevel (withLevel optData c level (oneImpression 1)) c other) := by
  rw [qhatLevel_withLevel, qhatLevel_withLevel]
  split_ifs
  · exact weight_oneImpression beta
  · rfl

theorem rate_withLevel_le (level other : Level) :
    rate (qhatLevel (withLevel optData c level (oneImpression 0)) c other) ≤
      rate (qhatLevel (withLevel optData c level (oneImpression 1)) c other) := by
  rw [qhatLevel_withLevel, qhatLevel_withLevel]
  split_ifs
  · rw [rate_oneImpression.1, rate_oneImpression.2]
    exact zero_le_one
  · exact le_rfl

/-- What is pooled with the first level; the last one is the cell. -/
def sources : List (Option Level) := siteLevels.map some ++ [none]

def sourceItem (scale : ℚ) (optData : OptData) (c : Cell) : Option Level → ℚ × ℚ
  | some level => item scale (qhatLevel optData c level)
  | none => cellItem scale (qhatCell optData c)

theorem items_eq_sources (scale : ℚ) (optData : OptData) (c : Cell) :
    items scale optData c = sources.map (sourceItem scale optData c) := rfl

/-- With the same weights and the same cell, one higher rate of a level makes the
    estimate higher. -/
theorem estimate_lt_of_rates {low high : OptData} (within : Within low c) (sameCell : qhatCell low c = qhatCell high c)
    (weights : ∀ level, weight beta (qhatLevel low c level) = weight beta (qhatLevel high c level))
    (rates : ∀ level ∈ siteLevels, rate (qhatLevel low c level) ≤ rate (qhatLevel high c level))
    (starts : (start beta (qhatLevel low c .size)).rate ≤ (start beta (qhatLevel high c .size)).rate)
    (strict : (start beta (qhatLevel low c .size)).rate < (start beta (qhatLevel high c .size)).rate ∨
      ∃ level ∈ siteLevels, rate (qhatLevel low c level) < rate (qhatLevel high c level)) :
    (chain (start beta (qhatLevel low c .size)) (items beta low c)).rate <
      (chain (start beta (qhatLevel high c .size)) (items beta high c)).rate := by
  have sourceWeights : ∀ i, (sourceItem beta low c i).1 = (sourceItem beta high c i).1 := by
    rintro (_ | level)
    · rw [sourceItem, sourceItem, sameCell]
    · exact weights level
  have sourceRates : ∀ i ∈ sources, (sourceItem beta low c i).2 ≤ (sourceItem beta high c i).2 := by
    rintro (_ | level) member
    · rw [sourceItem, sourceItem, sameCell]
    · exact rates level (by simpa [sources] using member)
  have sameItems : sourceItem beta high c = fun i => ((sourceItem beta low c i).1, (sourceItem beta high c i).2) := by
    funext i
    rw [sourceWeights i]
  have begin : start beta (qhatLevel high c .size) =
      ⟨(start beta (qhatLevel low c .size)).weight, (start beta (qhatLevel high c .size)).rate⟩ := by
    rw [start, start, weights]
  have positive : ∀ i ∈ sources, 0 < (sourceItem beta low c i).1 := fun i member =>
    items_pos beta_pos within.fits _ (List.mem_map_of_mem member)
  have strictSources : (start beta (qhatLevel low c .size)).rate < (start beta (qhatLevel high c .size)).rate ∨
      ∃ i ∈ sources, (sourceItem beta low c i).2 < (sourceItem beta high c i).2 := by
    refine strict.imp_right ?_
    rintro ⟨level, isLevel, above⟩
    exact ⟨some level, List.mem_append_left _ (List.mem_map_of_mem isLevel), above⟩
  rw [items_eq_sources, items_eq_sources, sameItems, begin]
  exact chain_map_lt positive (start_weight_pos beta_pos within.fits) sourceRates starts strictSources

theorem level_matters (within : Within optData c) {level : Level} (isPooled : level ∈ pooledLevels) (q : ℚ) :
    Matters optData c q (.level level) := by
  have lowWithin : Within (withLevel optData c level (oneImpression 0)) c := within_withLevel within level (by decide)
  have highWithin : Within (withLevel optData c level (oneImpression 1)) c := within_withLevel within level (by decide)
  have sameCell : qhatCell (withLevel optData c level (oneImpression 0)) c =
      qhatCell (withLevel optData c level (oneImpression 1)) c := by rw [qhatCell_withLevel, qhatCell_withLevel]
  have changed : start beta (evidenceOf (oneImpression 0)) = ⟨weight beta (evidenceOf (oneImpression 0)), 0⟩ ∧
      start beta (evidenceOf (oneImpression 1)) = ⟨weight beta (evidenceOf (oneImpression 1)), 1⟩ := by
    decide +kernel
  refine matters_of_lt ⟨oneImpression 0, rfl⟩ ⟨oneImpression 1, rfl⟩ (qhatWith_eq beta_pos lowWithin.fits)
    (qhatWith_eq beta_pos highWithin.fits) ?_
  refine estimate_lt_of_rates lowWithin sameCell (weight_withLevel level) (fun other _ => rate_withLevel_le level other) ?_ ?_
  · rw [qhatLevel_withLevel, qhatLevel_withLevel]
    split_ifs
    · rw [changed.1, changed.2]
      exact zero_le_one
    · exact le_rfl
  · rcases List.mem_cons.mp isPooled with isSize | isSite
    · refine .inl ?_
      rw [qhatLevel_withLevel, qhatLevel_withLevel, if_pos isSize.symm, if_pos isSize.symm, changed.1, changed.2]
      exact zero_lt_one
    · refine .inr ⟨level, isSite, ?_⟩
      rw [qhatLevel_withLevel, qhatLevel_withLevel, if_pos rfl, if_pos rfl, rate_oneImpression.1, rate_oneImpression.2]
      exact zero_lt_one

/-- What the estimate is computed from. -/
theorem qhatWith_used {scale q : ℚ} {status : Status} (run : qhatWith scale optData c = some (q, status)) :
    ((sizeLevel scale (qhatLevel optData c .size)).bind fun zd =>
      (nextLevels scale (qhatLevel optData c) siteLevels zd).bind fun sssd =>
        cellLevel scale (qhatCell optData c) sssd) = some q := by
  simp only [qhatWith, Option.bind_eq_bind, Option.bind_eq_some_iff, Option.pure_def, Option.some.injEq,
    Prod.mk.injEq] at run
  obtain ⟨zd, isZd, sssd, isSssd, -, -, rate, isRate, rfl, -⟩ := run
  rw [isZd, Option.bind_some, isSssd, Option.bind_some, isRate]

/-- Another entry of a campaign level never gives another estimate. -/
theorem cps_not_matters {level : Level} (isCps : level ∈ cpsLevels) {q : ℚ} {status : Status}
    (run : qhat optData c = some (q, status)) : ¬ Matters optData c q (.level level) := by
  rintro ⟨changed, q', status', ⟨row, rfl⟩, changedRun, apart⟩
  have same : ∀ other ∈ pooledLevels, qhatLevel (withLevel optData c level row) c other = qhatLevel optData c other := by
    intro other isPooled
    rw [qhatLevel_withLevel, if_neg]
    rintro rfl
    revert isCps isPooled
    cases other <;> decide
  have used := qhatWith_used run
  have changedUsed := qhatWith_used changedRun
  rw [qhatCell_withLevel, same .size (by decide)] at changedUsed
  have sameLevels : ∀ zd, nextLevels beta (qhatLevel (withLevel optData c level row) c) siteLevels zd =
      nextLevels beta (qhatLevel optData c) siteLevels zd := by
    intro zd
    simp only [nextLevels, siteLevels, List.foldlM_cons, same .segment (by decide), same .siteSegment (by decide),
      same .siteSize (by decide), same .siteSizeSegment (by decide)]
    rfl
  simp only [sameLevels, used, Option.some.injEq] at changedUsed
  exact apart changedUsed.symm

end

theorem baseRate_pos_iff {e : Evidence} : 0 < baseRate e ↔ 0 < e.n ∧ 0 < e.a := by
  unfold baseRate noDivByZero
  by_cases impressions : 0 < e.n
  · have some : (0 : ℚ) < e.n := by exact_mod_cast impressions
    rw [if_pos some, div_pos_iff_of_pos_right some, Int.cast_pos]
    exact (and_iff_right impressions).symm
  · have none : ¬ (0 : ℚ) < e.n := by exact_mod_cast impressions
    rw [if_neg none]
    simp [impressions]

/-- The levels are reported from the campaign levels on. -/
theorem statusLevels_eq : statusLevels = cpsLevels.reverse ++ siteLevels.reverse := rfl

/-- The level that is reported for an estimate has an influence on it, unless it
    is a campaign level: that is, unless the cell has no actions and a campaign
    level has some. -/
theorem reported_level_matters_iff (optData : OptData) (c : Cell) (within : Within optData c) :
    ∃ q status, qhat optData c = some (q, status) ∧
      (Matters optData c q status ↔
        0 < cutActions (qhatCell optData c) ∨
          ∀ level ∈ cpsLevels, ¬ (0 < (qhatLevel optData c level).n ∧ 0 < (qhatLevel optData c level).a)) := by
  refine ⟨_, _, qhatWith_eq beta_pos within.fits, ?_⟩
  have rated : ∀ level, (decide (0 < baseRate (qhatLevel optData c level)) = true) ↔
      0 < (qhatLevel optData c level).n ∧ 0 < (qhatLevel optData c level).a := fun level => by
    rw [decide_eq_true_iff, baseRate_pos_iff]
  unfold qhatStatus
  split_ifs with actions
  · exact iff_of_true (cell_matters within _) (.inl actions)
  · rw [or_iff_right actions, statusLevels_eq, List.find?_append]
    rcases found : cpsLevels.reverse.find? fun level => 0 < baseRate (qhatLevel optData c level) with _ | level
    · have none : ∀ level ∈ cpsLevels, ¬ (0 < (qhatLevel optData c level).n ∧ 0 < (qhatLevel optData c level).a) := by
        intro level isCps
        rw [← rated level]
        exact List.find?_eq_none.mp found level (List.mem_reverse.mpr isCps)
      refine iff_of_true (level_matters within ?_ _) none
      rw [Option.none_or]
      rcases site : siteLevels.reverse.find? fun level => 0 < baseRate (qhatLevel optData c level) with _ | level
      · exact List.mem_cons_self
      · exact List.mem_cons_of_mem _ (List.mem_reverse.mp (List.mem_of_find?_eq_some site))
    · have isCps : level ∈ cpsLevels := List.mem_reverse.mp (List.mem_of_find?_eq_some found)
      rw [Option.some_or, Option.getD_some]
      have reported := List.find?_some found
      rw [rated] at reported
      exact iff_of_false (cps_not_matters isCps (qhatWith_eq beta_pos within.fits)) fun none => none level isCps reported

/-- Data of the sample cell's size, and two actions of its campaign. -/
def campaignData : OptData := withLevel (sizeOnly 1000 7 12) sampleCell .cps ⟨some 50, some 0, some 2, some 3⟩

theorem within_campaignData : Within campaignData sampleCell := within_withLevel within_sizeOnly .cps (by decide)

theorem size_only_matters :
    ∃ q status, qhat (sizeOnly 1000 7 12) sampleCell = some (q, status) ∧
      Matters (sizeOnly 1000 7 12) sampleCell q status := by
  obtain ⟨q, status, run, matters⟩ := reported_level_matters_iff (sizeOnly 1000 7 12) sampleCell within_sizeOnly
  refine ⟨q, status, run, matters.mpr (.inr ?_)⟩
  decide

/-- The campaign is reported and has no influence. -/
theorem reported_campaign_unused :
    Within campaignData sampleCell ∧
      ∃ q, qhat campaignData sampleCell = some (q, .level .cps) ∧ ¬ Matters campaignData sampleCell q (.level .cps) := by
  have isStatus : qhatStatus campaignData sampleCell = .level .cps := by decide +kernel
  have run : qhat campaignData sampleCell = _ := qhatWith_eq beta_pos within_campaignData.fits
  rw [isStatus] at run
  exact ⟨within_campaignData, _, run, cps_not_matters (by decide) run⟩

end Cdo.QhatLevels
