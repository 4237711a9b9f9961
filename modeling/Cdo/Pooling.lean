import Mathlib

/-!
Weighted averages in a chain. An estimate has a rate and the weight that the rate
is trusted with; `pool` averages a new rate with the estimate before it and keeps
the new weight. With positive weights a pooled rate stays between the rates that
go into it (`pool_le`, `le_pool`, `chain_le`, `le_chain`), it grows with each of
them (`pool_lt_pool`, `chain_lt_chain`), and only the ratio of the two weights
counts (`pool_scale`). Where only one of the two weights is scaled, the rate stays
the same under every scale in few cases only (`scaled_new_iff`, `scaled_old_iff`).
-/
namespace Cdo.Pooling

structure Estimate (K : Type) where
  weight : K
  rate : K
deriving DecidableEq

section
variable {K : Type} [Field K]

def pool (prior : Estimate K) (weight rate : K) : Estimate K :=
  ⟨weight, (weight * rate + prior.weight * prior.rate) / (weight + prior.weight)⟩

@[simp] theorem pool_weight (prior : Estimate K) (weight rate : K) : (pool prior weight rate).weight = weight := rfl

/-- The estimate after further weights and rates were pooled in. -/
def chain (prior : Estimate K) (items : List (K × K)) : Estimate K :=
  items.foldl (fun prior item => pool prior item.1 item.2) prior

@[simp] theorem chain_nil (prior : Estimate K) : chain prior [] = prior := rfl

@[simp] theorem chain_cons (prior : Estimate K) (item : K × K) (items : List (K × K)) :
    chain prior (item :: items) = chain (pool prior item.1 item.2) items := rfl

theorem chain_append (prior : Estimate K) (items more : List (K × K)) :
    chain prior (items ++ more) = chain (chain prior items) more := List.foldl_append

/-- A common factor of both weights does not matter. -/
theorem pool_scale {prior : Estimate K} {weight rate scale : K} (nonzero : scale ≠ 0) :
    (pool ⟨scale * prior.weight, prior.rate⟩ (scale * weight) rate).rate = (pool prior weight rate).rate := by
  simp only [pool]
  rw [← mul_add, mul_assoc, mul_assoc, ← mul_add, mul_div_mul_left _ _ nonzero]

end

section
variable {K : Type} [Field K] [LinearOrder K] [IsStrictOrderedRing K]

/-! ### Between the rates -/

theorem pool_le {prior : Estimate K} {weight rate most : K} (positive : 0 < weight) (priorPositive : 0 < prior.weight)
    (rateLe : rate ≤ most) (priorLe : prior.rate ≤ most) : (pool prior weight rate).rate ≤ most := by
  rw [pool, div_le_iff₀ (add_pos positive priorPositive), mul_add, mul_comm most, mul_comm most]
  exact add_le_add (mul_le_mul_of_nonneg_left rateLe positive.le) (mul_le_mul_of_nonneg_left priorLe priorPositive.le)

theorem le_pool {prior : Estimate K} {weight rate least : K} (positive : 0 < weight) (priorPositive : 0 < prior.weight)
    (leRate : least ≤ rate) (lePrior : least ≤ prior.rate) : least ≤ (pool prior weight rate).rate := by
  rw [pool, le_div_iff₀ (add_pos positive priorPositive), mul_add, mul_comm least, mul_comm least]
  exact add_le_add (mul_le_mul_of_nonneg_left leRate positive.le) (mul_le_mul_of_nonneg_left lePrior priorPositive.le)

theorem pool_lt {prior : Estimate K} {weight rate bound : K} (positive : 0 < weight) (priorPositive : 0 < prior.weight)
    (rateLt : rate < bound) (priorLt : prior.rate < bound) : (pool prior weight rate).rate < bound := by
  rw [pool, div_lt_iff₀ (add_pos positive priorPositive), mul_add, mul_comm bound, mul_comm bound]
  exact add_lt_add (mul_lt_mul_of_pos_left rateLt positive) (mul_lt_mul_of_pos_left priorLt priorPositive)

theorem lt_pool {prior : Estimate K} {weight rate bound : K} (positive : 0 < weight) (priorPositive : 0 < prior.weight)
    (ltRate : bound < rate) (ltPrior : bound < prior.rate) : bound < (pool prior weight rate).rate := by
  rw [pool, lt_div_iff₀ (add_pos positive priorPositive), mul_add, mul_comm bound, mul_comm bound]
  exact add_lt_add (mul_lt_mul_of_pos_left ltRate positive) (mul_lt_mul_of_pos_left ltPrior priorPositive)

omit [IsStrictOrderedRing K] in
theorem chain_weight_pos {prior : Estimate K} {items : List (K × K)} (positive : ∀ item ∈ items, 0 < item.1)
    (priorPositive : 0 < prior.weight) : 0 < (chain prior items).weight := by
  induction items generalizing prior with
  | nil => exact priorPositive
  | cons item rest ih =>
    exact ih (fun other member => positive other (List.mem_cons_of_mem _ member)) (positive item List.mem_cons_self)

omit [IsStrictOrderedRing K] in
/-- What holds of all rates and is kept by pooling holds of the chain. -/
theorem chain_induction {motive : K → Prop} {prior : Estimate K} {items : List (K × K)}
    (pooled : ∀ {prior : Estimate K} {weight rate : K}, 0 < weight → 0 < prior.weight → motive rate → motive prior.rate →
      motive (pool prior weight rate).rate)
    (positive : ∀ item ∈ items, 0 < item.1) (priorPositive : 0 < prior.weight) (rates : ∀ item ∈ items, motive item.2)
    (priorRate : motive prior.rate) : motive (chain prior items).rate := by
  induction items generalizing prior with
  | nil => exact priorRate
  | cons item rest ih =>
    have itemPositive := positive item List.mem_cons_self
    refine ih (fun other member => positive other (List.mem_cons_of_mem _ member)) itemPositive
      (fun other member => rates other (List.mem_cons_of_mem _ member)) ?_
    exact pooled itemPositive priorPositive (rates item List.mem_cons_self) priorRate

theorem chain_le {prior : Estimate K} {items : List (K × K)} {most : K} (positive : ∀ item ∈ items, 0 < item.1)
    (priorPositive : 0 < prior.weight) (ratesLe : ∀ item ∈ items, item.2 ≤ most) (priorLe : prior.rate ≤ most) :
    (chain prior items).rate ≤ most :=
  chain_induction (motive := (· ≤ most)) pool_le positive priorPositive ratesLe priorLe

theorem le_chain {prior : Estimate K} {items : List (K × K)} {least : K} (positive : ∀ item ∈ items, 0 < item.1)
    (priorPositive : 0 < prior.weight) (leRates : ∀ item ∈ items, least ≤ item.2) (lePrior : least ≤ prior.rate) :
    least ≤ (chain prior items).rate :=
  chain_induction (motive := (least ≤ ·)) le_pool positive priorPositive leRates lePrior

theorem chain_lt {prior : Estimate K} {items : List (K × K)} {bound : K} (positive : ∀ item ∈ items, 0 < item.1)
    (priorPositive : 0 < prior.weight) (ratesLt : ∀ item ∈ items, item.2 < bound) (priorLt : prior.rate < bound) :
    (chain prior items).rate < bound :=
  chain_induction (motive := (· < bound)) pool_lt positive priorPositive ratesLt priorLt

theorem lt_chain {prior : Estimate K} {items : List (K × K)} {bound : K} (positive : ∀ item ∈ items, 0 < item.1)
    (priorPositive : 0 < prior.weight) (ltRates : ∀ item ∈ items, bound < item.2) (ltPrior : bound < prior.rate) :
    bound < (chain prior items).rate :=
  chain_induction (motive := (bound < ·)) lt_pool positive priorPositive ltRates ltPrior

theorem pool_eq_zero_iff {prior : Estimate K} {weight rate : K} (positive : 0 < weight) (priorPositive : 0 < prior.weight)
    (rateNonneg : 0 ≤ rate) (priorNonneg : 0 ≤ prior.rate) :
    (pool prior weight rate).rate = 0 ↔ rate = 0 ∧ prior.rate = 0 := by
  have sum := add_eq_zero_iff_of_nonneg (mul_nonneg positive.le rateNonneg) (mul_nonneg priorPositive.le priorNonneg)
  rw [pool, div_eq_zero_iff, or_iff_left (add_pos positive priorPositive).ne', sum, mul_eq_zero, mul_eq_zero,
    or_iff_right positive.ne', or_iff_right priorPositive.ne']

theorem chain_eq_zero_iff {prior : Estimate K} {items : List (K × K)} (positive : ∀ item ∈ items, 0 < item.1)
    (priorPositive : 0 < prior.weight) (ratesNonneg : ∀ item ∈ items, 0 ≤ item.2) (priorNonneg : 0 ≤ prior.rate) :
    (chain prior items).rate = 0 ↔ prior.rate = 0 ∧ ∀ item ∈ items, item.2 = 0 := by
  induction items generalizing prior with
  | nil => simp
  | cons item rest ih =>
    have here := positive item List.mem_cons_self
    have rateNonneg := ratesNonneg item List.mem_cons_self
    rw [chain_cons, ih (fun other member => positive other (List.mem_cons_of_mem _ member)) here
      (fun other member => ratesNonneg other (List.mem_cons_of_mem _ member))
      (le_pool here priorPositive rateNonneg priorNonneg), pool_eq_zero_iff here priorPositive rateNonneg priorNonneg,
      List.forall_mem_cons]
    tauto

/-! ### Growing with the rates -/

theorem pool_lt_pool {weight priorWeight rate rate' priorRate priorRate' : K} (positive : 0 < weight)
    (priorPositive : 0 < priorWeight) (rates : rate ≤ rate') (priors : priorRate ≤ priorRate')
    (strict : rate < rate' ∨ priorRate < priorRate') :
    (pool ⟨priorWeight, priorRate⟩ weight rate).rate < (pool ⟨priorWeight, priorRate'⟩ weight rate').rate := by
  refine div_lt_div_of_pos_right ?_ (add_pos positive priorPositive)
  rcases strict with above | above
  · exact add_lt_add_of_lt_of_le (mul_lt_mul_of_pos_left above positive)
      (mul_le_mul_of_nonneg_left priors priorPositive.le)
  · exact add_lt_add_of_le_of_lt (mul_le_mul_of_nonneg_left rates positive.le)
      (mul_lt_mul_of_pos_left above priorPositive)

theorem pool_le_pool {weight priorWeight rate rate' priorRate priorRate' : K} (positive : 0 < weight)
    (priorPositive : 0 < priorWeight) (rates : rate ≤ rate') (priors : priorRate ≤ priorRate') :
    (pool ⟨priorWeight, priorRate⟩ weight rate).rate ≤ (pool ⟨priorWeight, priorRate'⟩ weight rate').rate := by
  refine div_le_div_of_nonneg_right ?_ (add_pos positive priorPositive).le
  exact add_le_add (mul_le_mul_of_nonneg_left rates positive.le) (mul_le_mul_of_nonneg_left priors priorPositive.le)

/-- With the same weights and no lower rates, one higher rate makes the chain
    higher. -/
theorem chain_map_lt {ι : Type} {indices : List ι} {weights rates rates' : ι → K} {weight rate rate' : K}
    (positive : ∀ i ∈ indices, 0 < weights i) (priorPositive : 0 < weight) (ratesLe : ∀ i ∈ indices, rates i ≤ rates' i)
    (priorLe : rate ≤ rate') (strict : rate < rate' ∨ ∃ i ∈ indices, rates i < rates' i) :
    (chain ⟨weight, rate⟩ (indices.map fun i => (weights i, rates i))).rate <
      (chain ⟨weight, rate'⟩ (indices.map fun i => (weights i, rates' i))).rate := by
  induction indices generalizing weight rate rate' with
  | nil => exact strict.resolve_right (by simp)
  | cons i rest ih =>
    have here := positive i List.mem_cons_self
    have rateLe := ratesLe i List.mem_cons_self
    refine ih (fun j member => positive j (List.mem_cons_of_mem _ member)) here
      (fun j member => ratesLe j (List.mem_cons_of_mem _ member)) (pool_le_pool here priorPositive rateLe priorLe) ?_
    rcases strict with above | ⟨j, member, above⟩
    · exact .inl (pool_lt_pool here priorPositive rateLe priorLe (.inr above))
    · rcases List.mem_cons.mp member with rfl | later
      · exact .inl (pool_lt_pool here priorPositive rateLe priorLe (.inl above))
      · exact .inr ⟨j, later, above⟩

/-- What is pooled in later keeps two estimates of one weight apart. -/
theorem chain_lt_chain {weight rate rate' : K} {items : List (K × K)} (positive : ∀ item ∈ items, 0 < item.1)
    (priorPositive : 0 < weight) (above : rate < rate') :
    (chain ⟨weight, rate⟩ items).rate < (chain ⟨weight, rate'⟩ items).rate := by
  have lower := @chain_map_lt K _ _ _ (K × K) items Prod.fst Prod.snd Prod.snd weight rate rate' positive priorPositive
    (fun _ _ => le_rfl) above.le (.inl above)
  simpa using lower

theorem chain_rate_injective {weight rate rate' : K} {items : List (K × K)} (positive : ∀ item ∈ items, 0 < item.1)
    (priorPositive : 0 < weight) (same : (chain ⟨weight, rate⟩ items).rate = (chain ⟨weight, rate'⟩ items).rate) :
    rate = rate' := by
  rcases lt_trichotomy rate rate' with below | equal | above
  · exact absurd same (chain_lt_chain positive priorPositive below).ne
  · exact equal
  · exact absurd same (chain_lt_chain positive priorPositive above).ne'

/-! ### Scaled weights -/

/-- A value that is the same under every positive scale. -/
def Steady (value : K → K) (t : K) : Prop := ∀ scale, 0 < scale → value scale = t

/-- If both weights are scaled, the pooled rate depends on the scale as the prior
    rate does. -/
theorem scaled_both_iff {old : K → K} {oldWeight weight rate : K} (positive : 0 < weight)
    (oldPositive : 0 < oldWeight) :
    (∃ t, Steady (fun scale => (pool ⟨scale * oldWeight, old scale⟩ (scale * weight) rate).rate) t) ↔
      ∃ t, Steady old t := by
  have unscaled : ∀ scale, 0 < scale → (pool ⟨scale * oldWeight, old scale⟩ (scale * weight) rate).rate =
      (pool ⟨oldWeight, old scale⟩ weight rate).rate := fun scale scalePositive =>
    @pool_scale K _ ⟨oldWeight, old scale⟩ weight rate scale scalePositive.ne'
  constructor
  · rintro ⟨t, steady⟩
    refine ⟨old 1, fun scale scalePositive => ?_⟩
    have same : (pool ⟨oldWeight, old scale⟩ weight rate).rate = (pool ⟨oldWeight, old 1⟩ weight rate).rate := by
      rw [← unscaled scale scalePositive, ← unscaled 1 one_pos]
      exact (steady scale scalePositive).trans (steady 1 one_pos).symm
    exact @chain_rate_injective K _ _ _ oldWeight _ _ [(weight, rate)] (by simpa using positive) oldPositive same
  · rintro ⟨t, steady⟩
    refine ⟨(pool ⟨oldWeight, t⟩ weight rate).rate, fun scale scalePositive => ?_⟩
    exact (unscaled scale scalePositive).trans (by rw [steady scale scalePositive])

/-- What is bounded does not grow with every scale. -/
theorem eq_zero_of_scaled {old : K → K} {bound a b t x : K} (aPositive : 0 < a) (bPositive : 0 < b)
    (bounded : ∀ scale, 0 < scale → |old scale| ≤ bound)
    (scaled : ∀ scale, 0 < scale → a * (old scale - t) = scale * (b * x)) : x = 0 := by
  by_contra nonzero
  have size : 0 < |x| := abs_pos.mpr nonzero
  have boundNonneg : 0 ≤ bound := (abs_nonneg _).trans (bounded 1 one_pos)
  obtain ⟨scale, isScale⟩ : ∃ scale, scale = (a * (bound + |t|) + 1) / (b * |x|) := ⟨_, rfl⟩
  have scalePositive : 0 < scale := by
    rw [isScale]
    positivity
  have near : |old scale - t| ≤ bound + |t| := (abs_sub _ _).trans (add_le_add_left (bounded scale scalePositive) _)
  have equal := congrArg abs (scaled scale scalePositive)
  have product : scale * (b * |x|) = a * (bound + |t|) + 1 := by
    rw [isScale, div_mul_cancel₀ _ (by positivity)]
  rw [abs_mul, abs_mul, abs_mul, abs_of_pos aPositive, abs_of_pos scalePositive, abs_of_pos bPositive, product] at equal
  linarith [mul_le_mul_of_nonneg_left near aPositive.le]

/-- If only the new weight is scaled, the pooled rate is the same under every
    scale only where the prior has the new rate itself. -/
theorem scaled_new_iff {old : K → K} {bound oldWeight weight rate t : K} (positive : 0 < weight)
    (oldPositive : 0 < oldWeight) (bounded : ∀ scale, 0 < scale → |old scale| ≤ bound) :
    Steady (fun scale => (pool ⟨oldWeight, old scale⟩ (scale * weight) rate).rate) t ↔ t = rate ∧ Steady old rate := by
  have pooled : ∀ scale, 0 < scale → ((pool ⟨oldWeight, old scale⟩ (scale * weight) rate).rate = t ↔
      oldWeight * (old scale - t) = scale * weight * (t - rate)) := by
    intro scale scalePositive
    rw [pool, div_eq_iff (by positivity)]
    constructor <;> intro same <;> linear_combination same
  constructor
  · intro steady
    -- under a large scale the new rate would prevail
    have isRate : t - rate = 0 := eq_zero_of_scaled oldPositive positive bounded fun scale scalePositive => by
      rw [← mul_assoc]
      exact (pooled scale scalePositive).mp (steady scale scalePositive)
    obtain rfl := sub_eq_zero.mp isRate
    refine ⟨rfl, fun scale scalePositive => ?_⟩
    have equal := (pooled scale scalePositive).mp (steady scale scalePositive)
    rw [sub_self, mul_zero, mul_eq_zero, sub_eq_zero] at equal
    exact equal.resolve_left oldPositive.ne'
  · rintro ⟨rfl, steady⟩ scale scalePositive
    refine (pooled scale scalePositive).mpr ?_
    rw [steady scale scalePositive, sub_self, mul_zero, mul_zero]

/-- If only the prior weight is scaled and nothing is pooled in, the rate is the
    same under every scale only where it is 0. -/
theorem scaled_old_iff {old : K → K} {bound oldWeight weight t : K} (positive : 0 < weight)
    (oldPositive : 0 < oldWeight) (bounded : ∀ scale, 0 < scale → |old scale| ≤ bound) :
    Steady (fun scale => (pool ⟨scale * oldWeight, old scale⟩ weight 0).rate) t ↔ t = 0 ∧ Steady old 0 := by
  have pooled : ∀ scale, 0 < scale → ((pool ⟨scale * oldWeight, old scale⟩ weight 0).rate = t ↔
      scale * oldWeight * (old scale - t) = weight * t) := by
    intro scale scalePositive
    rw [pool, div_eq_iff (by positivity)]
    constructor <;> intro same <;> linear_combination same
  constructor
  · intro steady
    -- under a small scale the weight of nothing would prevail
    have inverted : ∀ scale, 0 < scale → oldWeight * (old scale⁻¹ - t) = scale * (weight * t) := by
      intro scale scalePositive
      have inverse := inv_pos.mpr scalePositive
      rw [← (pooled scale⁻¹ inverse).mp (steady scale⁻¹ inverse), mul_assoc, mul_inv_cancel_left₀ scalePositive.ne']
    have isZero : t = 0 := @eq_zero_of_scaled K _ _ _ (fun scale => old scale⁻¹) bound oldWeight weight t t oldPositive
      positive (fun scale scalePositive => bounded scale⁻¹ (inv_pos.mpr scalePositive)) inverted
    subst isZero
    refine ⟨rfl, fun scale scalePositive => ?_⟩
    have equal := (pooled scale scalePositive).mp (steady scale scalePositive)
    rw [mul_zero, sub_zero, mul_eq_zero] at equal
    exact equal.resolve_left (mul_pos scalePositive oldPositive).ne'
  · rintro ⟨rfl, steady⟩ scale scalePositive
    refine (pooled scale scalePositive).mpr ?_
    rw [steady scale scalePositive, sub_self, mul_zero, mul_zero]

theorem scaled_chain_iff {old : K → K} {oldWeight : K} {items : List (K × K)} (positive : ∀ item ∈ items, 0 < item.1)
    (oldPositive : 0 < oldWeight) :
    (∃ t, Steady (fun scale =>
        (chain ⟨scale * oldWeight, old scale⟩ (items.map fun item => (scale * item.1, item.2))).rate) t) ↔
      ∃ t, Steady old t := by
  induction items generalizing old oldWeight with
  | nil => rfl
  | cons item rest ih =>
    have here := positive item List.mem_cons_self
    have later := @ih (fun scale => (pool ⟨scale * oldWeight, old scale⟩ (scale * item.1) item.2).rate) item.1
      (fun other member => positive other (List.mem_cons_of_mem _ member)) here
    exact later.trans (scaled_both_iff here oldPositive)

/-- Behind a prior of fixed weight, scaled weights give the same rate under every
    scale only where the prior has the rate that comes next. -/
theorem scaled_chain_new_iff {old : K → K} {bound oldWeight : K} {item : K × K} {items : List (K × K)}
    (positive : ∀ other ∈ item :: items, 0 < other.1) (oldPositive : 0 < oldWeight)
    (bounded : ∀ scale, 0 < scale → |old scale| ≤ bound) :
    (∃ t, Steady (fun scale =>
        (chain ⟨oldWeight, old scale⟩ ((item :: items).map fun item => (scale * item.1, item.2))).rate) t) ↔
      Steady old item.2 := by
  have here := positive item List.mem_cons_self
  have later := @scaled_chain_iff K _ _ _ (fun scale => (pool ⟨oldWeight, old scale⟩ (scale * item.1) item.2).rate) item.1
    items (fun other member => positive other (List.mem_cons_of_mem _ member)) here
  refine later.trans ?_
  simp only [scaled_new_iff here oldPositive bounded, exists_eq_left]

end
end Cdo.Pooling
