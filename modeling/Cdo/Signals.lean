import Cdo.Tables

/-!
The hourly curves that scale volumes and budgets (`getBudgetSignal` of
`cdoPopulate.pm`; `impSignal`, `budgetSignal` and `greaterOf` of `CDO.pm`). A
budget share is the campaign's own where it has more than 24 actions in the
window, otherwise the network's; the budget of an hour is the daily budget times
the share, and never less than 1. For a campaign whose curve covers the day the
24 shares sum to 1, so the hourly budgets exceed the daily budget by exactly
what the floor of 1 adds (`hourly_budgets_exceed_by_floors`).
-/
namespace Cdo.Signals
open Cdo.Text Cdo.Query Cdo.Tables

@[ext] structure CampaignGroup where
  san : Str
deriving DecidableEq

structure ImpSignal where
  hour_imps : Option Int
  total_imps : Option Int
deriving DecidableEq

structure BudgetSignal where
  hour_actions : Option Int
  total_actions : Option Int
deriving DecidableEq

def since {γ : Type} (delayDate : Date) (rows : List (Rollup γ)) : List (Rollup γ) :=
  rows.filter fun row => delayDate ≤ row.date

def actionsOf {γ : Type} (rows : List (Rollup γ)) : Option Int := sumColumn Rollup.actions rows

/-- The hours of the campaigns, in the order of account name and hour. -/
def campaignKey (row : Rollup CampaignGroup) : Str ×ₗ Nat := toLex (row.group.san, row.hour)

/-- `concat(san, hour)`. -/
def signalText (group : (Str ×ₗ Nat) × Option Int) : Str := (ofLex group.1).1 ++ natText (ofLex group.1).2

def signalOf (totals : SortedMap Str (Option Int)) (group : (Str ×ₗ Nat) × Option Int) : BudgetSignal :=
  ⟨group.2, (totals.get? (ofLex group.1).1).join⟩

/-- The budget signals of the campaigns, under account name and hour written
    after one another, and of the network, under the hour. -/
def getBudgetSignal (campaignHour : List (Rollup CampaignGroup)) (delayDate : Date) :
    SortedMap Str BudgetSignal × SortedMap Nat BudgetSignal :=
  let rows := since delayDate campaignHour
  let totals := groupMap (fun row => row.group.san) actionsOf rows
  let campBudgetSignal := SortedMap.ofRows signalText (signalOf totals) (groupMap campaignKey actionsOf rows).entries
  let networkBudgetSignal := groupMap Rollup.hour (fun group => (⟨actionsOf group, actionsOf rows⟩ : BudgetSignal)) rows
  (campBudgetSignal, networkBudgetSignal)

/-- Division, which stops the program at a zero divisor. -/
def quotient (a b : Int) : Option ℚ := if b = 0 then none else some ((a : ℚ) / b)

def networkShare (n : SortedMap Nat BudgetSignal) (hour : Nat) : Option ℚ :=
  quotient (num ((n.get? hour).bind BudgetSignal.hour_actions)) (num ((n.get? hour).bind BudgetSignal.total_actions))

def budgetSignal (b : SortedMap Str BudgetSignal) (n : SortedMap Nat BudgetSignal) (input : Str) (hour : Nat) :
    Option ℚ :=
  let entry := b.get? (input ++ natText hour)
  if 24 < num (entry.bind BudgetSignal.total_actions) then
    -- the source compares the entry itself with 0, which holds of a missing entry only
    if entry.isNone then some (1 / 10000000)
    else quotient (num (entry.bind BudgetSignal.hour_actions)) (num (entry.bind BudgetSignal.total_actions))
  else networkShare n hour

def greaterOf (a b : ℚ) : ℚ := if a < b then b else a

def budgetAmount (totalbudget : Option Int) (b : SortedMap Str BudgetSignal) (n : SortedMap Nat BudgetSignal) (san : Str)
    (hour : Nat) : Option ℚ :=
  (budgetSignal b n san hour).map fun share => greaterOf 1 (num totalbudget * share)

def networkImps (n : SortedMap Nat ImpSignal) (hour : Nat) : Option ℚ :=
  quotient (num ((n.get? hour).bind ImpSignal.hour_imps)) (num ((n.get? hour).bind ImpSignal.total_imps))

def impSignal (s : SortedMap Str ImpSignal) (n : SortedMap Nat ImpSignal) (input : Str) (hour : Nat) : Option ℚ :=
  match s.get? input with
  | some entry =>
    if num entry.total_imps = 0 then networkImps n hour else quotient (num entry.hour_imps) (num entry.total_imps)
  | none => networkImps n hour

/-! ### What the signals hold -/

section
variable {campaignHour : List (Rollup CampaignGroup)} {delayDate : Date} {san : Str}

/-- The actions of a campaign in the window. -/
def campaignActions (campaignHour : List (Rollup CampaignGroup)) (delayDate : Date) (san : Str) : Int :=
  (((since delayDate campaignHour).filter fun row => row.group.san = san).map fun row => num row.actions).sum

def campaignHourActions (campaignHour : List (Rollup CampaignGroup)) (delayDate : Date) (san : Str) (hour : Nat) : Int :=
  (((since delayDate campaignHour).filter fun row => row.group.san = san ∧ row.hour = hour).map fun row =>
    num row.actions).sum

def networkActions (campaignHour : List (Rollup CampaignGroup)) (delayDate : Date) : Int :=
  ((since delayDate campaignHour).map fun row => num row.actions).sum

def networkHourActions (campaignHour : List (Rollup CampaignGroup)) (delayDate : Date) (hour : Nat) : Int :=
  (((since delayDate campaignHour).filter fun row => row.hour = hour).map fun row => num row.actions).sum

/-- The keys of a campaign's hours are those of its own rows only. -/
def OwnKeys (campaignHour : List (Rollup CampaignGroup)) (delayDate : Date) (san : Str) : Prop :=
  ∀ row ∈ since delayDate campaignHour, ∀ hour < 24, row.group.san ++ natText row.hour = san ++ natText hour →
    row.group.san = san ∧ row.hour = hour

def HasHour (campaignHour : List (Rollup CampaignGroup)) (delayDate : Date) (san : Str) (hour : Nat) : Prop :=
  ∃ row ∈ since delayDate campaignHour, row.group.san = san ∧ row.hour = hour

theorem networkSignal_eq {hour : Nat} (present : ∃ row ∈ since delayDate campaignHour, row.hour = hour) :
    ∃ entry, (getBudgetSignal campaignHour delayDate).2.get? hour = some entry ∧
      num entry.hour_actions = networkHourActions campaignHour delayDate hour ∧
      num entry.total_actions = networkActions campaignHour delayDate := by
  obtain ⟨row, member, rfl⟩ := present
  refine ⟨⟨actionsOf ((since delayDate campaignHour).filter fun other => other.hour = row.hour),
    actionsOf (since delayDate campaignHour)⟩, ?_, num_sumColumn _ _, num_sumColumn _ _⟩
  unfold getBudgetSignal
  rw [get?_groupMap, if_pos (List.mem_map_of_mem member)]

theorem campaignSignal_eq (own : OwnKeys campaignHour delayDate san) {hour : Nat} (inDay : hour < 24)
    (present : HasHour campaignHour delayDate san hour) :
    ∃ entry, (getBudgetSignal campaignHour delayDate).1.get? (san ++ natText hour) = some entry ∧
      num entry.hour_actions = campaignHourActions campaignHour delayDate san hour ∧
      num entry.total_actions = campaignActions campaignHour delayDate san := by
  obtain ⟨row, member, rfl, rfl⟩ := present
  have listed : (campaignKey row, actionsOf ((since delayDate campaignHour).filter fun other =>
      campaignKey other = campaignKey row)) ∈ (groupMap campaignKey actionsOf (since delayDate campaignHour)).entries := by
    exact SortedMap.mem_entries.mpr (get?_groupMap_eq_some.mpr ⟨⟨row, member, rfl⟩, rfl⟩)
  refine ⟨_, SortedMap.get?_ofRows_eq listed ?_, ?_, ?_⟩
  · -- no other group is fetched under the same text
    rintro ⟨k, actions⟩ fetched same
    obtain ⟨⟨other, otherMember, rfl⟩, rfl⟩ := get?_groupMap_eq_some.mp (SortedMap.mem_entries.mp fetched)
    obtain ⟨sameSan, sameHour⟩ := own other otherMember row.hour inDay same
    have sameKey : campaignKey other = campaignKey row := by simp only [campaignKey, sameSan, sameHour]
    rw [sameKey]
  · simp only [signalOf, actionsOf, num_sumColumn, campaignHourActions, campaignKey, EmbeddingLike.apply_eq_iff_eq,
      Prod.mk.injEq]
  · have total : (groupMap (fun row : Rollup CampaignGroup => row.group.san) actionsOf
        (since delayDate campaignHour)).get? row.group.san = some (actionsOf ((since delayDate campaignHour).filter
          fun other => other.group.san = row.group.san)) := by
      rw [get?_groupMap, if_pos (List.mem_map.mpr ⟨row, member, rfl⟩)]
    simp only [signalOf, campaignKey, ofLex_toLex, total, Option.join_some, actionsOf, num_sumColumn, campaignActions]

/-! ### Shares of the day -/

/-- Rows that all fall into the first hours are counted once by hours. -/
theorem sum_by_hour {γ : Type} (rows : List (Rollup γ)) (hours : Nat) (inDay : ∀ row ∈ rows, row.hour < hours)
    (value : Rollup γ → Int) :
    ∑ hour ∈ Finset.range hours, ((rows.filter fun row => row.hour = hour).map value).sum = (rows.map value).sum := by
  induction rows with
  | nil => simp
  | cons row rest ih =>
    have tail := ih fun other member => inDay other (List.mem_cons_of_mem _ member)
    have head : ∀ hour, (((row :: rest).filter fun row => row.hour = hour).map value).sum =
        (if row.hour = hour then value row else 0) + ((rest.filter fun row => row.hour = hour).map value).sum := by
      intro hour
      by_cases here : row.hour = hour <;> simp [here]
    have own : row.hour ∈ Finset.range hours := Finset.mem_range.mpr (inDay row List.mem_cons_self)
    rw [Finset.sum_congr rfl fun hour _ => head hour, Finset.sum_add_distrib, tail, Finset.sum_ite_eq, if_pos own,
      List.map_cons, List.sum_cons]

/-- Parts that sum to a total other than 0 are shares that sum to 1. -/
theorem sum_shares {hours : Nat} {part : Nat → Int} {total : Int} (nonzero : total ≠ 0)
    (sums : ∑ hour ∈ Finset.range hours, part hour = total) :
    ∑ hour ∈ Finset.range hours, (part hour : ℚ) / total = 1 := by
  rw [← Finset.sum_div, ← Int.cast_sum, sums]
  exact div_self (Int.cast_ne_zero.mpr nonzero)

theorem campaignSignal_none (own : OwnKeys campaignHour delayDate san) {hour : Nat} (inDay : hour < 24)
    (absent : ¬ HasHour campaignHour delayDate san hour) :
    (getBudgetSignal campaignHour delayDate).1.get? (san ++ natText hour) = none := by
  refine SortedMap.get?_ofRows_none ?_
  rintro ⟨k, actions⟩ fetched same
  obtain ⟨⟨row, member, rfl⟩, -⟩ := get?_groupMap_eq_some.mp (SortedMap.mem_entries.mp fetched)
  exact absent ⟨row, member, own row member hour inDay same⟩

theorem networkShare_eq {hour : Nat} (present : ∃ row ∈ since delayDate campaignHour, row.hour = hour)
    (positive : 0 < networkActions campaignHour delayDate) :
    networkShare (getBudgetSignal campaignHour delayDate).2 hour =
      some ((networkHourActions campaignHour delayDate hour : ℚ) / networkActions campaignHour delayDate) := by
  obtain ⟨entry, found, hourActions, totalActions⟩ := networkSignal_eq present
  simp only [networkShare, found, Option.bind_some, hourActions, totalActions, quotient, if_neg positive.ne']

/-- A campaign with few actions takes the network's share. -/
theorem budgetSignal_few (own : OwnKeys campaignHour delayDate san) {hour : Nat} (inDay : hour < 24)
    (few : campaignActions campaignHour delayDate san ≤ 24) :
    budgetSignal (getBudgetSignal campaignHour delayDate).1 (getBudgetSignal campaignHour delayDate).2 san hour =
      networkShare (getBudgetSignal campaignHour delayDate).2 hour := by
  by_cases present : HasHour campaignHour delayDate san hour
  · obtain ⟨entry, found, -, totalActions⟩ := campaignSignal_eq own inDay present
    simp only [budgetSignal, found, Option.bind_some, totalActions, if_neg (not_lt.mpr few)]
  · simp only [budgetSignal, campaignSignal_none own inDay present, Option.bind_none, num_none]
    exact if_neg (by decide)

/-- A campaign with many actions takes its own share of an hour it has a row for. -/
theorem budgetSignal_many (own : OwnKeys campaignHour delayDate san) {hour : Nat} (inDay : hour < 24)
    (many : 24 < campaignActions campaignHour delayDate san) (present : HasHour campaignHour delayDate san hour) :
    budgetSignal (getBudgetSignal campaignHour delayDate).1 (getBudgetSignal campaignHour delayDate).2 san hour =
      some ((campaignHourActions campaignHour delayDate san hour : ℚ) / campaignActions campaignHour delayDate san) := by
  obtain ⟨entry, found, hourActions, totalActions⟩ := campaignSignal_eq own inDay present
  have nonzero : campaignActions campaignHour delayDate san ≠ 0 := by omega
  simp only [budgetSignal, found, Option.bind_some, hourActions, totalActions, if_pos many, Option.isNone_some,
    Bool.false_eq_true, if_false, quotient, if_neg nonzero]

/-- The 24 shares of a campaign with few actions, or with a row for every hour,
    sum to 1. -/
theorem shares_sum_one (hours : ∀ row ∈ campaignHour, row.hour < 24)
    (allHours : ∀ hour < 24, ∃ row ∈ since delayDate campaignHour, row.hour = hour)
    (positive : 0 < networkActions campaignHour delayDate) (own : OwnKeys campaignHour delayDate san)
    (covered : campaignActions campaignHour delayDate san ≤ 24 ∨ ∀ hour < 24, HasHour campaignHour delayDate san hour) :
    ∃ share : Nat → ℚ,
      (∀ hour < 24, budgetSignal (getBudgetSignal campaignHour delayDate).1 (getBudgetSignal campaignHour delayDate).2 san
        hour = some (share hour)) ∧ ∑ hour ∈ Finset.range 24, share hour = 1 := by
  have inWindow : ∀ row ∈ since delayDate campaignHour, row.hour < 24 :=
    fun row member => hours row (List.mem_of_mem_filter member)
  by_cases few : campaignActions campaignHour delayDate san ≤ 24
  · refine ⟨fun hour => networkHourActions campaignHour delayDate hour / networkActions campaignHour delayDate, ?_, ?_⟩
    · intro hour inDay
      rw [budgetSignal_few own inDay few, networkShare_eq (allHours hour inDay) positive]
    · exact sum_shares positive.ne' (sum_by_hour _ 24 inWindow _)
  · have many : 24 < campaignActions campaignHour delayDate san := not_le.mp few
    have hasHour := covered.resolve_left few
    refine ⟨fun hour => campaignHourActions campaignHour delayDate san hour / campaignActions campaignHour delayDate san,
      fun hour inDay => budgetSignal_many own inDay many (hasHour hour inDay), sum_shares (by omega) ?_⟩
    have byHour := sum_by_hour ((since delayDate campaignHour).filter fun row => row.group.san = san) 24
      (fun row member => inWindow row (List.mem_of_mem_filter member)) fun row => num row.actions
    simp only [List.filter_filter] at byHour
    simpa only [campaignHourActions, campaignActions, Bool.decide_and, Bool.and_comm] using byHour

end

/-! ### The hours of a day together -/

theorem greaterOf_one (b : ℚ) : greaterOf 1 b = b + max 0 (1 - b) := by
  unfold greaterOf
  split_ifs with above
  · rw [max_eq_left (by linarith), add_zero]
  · rw [max_eq_right (by linarith)]
    ring

/-- The shares of a day sum to 1, its hourly budgets to the daily budget plus what
    the floor of 1 adds in each hour; they stay within it exactly if the floor adds
    nothing. -/
theorem hourly_budgets_exceed_by_floors (campaignHour : List (Rollup CampaignGroup)) (delayDate : Date) (san : Str)
    (totalbudget : Option Int) (hours : ∀ row ∈ campaignHour, row.hour < 24)
    (allHours : ∀ hour < 24, ∃ row ∈ since delayDate campaignHour, row.hour = hour)
    (positive : 0 < networkActions campaignHour delayDate) (own : OwnKeys campaignHour delayDate san)
    (covered : campaignActions campaignHour delayDate san ≤ 24 ∨ ∀ hour < 24, HasHour campaignHour delayDate san hour) :
    ∃ share amount : Nat → ℚ,
      (∀ hour < 24,
        budgetSignal (getBudgetSignal campaignHour delayDate).1 (getBudgetSignal campaignHour delayDate).2 san hour =
          some (share hour) ∧
        budgetAmount totalbudget (getBudgetSignal campaignHour delayDate).1 (getBudgetSignal campaignHour delayDate).2 san
          hour = some (amount hour)) ∧
      ∑ hour ∈ Finset.range 24, share hour = 1 ∧
      ∑ hour ∈ Finset.range 24, amount hour =
        num totalbudget + ∑ hour ∈ Finset.range 24, max 0 (1 - num totalbudget * share hour) ∧
      (∑ hour ∈ Finset.range 24, amount hour ≤ num totalbudget ↔ ∀ hour < 24, 1 ≤ num totalbudget * share hour) := by
  obtain ⟨share, shares, one⟩ := shares_sum_one hours allHours positive own covered
  have total : ∑ hour ∈ Finset.range 24, greaterOf 1 (num totalbudget * share hour) =
      num totalbudget + ∑ hour ∈ Finset.range 24, max 0 (1 - num totalbudget * share hour) := by
    calc ∑ hour ∈ Finset.range 24, greaterOf 1 (num totalbudget * share hour)
        = ∑ hour ∈ Finset.range 24, (num totalbudget * share hour + max 0 (1 - num totalbudget * share hour)) :=
          Finset.sum_congr rfl fun hour _ => greaterOf_one _
      _ = num totalbudget * ∑ hour ∈ Finset.range 24, share hour +
            ∑ hour ∈ Finset.range 24, max 0 (1 - num totalbudget * share hour) := by
          rw [Finset.sum_add_distrib, Finset.mul_sum]
      _ = _ := by rw [one, mul_one]
  refine ⟨share, fun hour => greaterOf 1 (num totalbudget * share hour), ?_, one, total, ?_⟩
  · intro hour inDay
    refine ⟨shares hour inDay, ?_⟩
    rw [budgetAmount, shares hour inDay, Option.map_some]
  · have floors : ∀ hour ∈ Finset.range 24, 0 ≤ max 0 (1 - num totalbudget * share hour) := fun hour _ => le_max_left _ _
    rw [total, add_le_iff_nonpos_right]
    constructor
    · intro none hour inDay
      have zero := (Finset.sum_eq_zero_iff_of_nonneg floors).mp (le_antisymm none (Finset.sum_nonneg floors)) hour
        (Finset.mem_range.mpr inDay)
      linarith [max_eq_left_iff.mp zero]
    · intro above
      refine (Finset.sum_eq_zero fun hour inRange => ?_).le
      exact max_eq_left (by linarith [above hour (Finset.mem_range.mp inRange)])

/-- A day in which one campaign has the given actions in every hour. -/
def evenDay (actions : Int) : List (Rollup CampaignGroup) :=
  (List.range 24).map fun hour => ⟨0, hour, ⟨"auo".toList⟩, some 1000, some 10, some actions, some 1⟩

theorem hourly_budgets_of_even_day :
    ∃ share amount : Nat → ℚ,
      (∀ hour < 24,
        budgetSignal (getBudgetSignal (evenDay 2) 0).1 (getBudgetSignal (evenDay 2) 0).2 "auo".toList hour =
          some (share hour) ∧
        budgetAmount (some 240) (getBudgetSignal (evenDay 2) 0).1 (getBudgetSignal (evenDay 2) 0).2
          "auo".toList hour = some (amount hour)) ∧
      ∑ hour ∈ Finset.range 24, share hour = 1 ∧
      ∑ hour ∈ Finset.range 24, amount hour =
        num (some 240) + ∑ hour ∈ Finset.range 24, max 0 (1 - num (some 240) * share hour) ∧
      (∑ hour ∈ Finset.range 24, amount hour ≤ num (some 240) ↔ ∀ hour < 24, 1 ≤ num (some 240) * share hour) :=
  hourly_budgets_exceed_by_floors (evenDay 2) 0 "auo".toList (some 240) (by decide) (by decide) (by decide)
    (by unfold OwnKeys; decide) (.inr (by unfold HasHour; decide))

/-- A daily budget of 10 spread evenly is 24 hourly budgets of 1. -/
theorem small_daily_budget_exceeded :
    (∀ hour < 24, ∃ row ∈ since 0 (evenDay 1), row.hour = hour) ∧ 0 < networkActions (evenDay 1) 0 ∧
      (∀ hour < 24, budgetAmount (some 10) (getBudgetSignal (evenDay 1) 0).1 (getBudgetSignal (evenDay 1) 0).2
        "auo".toList hour = some 1) ∧
      ¬ ∑ hour ∈ Finset.range 24, (budgetAmount (some 10) (getBudgetSignal (evenDay 1) 0).1
        (getBudgetSignal (evenDay 1) 0).2 "auo".toList hour).getD 0 ≤ 10 := by
  have ones : ∀ hour < 24, budgetAmount (some 10) (getBudgetSignal (evenDay 1) 0).1 (getBudgetSignal (evenDay 1) 0).2
      "auo".toList hour = some 1 := by decide +kernel
  refine ⟨by decide, by decide, ones, ?_⟩
  rw [Finset.sum_congr rfl fun hour inDay => congrArg (Option.getD · 0) (ones hour (Finset.mem_range.mp inDay))]
  norm_num

end Cdo.Signals
