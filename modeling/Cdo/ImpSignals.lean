import Cdo.Objective

/-!
The impression curves (`getImpSignals` of `cdoPopulate.pm`) and what the curves of
impressions and of budgets are read under. Hours are fetched under site, segment
and hour written after one another, totals under site and segment, so that
different groups can have the same text. A lookup reads the group that was fetched
last under the text; its share is the one asked for only if the two agree
(`signal_keys_iff`). Where the texts are a placement's own, its curve is made of
its own shares and, in the hours that it has no rows for, of the network's, which
come on top: the factors of a day sum to more than 1 (`placement_curve`).
-/
namespace Cdo.ImpSignals
open Cdo.Text Cdo.Query Cdo.Tables Cdo.Params Cdo.Signals Cdo.Objective

/-! ### The curves -/

def inWindow {γ : Type} (delayDate : Date) (dow : Nat) (rows : List (Rollup γ)) : List (Rollup γ) :=
  rows.filter fun row => decide (delayDate ≤ row.date) && dayofweek row.date == dow

def impsOf {γ : Type} (rows : List (Rollup γ)) : Option Int := sumColumn Rollup.impressions rows

/-- Site, segment and hour. -/
abbrev HourKey := Int ×ₗ Int ×ₗ Nat

def atHourOf (g : SiteSegmentGroup) (hour : Nat) : HourKey := toLex (g.siteid, toLex (g.segmentid, hour))

def hourKey (row : Rollup SiteSegmentGroup) : HourKey := atHourOf row.group row.hour

def placeOf (k : HourKey) : SiteSegmentGroup := ⟨(ofLex k).1, (ofLex (ofLex k).2).1⟩

def hourOf (k : HourKey) : Nat := (ofLex (ofLex k).2).2

/-- `concat(siteid, segmentid)`. -/
def placeText (g : SiteSegmentGroup) : Str := intText g.siteid ++ intText g.segmentid

/-- `concat(siteid, segmentid, hour)`. -/
def hourText (k : HourKey) : Str := placeText (placeOf k) ++ natText (hourOf k)

/-- The order in which the groups are fetched; the query has none. -/
abbrev GroupOrder := (groups : SortedMap HourKey (Option Int)) → groups.Listing

def siteSegmentHours (rows : List (Rollup SiteSegmentGroup)) : SortedMap HourKey (Option Int) :=
  groupMap hourKey impsOf rows

def siteSegmentTotal (rows : List (Rollup SiteSegmentGroup)) : SortedMap Str (Option Int) :=
  groupMap (fun row => placeText row.group) impsOf rows

/-- The fetched group with the total that is looked up for it. -/
def impSignalOf (rows : List (Rollup SiteSegmentGroup)) (k : HourKey) : ImpSignal :=
  ⟨((siteSegmentHours rows).get? k).join, ((siteSegmentTotal rows).get? (placeText (placeOf k))).join⟩

def siteSegImpSignal (order : GroupOrder) (rows : List (Rollup SiteSegmentGroup)) : SortedMap Str ImpSignal :=
  SortedMap.ofRows hourText (impSignalOf rows) (order (siteSegmentHours rows)).keys

def networkImpSignal (rows : List (Rollup CampaignGroup)) : SortedMap Nat ImpSignal :=
  groupMap Rollup.hour (fun group => (⟨impsOf group, impsOf rows⟩ : ImpSignal)) rows

def getImpSignals (order : GroupOrder) (siteSegmentHour : List (Rollup SiteSegmentGroup))
    (campaignHour : List (Rollup CampaignGroup)) (delayDate : Date) (dow : Nat) :
    SortedMap Str ImpSignal × SortedMap Nat ImpSignal :=
  (siteSegImpSignal order (inWindow delayDate dow siteSegmentHour), networkImpSignal (inWindow delayDate dow campaignHour))

/-! ### What the curves hold -/

def imps {γ : Type} (rows : List (Rollup γ)) : Int := (rows.map fun row => num row.impressions).sum

/-- The impressions of a site and segment in an hour. -/
def hourImps (rows : List (Rollup SiteSegmentGroup)) (k : HourKey) : Int :=
  imps (rows.filter fun row => hourKey row = k)

def placeImps (rows : List (Rollup SiteSegmentGroup)) (g : SiteSegmentGroup) : Int :=
  imps (rows.filter fun row => row.group = g)

/-- The impressions of all sites and segments with the same text. -/
def textImps (rows : List (Rollup SiteSegmentGroup)) (text : Str) : Int :=
  imps (rows.filter fun row => placeText row.group = text)

def networkHourImps (rows : List (Rollup CampaignGroup)) (hour : Nat) : Int := imps (rows.filter fun row => row.hour = hour)

/-- The group that was fetched last under a text. -/
def lastUnder (order : GroupOrder) (rows : List (Rollup SiteSegmentGroup)) (text : Str) : Option HourKey :=
  (order (siteSegmentHours rows)).keys.reverse.find? fun k => hourText k = text

/-- The share of a part in a total, if there is one, is that of another part. -/
def Agrees (part total part' total' : Int) : Prop := total ≠ 0 ∧ part * total' = part' * total

instance (part total part' total' : Int) : Decidable (Agrees part total part' total') :=
  inferInstanceAs (Decidable (_ ∧ _))

theorem quotient_eq_share {part total part' total' : Int} (nonzero : total' ≠ 0) :
    quotient part total = some ((part' : ℚ) / total') ↔ Agrees part total part' total' := by
  unfold quotient Agrees
  split_ifs with zero
  · simp [zero]
  · have left : (total : ℚ) ≠ 0 := by exact_mod_cast zero
    have right : (total' : ℚ) ≠ 0 := by exact_mod_cast nonzero
    rw [Option.some.injEq, div_eq_div_iff left right, and_iff_right zero]
    exact_mod_cast Iff.rfl

/-- The group that was fetched last under the text of a placement and hour has the
    placement's share, of all impressions under the text of its own site and
    segment; if there are none, the network has it. -/
def LastAgrees (order : GroupOrder) (rows : List (Rollup SiteSegmentGroup)) (network : List (Rollup CampaignGroup))
    (g : SiteSegmentGroup) (hour : Nat) : Prop :=
  ∃ last, lastUnder order rows (placeText g ++ natText hour) = some last ∧
    (Agrees (hourImps rows last) (textImps rows (placeText (placeOf last))) (hourImps rows (atHourOf g hour))
        (placeImps rows g) ∨
      textImps rows (placeText (placeOf last)) = 0 ∧ (∃ row ∈ network, row.hour = hour) ∧
        Agrees (networkHourImps network hour) (imps network) (hourImps rows (atHourOf g hour)) (placeImps rows g))

section
variable {order : GroupOrder} {rows : List (Rollup SiteSegmentGroup)} {network : List (Rollup CampaignGroup)}

theorem num_groupSums {ρ κ : Type} [LinearOrder κ] [DecidableEq κ] (key : ρ → κ) (column : ρ → Option Int) (rows : List ρ) (k : κ) :
    num ((groupMap key (sumColumn column) rows).get? k).join =
      ((rows.filter fun row => key row = k).map fun row => num (column row)).sum :=
  num_groupSum key (sumColumn column) id column (fun _ => rfl) rows k

theorem hour_imps_impSignalOf (k : HourKey) : num (impSignalOf rows k).hour_imps = hourImps rows k :=
  num_groupSums hourKey Rollup.impressions rows k

theorem total_imps_impSignalOf (k : HourKey) :
    num (impSignalOf rows k).total_imps = textImps rows (placeText (placeOf k)) :=
  num_groupSums (fun row : Rollup SiteSegmentGroup => placeText row.group) Rollup.impressions rows _

theorem get?_siteSegImpSignal (text : Str) :
    (siteSegImpSignal order rows).get? text = (lastUnder order rows text).map (impSignalOf rows) :=
  SortedMap.get?_ofRows_last hourText (impSignalOf rows) _ text

theorem networkImps_eq (hour : Nat) :
    Signals.networkImps (networkImpSignal network) hour =
      if ∃ row ∈ network, row.hour = hour then quotient (networkHourImps network hour) (imps network) else none := by
  unfold Signals.networkImps networkImpSignal
  rw [get?_groupMap]
  by_cases present : ∃ row ∈ network, row.hour = hour
  · rw [if_pos (List.mem_map.mpr present), if_pos present]
    simp only [Option.bind_some, impsOf, num_sumColumn, networkHourImps, imps]
  · rw [if_neg (fun member => present (List.mem_map.mp member)), if_neg present]
    rfl

/-- A text of a group that has rows is found. -/
theorem lastUnder_isSome {k : HourKey} (present : ∃ row ∈ rows, hourKey row = k) :
    ∃ last, lastUnder order rows (hourText k) = some last := by
  have listed : k ∈ (order (siteSegmentHours rows)).keys :=
    (order _).perm.mem_iff.mpr ((keys_groupMap hourKey impsOf rows).mpr present)
  rw [← Option.isSome_iff_exists, lastUnder, List.find?_isSome]
  exact ⟨k, List.mem_reverse.mpr listed, by simp⟩

theorem lastUnder_some {text : Str} {last : HourKey} (found : lastUnder order rows text = some last) :
    (∃ row ∈ rows, hourKey row = last) ∧ hourText last = text := by
  have listed := List.mem_reverse.mp (List.mem_of_find?_eq_some found)
  refine ⟨(keys_groupMap hourKey impsOf rows).mp ((order _).perm.mem_iff.mp listed), ?_⟩
  simpa using List.find?_some found

theorem impSignal_eq_share_iff {g : SiteSegmentGroup} {hour : Nat} (present : ∃ row ∈ rows, hourKey row = atHourOf g hour)
    (positive : 0 < placeImps rows g) :
    impSignal (siteSegImpSignal order rows) (networkImpSignal network) (placeText g ++ natText hour) hour =
        some ((hourImps rows (atHourOf g hour) : ℚ) / placeImps rows g) ↔ LastAgrees order rows network g hour := by
  obtain ⟨last, found⟩ : ∃ last, lastUnder order rows (placeText g ++ natText hour) = some last :=
    @lastUnder_isSome order rows (atHourOf g hour) present
  have entry : (siteSegImpSignal order rows).get? (placeText g ++ natText hour) = some (impSignalOf rows last) := by
    rw [get?_siteSegImpSignal, found, Option.map_some]
  simp only [impSignal, entry, hour_imps_impSignalOf, total_imps_impSignalOf, LastAgrees, found, Option.some.injEq,
    exists_eq_left']
  by_cases none : textImps rows (placeText (placeOf last)) = 0
  · rw [if_pos none, networkImps_eq]
    by_cases some : ∃ row ∈ network, row.hour = hour
    · rw [if_pos some, quotient_eq_share positive.ne']
      simp [Agrees, none, some]
    · rw [if_neg some]
      simp [Agrees, none, some]
  · rw [if_neg none, quotient_eq_share positive.ne']
    simp [none]

end

/-! ### Budget curves -/

/-- The campaign and hour that were fetched last under a text. -/
def lastCampaign (campaignHour : List (Rollup CampaignGroup)) (delayDate : Date) (text : Str) : Option (Str ×ₗ Nat) :=
  (groupMap campaignKey actionsOf (since delayDate campaignHour)).keys.reverse.find? fun k =>
    (ofLex k).1 ++ natText (ofLex k).2 = text

/-- The campaign and hour that were fetched last under the text of a campaign and
    hour have the campaign's share; if that campaign has few actions, the network
    has it. -/
def LastCampaignAgrees (campaignHour : List (Rollup CampaignGroup)) (delayDate : Date) (san : Str) (hour : Nat) : Prop :=
  ∃ last, lastCampaign campaignHour delayDate (san ++ natText hour) = some last ∧
    (24 < campaignActions campaignHour delayDate (ofLex last).1 ∧
        Agrees (campaignHourActions campaignHour delayDate (ofLex last).1 (ofLex last).2)
          (campaignActions campaignHour delayDate (ofLex last).1) (campaignHourActions campaignHour delayDate san hour)
          (campaignActions campaignHour delayDate san) ∨
      campaignActions campaignHour delayDate (ofLex last).1 ≤ 24 ∧
        Agrees (networkHourActions campaignHour delayDate hour) (networkActions campaignHour delayDate)
          (campaignHourActions campaignHour delayDate san hour) (campaignActions campaignHour delayDate san))

section
variable {campaignHour : List (Rollup CampaignGroup)} {delayDate : Date} {san : Str} {hour : Nat}

/-- The fetched group with the total of its campaign. -/
def fetchedBudget (campaignHour : List (Rollup CampaignGroup)) (delayDate : Date) (k : Str ×ₗ Nat) : BudgetSignal :=
  signalOf (groupMap (fun row => row.group.san) actionsOf (since delayDate campaignHour))
    (k, actionsOf ((since delayDate campaignHour).filter fun row => campaignKey row = k))

theorem get?_campBudgetSignal (text : Str) :
    (getBudgetSignal campaignHour delayDate).1.get? text =
      (lastCampaign campaignHour delayDate text).map (fetchedBudget campaignHour delayDate) := by
  simp only [getBudgetSignal]
  rw [SortedMap.get?_ofRows_last, entries_groupMap, ← List.map_reverse, List.find?_map, Option.map_map]
  rfl

theorem hour_actions_fetchedBudget (k : Str ×ₗ Nat) :
    num (fetchedBudget campaignHour delayDate k).hour_actions =
      campaignHourActions campaignHour delayDate (ofLex k).1 (ofLex k).2 := by
  simp only [fetchedBudget, signalOf, actionsOf, num_sumColumn, campaignHourActions]
  refine sum_filter_congr fun row _ => ?_
  rw [decide_eq_decide, campaignKey, ← ofLex_inj, ofLex_toLex, Prod.ext_iff]

theorem total_actions_fetchedBudget (k : Str ×ₗ Nat) :
    num (fetchedBudget campaignHour delayDate k).total_actions = campaignActions campaignHour delayDate (ofLex k).1 :=
  num_groupSums (fun row : Rollup CampaignGroup => row.group.san) Rollup.actions _ _

theorem budgetSignal_eq_share_iff (present : HasHour campaignHour delayDate san hour)
    (many : 24 < campaignActions campaignHour delayDate san) :
    budgetSignal (getBudgetSignal campaignHour delayDate).1 (getBudgetSignal campaignHour delayDate).2 san hour =
        some ((campaignHourActions campaignHour delayDate san hour : ℚ) / campaignActions campaignHour delayDate san) ↔
      LastCampaignAgrees campaignHour delayDate san hour := by
  obtain ⟨row, member, rfl, rfl⟩ := present
  have listed : campaignKey row ∈ (groupMap campaignKey actionsOf (since delayDate campaignHour)).keys :=
    (keys_groupMap campaignKey actionsOf _).mpr ⟨row, member, rfl⟩
  obtain ⟨last, found⟩ : ∃ last, lastCampaign campaignHour delayDate (row.group.san ++ natText row.hour) = some last := by
    rw [← Option.isSome_iff_exists, lastCampaign, List.find?_isSome]
    exact ⟨campaignKey row, List.mem_reverse.mpr listed, by simp [campaignKey]⟩
  have entry : (getBudgetSignal campaignHour delayDate).1.get? (row.group.san ++ natText row.hour) =
      some (fetchedBudget campaignHour delayDate last) := by
    rw [get?_campBudgetSignal, found, Option.map_some]
  obtain ⟨networkEntry, networkFound, hourActions, totalActions⟩ :=
    @networkSignal_eq campaignHour delayDate row.hour ⟨row, member, rfl⟩
  have nonzero : campaignActions campaignHour delayDate row.group.san ≠ 0 := by omega
  simp only [budgetSignal, entry, Option.bind_some, hour_actions_fetchedBudget, total_actions_fetchedBudget,
    LastCampaignAgrees, found, Option.some.injEq, exists_eq_left', Option.isNone_some, Bool.false_eq_true, if_false]
  by_cases lastMany : 24 < campaignActions campaignHour delayDate (ofLex last).1
  · rw [if_pos lastMany, quotient_eq_share nonzero]
    simp [lastMany, not_le.mpr lastMany]
  · rw [if_neg lastMany, networkShare, networkFound, Option.bind_some, Option.bind_some, hourActions, totalActions,
      quotient_eq_share nonzero]
    simp [lastMany, not_lt.mp lastMany]

end

/-- The factor of a placement or of a campaign in an hour is its own share exactly
    if the group that was fetched last under the same text has that share. -/
theorem signal_keys_iff (order : GroupOrder) (siteSegmentHour : List (Rollup SiteSegmentGroup))
    (campaignHour : List (Rollup CampaignGroup)) (delayDate : Date) (dow : Nat) :
    (∀ g hour, (∃ row ∈ inWindow delayDate dow siteSegmentHour, row.group = g ∧ row.hour = hour) →
      0 < placeImps (inWindow delayDate dow siteSegmentHour) g →
      (impSignal (getImpSignals order siteSegmentHour campaignHour delayDate dow).1
          (getImpSignals order siteSegmentHour campaignHour delayDate dow).2 (placeText g ++ natText hour) hour =
        some ((hourImps (inWindow delayDate dow siteSegmentHour) (atHourOf g hour) : ℚ) /
          placeImps (inWindow delayDate dow siteSegmentHour) g) ↔
      LastAgrees order (inWindow delayDate dow siteSegmentHour) (inWindow delayDate dow campaignHour) g hour)) ∧
    (∀ san hour, HasHour campaignHour delayDate san hour → 24 < campaignActions campaignHour delayDate san →
      (budgetSignal (getBudgetSignal campaignHour delayDate).1 (getBudgetSignal campaignHour delayDate).2 san hour =
        some ((campaignHourActions campaignHour delayDate san hour : ℚ) / campaignActions campaignHour delayDate san) ↔
      LastCampaignAgrees campaignHour delayDate san hour)) := by
  refine ⟨?_, fun san hour present many => budgetSignal_eq_share_iff present many⟩
  rintro - - ⟨row, member, rfl, rfl⟩ positive
  exact impSignal_eq_share_iff ⟨row, member, rfl⟩ positive

def fetchSorted : GroupOrder := SortedMap.Listing.sorted

/-- The impressions of a site and segment in an hour of the first day. -/
def placementRow (siteid segmentid : Int) (hour : Nat) (impressions : Int) : Rollup SiteSegmentGroup :=
  ⟨0, hour, ⟨siteid, segmentid⟩, some impressions, some 0, some 0, some 1⟩

def campaignRow (san : String) (hour : Nat) (impressions actions : Int) : Rollup CampaignGroup :=
  ⟨0, hour, ⟨san.toList⟩, some impressions, some 0, some actions, some 1⟩

/-- Two sites with segments that are written alike. -/
def alikePlacements : List (Rollup SiteSegmentGroup) := [placementRow 1 23 5 10, placementRow 12 3 5 30]

/-- Two campaigns with hours that are written alike. -/
def alikeCampaigns : List (Rollup CampaignGroup) :=
  [campaignRow "auo" 0 100 15, campaignRow "auo" 12 100 15, campaignRow "auo1" 2 100 30]

theorem signals_of_distinct_keys :
    impSignal (getImpSignals fetchSorted [placementRow 1 23 5 10, placementRow 1 23 6 30] alikeCampaigns 0 5).1
        (getImpSignals fetchSorted [placementRow 1 23 5 10, placementRow 1 23 6 30] alikeCampaigns 0 5).2
        (placeText ⟨1, 23⟩ ++ natText 5) 5 =
      some ((hourImps (inWindow 0 5 [placementRow 1 23 5 10, placementRow 1 23 6 30]) (atHourOf ⟨1, 23⟩ 5) : ℚ) /
        placeImps (inWindow 0 5 [placementRow 1 23 5 10, placementRow 1 23 6 30]) ⟨1, 23⟩) ∧
    budgetSignal (getBudgetSignal alikeCampaigns 0).1 (getBudgetSignal alikeCampaigns 0).2 "auo".toList 0 =
      some ((campaignHourActions alikeCampaigns 0 "auo".toList 0 : ℚ) / campaignActions alikeCampaigns 0 "auo".toList) := by
  have exact := signal_keys_iff fetchSorted [placementRow 1 23 5 10, placementRow 1 23 6 30] alikeCampaigns 0 5
  refine ⟨(exact.1 ⟨1, 23⟩ 5 (by decide) (by decide)).mpr ⟨atHourOf ⟨1, 23⟩ 5, by decide, .inl (by decide)⟩, ?_⟩
  exact (exact.2 "auo".toList 0 (by unfold HasHour; decide) (by decide)).mpr
    ⟨toLex ("auo".toList, 0), by decide, .inl (by decide)⟩

/-- A placement that has all its impressions in one hour gets three quarters for
    it, and a campaign with half of its actions in an hour gets all. -/
theorem alike_keys_mixed :
    (hourImps (inWindow 0 5 alikePlacements) (atHourOf ⟨1, 23⟩ 5) : ℚ) / placeImps (inWindow 0 5 alikePlacements) ⟨1, 23⟩ =
        1 ∧
      impSignal (getImpSignals fetchSorted alikePlacements alikeCampaigns 0 5).1
        (getImpSignals fetchSorted alikePlacements alikeCampaigns 0 5).2 (placeText ⟨1, 23⟩ ++ natText 5) 5 = some (3 / 4) ∧
      24 < campaignActions alikeCampaigns 0 "auo".toList ∧
      (campaignHourActions alikeCampaigns 0 "auo".toList 12 : ℚ) / campaignActions alikeCampaigns 0 "auo".toList = 1 / 2 ∧
      budgetSignal (getBudgetSignal alikeCampaigns 0).1 (getBudgetSignal alikeCampaigns 0).2 "auo".toList 12 = some 1 := by
  decide +kernel

/-! ### The curve of a placement -/

/-- The texts of a placement and of its hours are those of its own rows only. -/
structure OwnPlacement (rows : List (Rollup SiteSegmentGroup)) (g : SiteSegmentGroup) : Prop where
  hours : ∀ row ∈ rows, ∀ hour < 24, placeText row.group ++ natText row.hour = placeText g ++ natText hour →
    row.group = g ∧ row.hour = hour
  total : ∀ row ∈ rows, placeText row.group = placeText g → row.group = g

def HasRow (rows : List (Rollup SiteSegmentGroup)) (g : SiteSegmentGroup) (hour : Nat) : Prop :=
  ∃ row ∈ rows, row.group = g ∧ row.hour = hour

instance (rows : List (Rollup SiteSegmentGroup)) (g : SiteSegmentGroup) (hour : Nat) : Decidable (HasRow rows g hour) :=
  inferInstanceAs (Decidable (∃ row ∈ rows, _))

def ownShare (rows : List (Rollup SiteSegmentGroup)) (g : SiteSegmentGroup) (hour : Nat) : ℚ :=
  hourImps rows (atHourOf g hour) / placeImps rows g

def networkShareOf (network : List (Rollup CampaignGroup)) (hour : Nat) : ℚ := networkHourImps network hour / imps network

/-- The placement's own share in the hours it has rows for, the network's in the
    others. -/
def dayFactor (rows : List (Rollup SiteSegmentGroup)) (network : List (Rollup CampaignGroup)) (g : SiteSegmentGroup)
    (hour : Nat) : ℚ :=
  if HasRow rows g hour then ownShare rows g hour else networkShareOf network hour

section
variable {order : GroupOrder} {rows : List (Rollup SiteSegmentGroup)} {network : List (Rollup CampaignGroup)}
  {g : SiteSegmentGroup} {hour : Nat}

theorem hourKey_eq_iff {row : Rollup SiteSegmentGroup} :
    hourKey row = atHourOf g hour ↔ row.group = g ∧ row.hour = hour := by
  constructor
  · intro same
    have fields : row.group.siteid = g.siteid ∧ row.group.segmentid = g.segmentid ∧ row.hour = hour := by
      simpa [hourKey, atHourOf] using same
    exact ⟨SiteSegmentGroup.ext fields.1 fields.2.1, fields.2.2⟩
  · rintro ⟨rfl, rfl⟩
    rfl

theorem textImps_own (own : OwnPlacement rows g) : textImps rows (placeText g) = placeImps rows g := by
  refine sum_filter_congr fun row member => ?_
  rw [decide_eq_decide]
  exact ⟨own.total row member, fun same => by rw [same]⟩

theorem impSignal_present (own : OwnPlacement rows g) (inDay : hour < 24) (present : HasRow rows g hour)
    (positive : 0 < placeImps rows g) :
    impSignal (siteSegImpSignal order rows) (networkImpSignal network) (placeText g ++ natText hour) hour =
      some (ownShare rows g hour) := by
  have keyed : ∃ row ∈ rows, hourKey row = atHourOf g hour := by
    obtain ⟨row, member, same⟩ := present
    exact ⟨row, member, hourKey_eq_iff.mpr same⟩
  obtain ⟨last, found⟩ : ∃ last, lastUnder order rows (placeText g ++ natText hour) = some last :=
    @lastUnder_isSome order rows (atHourOf g hour) keyed
  -- no other group has the text
  have isOwn : last = atHourOf g hour := by
    obtain ⟨⟨row, member, rfl⟩, text⟩ := lastUnder_some found
    exact hourKey_eq_iff.mpr (own.hours row member hour inDay text)
  subst isOwn
  refine (impSignal_eq_share_iff keyed positive).mpr ⟨_, found, .inl ⟨?_, ?_⟩⟩
  · show textImps rows (placeText g) ≠ 0
    rw [textImps_own own]
    exact positive.ne'
  · show _ = _ * textImps rows (placeText g)
    rw [textImps_own own]

theorem networkImps_share (present : ∃ row ∈ network, row.hour = hour) (positive : 0 < imps network) :
    Signals.networkImps (networkImpSignal network) hour = some (networkShareOf network hour) := by
  rw [networkImps_eq, if_pos present, quotient, if_neg positive.ne']
  rfl

theorem impSignal_missing (own : OwnPlacement rows g) (inDay : hour < 24) (missing : ¬ HasRow rows g hour) :
    impSignal (siteSegImpSignal order rows) (networkImpSignal network) (placeText g ++ natText hour) hour =
      Signals.networkImps (networkImpSignal network) hour := by
  have none : lastUnder order rows (placeText g ++ natText hour) = none := by
    cases found : lastUnder order rows (placeText g ++ natText hour) with
    | none => rfl
    | some last =>
      obtain ⟨⟨row, member, rfl⟩, text⟩ := lastUnder_some found
      exact absurd ⟨row, member, own.hours row member hour inDay text⟩ missing
  rw [impSignal, get?_siteSegImpSignal, none]
  rfl

theorem impSignal_dayFactor (own : OwnPlacement rows g) (inDay : hour < 24)
    (allHours : ∀ hour < 24, ∃ row ∈ network, row.hour = hour) (networkPositive : 0 < imps network)
    (positive : 0 < placeImps rows g) :
    impSignal (siteSegImpSignal order rows) (networkImpSignal network) (placeText g ++ natText hour) hour =
      some (dayFactor rows network g hour) := by
  unfold dayFactor
  split_ifs with present
  · exact impSignal_present own inDay present positive
  · rw [impSignal_missing own inDay present, networkImps_share (allHours hour inDay) networkPositive]

/-! ### Sums over the day -/

theorem sum_ownShare (hours : ∀ row ∈ rows, row.hour < 24) (positive : 0 < placeImps rows g) :
    ∑ hour ∈ Finset.range 24, ownShare rows g hour = 1 := by
  refine sum_shares positive.ne' ?_
  have byHour := sum_by_hour (rows.filter fun row => row.group = g) 24
    (fun row member => hours row (List.mem_of_mem_filter member)) fun row => num row.impressions
  simp only [List.filter_filter] at byHour
  rw [placeImps, imps, ← byHour]
  refine Finset.sum_congr rfl fun hour _ => sum_filter_congr fun row _ => ?_
  rw [← Bool.decide_and, decide_eq_decide, hourKey_eq_iff, and_comm]

theorem sum_networkShareOf (hours : ∀ row ∈ network, row.hour < 24) (positive : 0 < imps network) :
    ∑ hour ∈ Finset.range 24, networkShareOf network hour = 1 :=
  sum_shares positive.ne' (sum_by_hour network 24 hours fun row => num row.impressions)

theorem ownShare_missing (missing : ¬ HasRow rows g hour) : ownShare rows g hour = 0 := by
  have none : rows.filter (fun row => hourKey row = atHourOf g hour) = [] := by
    refine List.filter_eq_nil_iff.mpr fun row member same => missing ⟨row, member, hourKey_eq_iff.mp ?_⟩
    exact of_decide_eq_true same
  rw [ownShare, hourImps, none, imps, List.map_nil, List.sum_nil, Int.cast_zero, zero_div]

/-- What the hours without rows add. -/
def missingShare (rows : List (Rollup SiteSegmentGroup)) (network : List (Rollup CampaignGroup)) (g : SiteSegmentGroup) : ℚ :=
  ∑ hour ∈ (Finset.range 24).filter fun hour => ¬ HasRow rows g hour, networkShareOf network hour

theorem sum_dayFactor (hours : ∀ row ∈ rows, row.hour < 24) (positive : 0 < placeImps rows g) :
    ∑ hour ∈ Finset.range 24, dayFactor rows network g hour = 1 + missingShare rows network g := by
  have split : ∀ hour, dayFactor rows network g hour =
      ownShare rows g hour + if ¬ HasRow rows g hour then networkShareOf network hour else 0 := by
    intro hour
    unfold dayFactor
    by_cases present : HasRow rows g hour
    · rw [if_pos present, if_neg (not_not.mpr present), add_zero]
    · rw [if_neg present, if_pos present, ownShare_missing present, zero_add]
  rw [Finset.sum_congr rfl fun hour _ => split hour, Finset.sum_add_distrib, sum_ownShare hours positive, missingShare,
    Finset.sum_filter]

/-- Impressions are counts. -/
def Counted {γ : Type} (rows : List (Rollup γ)) : Prop := ∀ row ∈ rows, 0 ≤ num row.impressions

theorem imps_sublist {γ : Type} {rows rows' : List (Rollup γ)} (counted : Counted rows') (part : rows.Sublist rows') :
    0 ≤ imps rows ∧ imps rows ≤ imps rows' := by
  have nonneg : ∀ count ∈ rows'.map fun row => num row.impressions, 0 ≤ count := by
    intro count member
    obtain ⟨row, isRow, rfl⟩ := List.mem_map.mp member
    exact counted row isRow
  refine ⟨List.sum_nonneg fun count member => nonneg count ((part.map _).subset member), ?_⟩
  exact (part.map _).sum_le_sum nonneg

theorem share_bounds {part total : Int} (nonneg : 0 ≤ part) (within : part ≤ total) (positive : 0 < total) :
    0 ≤ (part : ℚ) / total ∧ (part : ℚ) / total ≤ 1 := by
  have divisor : (0 : ℚ) < total := by exact_mod_cast positive
  refine ⟨div_nonneg (by exact_mod_cast nonneg) divisor.le, (div_le_one divisor).mpr ?_⟩
  exact_mod_cast within

theorem networkShareOf_bounds (counted : Counted network) (positive : 0 < imps network) (hour : Nat) :
    0 ≤ networkShareOf network hour ∧ networkShareOf network hour ≤ 1 := by
  obtain ⟨nonneg, within⟩ := imps_sublist counted (List.filter_sublist : (network.filter fun row => row.hour = hour).Sublist _)
  exact share_bounds nonneg within positive

theorem dayFactor_bounds (counted : Counted rows) (networkCounted : Counted network) (positive : 0 < placeImps rows g)
    (networkPositive : 0 < imps network) (hour : Nat) :
    0 ≤ dayFactor rows network g hour ∧ dayFactor rows network g hour ≤ 1 := by
  unfold dayFactor
  split_ifs
  · have part : (rows.filter fun row => hourKey row = atHourOf g hour).Sublist (rows.filter fun row => row.group = g) := by
      refine List.monotone_filter_right rows fun row same => ?_
      exact decide_eq_true (hourKey_eq_iff.mp (of_decide_eq_true same)).1
    have ofPlace : Counted (rows.filter fun row => row.group = g) := fun row member =>
      counted row (List.mem_of_mem_filter member)
    obtain ⟨nonneg, within⟩ := imps_sublist ofPlace part
    exact share_bounds nonneg within positive
  · exact networkShareOf_bounds networkCounted networkPositive hour

theorem missingShare_eq_zero_iff (counted : Counted network) (positive : 0 < imps network) :
    missingShare rows network g = 0 ↔ ∀ hour < 24, HasRow rows g hour ∨ networkHourImps network hour = 0 := by
  have divisor : (imps network : ℚ) ≠ 0 := by exact_mod_cast positive.ne'
  rw [missingShare, Finset.sum_eq_zero_iff_of_nonneg fun hour _ => (networkShareOf_bounds counted positive hour).1]
  have shareZero : ∀ hour, networkShareOf network hour = 0 ↔ networkHourImps network hour = 0 := fun hour => by
    rw [networkShareOf, div_eq_zero_iff, or_iff_left divisor, Int.cast_eq_zero]
  simp only [Finset.mem_filter, Finset.mem_range, shareZero]
  constructor
  · intro zero hour inDay
    by_cases present : HasRow rows g hour
    · exact .inl present
    · exact .inr (zero hour ⟨inDay, present⟩)
  · rintro zero hour ⟨inDay, missing⟩
    exact (zero hour inDay).resolve_left missing

end

/-! ### Hourly volumes -/

/-- The volume of a cell in an hour, before misdelivery. -/
def hourlyVolume (d : RunData) (hour : Nat) (c : Cell) : Option ℚ :=
  (impFactor d hour c).map fun imp_factor => (costIn d c).evolume * imp_factor

def cellFactor (rows : List (Rollup SiteSegmentGroup)) (network : List (Rollup CampaignGroup)) (c : Cell) (hour : Nat) : ℚ :=
  if 0 ≤ c.segmentid then dayFactor rows network ⟨c.siteid, c.segmentid⟩ hour else networkShareOf network hour

section
variable {order : GroupOrder} {rows : List (Rollup SiteSegmentGroup)} {network : List (Rollup CampaignGroup)} {c : Cell}

/-- The program builder writes a negative segment with letters, under which no
    curve is fetched. -/
theorem impSignal_negative (negative : c.segmentid < 0) (hour : Nat) :
    impSignal (siteSegImpSignal order rows) (networkImpSignal network) (signalIndex c hour) hour =
      Signals.networkImps (networkImpSignal network) hour := by
  obtain ⟨n, isNegative⟩ := Int.eq_negSucc_of_lt_zero negative
  have letter : 'n' ∈ signalIndex c hour := by
    rw [signalIndex, isNegative, segText_negSucc]
    simp
  have none : lastUnder order rows (signalIndex c hour) = none := by
    cases found : lastUnder order rows (signalIndex c hour) with
    | none => rfl
    | some last =>
      have text := (lastUnder_some found).2
      rw [← text, hourText, placeText, List.mem_append, List.mem_append] at letter
      rcases letter with (site | segment) | hourDigits
      · exact absurd site (not_mem_intText (by decide) (by decide) _)
      · exact absurd segment (not_mem_intText (by decide) (by decide) _)
      · exact absurd (natText_isDigit hourDigits) (by decide)
  rw [impSignal, get?_siteSegImpSignal, none]
  rfl

theorem signalIndex_nonneg (nonneg : 0 ≤ c.segmentid) (hour : Nat) :
    signalIndex c hour = placeText ⟨c.siteid, c.segmentid⟩ ++ natText hour := by
  rw [signalIndex, segText_nonneg nonneg, placeText]

theorem hourlyVolume_eq {d : RunData} {hour : Nat} (isSite : d.siteSegSignal = siteSegImpSignal order rows)
    (isNetwork : d.networkSignal = networkImpSignal network) (own : OwnPlacement rows ⟨c.siteid, c.segmentid⟩)
    (inDay : hour < 24) (allHours : ∀ hour < 24, ∃ row ∈ network, row.hour = hour) (networkPositive : 0 < imps network)
    (positive : 0 < placeImps rows ⟨c.siteid, c.segmentid⟩) :
    hourlyVolume d hour c = some ((costIn d c).evolume * cellFactor rows network c hour) := by
  have factor : impFactor d hour c = some (cellFactor rows network c hour) := by
    rw [impFactor, isSite, isNetwork, cellFactor]
    split_ifs with nonneg
    · rw [signalIndex_nonneg nonneg]
      exact impSignal_dayFactor own inDay allHours networkPositive positive
    · rw [impSignal_negative (not_le.mp nonneg)]
      exact networkImps_share (allHours hour inDay) networkPositive
  rw [hourlyVolume, factor, Option.map_some]

theorem sum_cellFactor (hours : ∀ row ∈ rows, row.hour < 24) (networkHours : ∀ row ∈ network, row.hour < 24)
    (networkPositive : 0 < imps network) (positive : 0 < placeImps rows ⟨c.siteid, c.segmentid⟩) :
    ∑ hour ∈ Finset.range 24, cellFactor rows network c hour =
      1 + if 0 ≤ c.segmentid then missingShare rows network ⟨c.siteid, c.segmentid⟩ else 0 := by
  unfold cellFactor
  split_ifs
  · exact sum_dayFactor hours positive
  · rw [sum_networkShareOf networkHours networkPositive, add_zero]

theorem cellFactor_le_one (counted : Counted rows) (networkCounted : Counted network)
    (positive : 0 < placeImps rows ⟨c.siteid, c.segmentid⟩) (networkPositive : 0 < imps network) (hour : Nat) :
    cellFactor rows network c hour ≤ 1 := by
  unfold cellFactor
  split_ifs
  · exact (dayFactor_bounds counted networkCounted positive networkPositive hour).2
  · exact (networkShareOf_bounds networkCounted networkPositive hour).2

end

/-- The 24 factors of a placement are its own share in the hours that it has rows
    for and the network's share in the others. They sum to 1 and what the network
    has in the hours without rows, and the hourly volumes of a cell accordingly; a
    cell on a negative segment has the network's curve. -/
theorem placement_curve (order : GroupOrder) (siteSegmentHour : List (Rollup SiteSegmentGroup))
    (campaignHour : List (Rollup CampaignGroup)) (delayDate : Date) (dow : Nat) (g : SiteSegmentGroup)
    (rows : List (Rollup SiteSegmentGroup)) (network : List (Rollup CampaignGroup))
    (isRows : rows = inWindow delayDate dow siteSegmentHour) (isNetwork : network = inWindow delayDate dow campaignHour)
    (hours : ∀ row ∈ rows, row.hour < 24) (networkHours : ∀ row ∈ network, row.hour < 24)
    (own : OwnPlacement rows g) (allHours : ∀ hour < 24, ∃ row ∈ network, row.hour = hour)
    (networkPositive : 0 < imps network) (positive : 0 < placeImps rows g) :
    (∀ hour < 24, impSignal (getImpSignals order siteSegmentHour campaignHour delayDate dow).1
      (getImpSignals order siteSegmentHour campaignHour delayDate dow).2 (placeText g ++ natText hour) hour =
        some (dayFactor rows network g hour)) ∧
    ∑ hour ∈ Finset.range 24, dayFactor rows network g hour = 1 + missingShare rows network g ∧
    (Counted rows → Counted network →
      (∀ hour, 0 ≤ dayFactor rows network g hour ∧ dayFactor rows network g hour ≤ 1) ∧
      (∑ hour ∈ Finset.range 24, dayFactor rows network g hour = 1 ↔
        ∀ hour < 24, HasRow rows g hour ∨ networkHourImps network hour = 0)) ∧
    ∀ (d : RunData) (c : Cell), d.siteSegSignal = (getImpSignals order siteSegmentHour campaignHour delayDate dow).1 →
      d.networkSignal = (getImpSignals order siteSegmentHour campaignHour delayDate dow).2 →
      g = ⟨c.siteid, c.segmentid⟩ →
      ∃ volume : Nat → ℚ, (∀ hour < 24, hourlyVolume d hour c = some (volume hour)) ∧
        ∑ hour ∈ Finset.range 24, volume hour =
          (costIn d c).evolume * (1 + if 0 ≤ c.segmentid then missingShare rows network g else 0) ∧
        (Counted rows → Counted network → 0 ≤ (costIn d c).evolume → ∀ hour, volume hour ≤ (costIn d c).evolume) := by
  subst isRows isNetwork
  have factors := @sum_dayFactor _ (inWindow delayDate dow campaignHour) g hours positive
  refine ⟨fun hour inDay => impSignal_dayFactor own inDay allHours networkPositive positive, factors, ?_, ?_⟩
  · intro counted networkCounted
    refine ⟨dayFactor_bounds counted networkCounted positive networkPositive, ?_⟩
    rw [factors, add_eq_left, missingShare_eq_zero_iff networkCounted networkPositive]
  · rintro d c isSite isNetwork rfl
    refine ⟨_, fun hour inDay => hourlyVolume_eq isSite isNetwork own inDay allHours networkPositive positive, ?_, ?_⟩
    · rw [← Finset.mul_sum, sum_cellFactor hours networkHours networkPositive positive]
    · intro counted networkCounted volume hour
      exact mul_le_of_le_one_right volume (cellFactor_le_one counted networkCounted positive networkPositive hour)

/-- A placement with impressions in one hour only. -/
def oneHour : List (Rollup SiteSegmentGroup) := [placementRow 20 5 9 10]

/-- A network with the same impressions in every hour. -/
def evenNetwork : List (Rollup CampaignGroup) := (List.range 24).map fun hour => campaignRow "auo" hour 100 1

theorem ownPlacement_oneHour : OwnPlacement (inWindow 0 5 oneHour) ⟨20, 5⟩ := ⟨by decide, by decide⟩

theorem counted_oneHour : Counted (inWindow 0 5 oneHour) := by
  unfold Counted
  decide

theorem counted_evenNetwork : Counted (inWindow 0 5 evenNetwork) := by
  unfold Counted
  decide

/-- A run that loads these curves, with one price and a campaign cap. -/
def curvedRun : RunData where
  cost := (getCostData (priced 5)).1
  costAvg := (getCostData (priced 5)).2
  siteSegSignal := (getImpSignals fetchSorted oneHour evenNetwork 0 5).1
  networkSignal := (getImpSignals fetchSorted oneHour evenNetwork 0 5).2
  cellMaxAlpha := cellMaxAlpha (onSegment 5) campaignCap
  campaignMaxAlpha := campaignMaxAlpha (onSegment 5) campaignCap
  cellMdFactors := SortedMap.empty
  siteSegMdFactors := SortedMap.empty

theorem curvedRun_evolume : (costIn curvedRun (cellOn 5)).evolume = 4000 := by decide +kernel

theorem curve_of_one_hour :
    (∀ hour < 24, impSignal (getImpSignals fetchSorted oneHour evenNetwork 0 5).1
      (getImpSignals fetchSorted oneHour evenNetwork 0 5).2 (placeText ⟨20, 5⟩ ++ natText hour) hour =
        some (dayFactor (inWindow 0 5 oneHour) (inWindow 0 5 evenNetwork) ⟨20, 5⟩ hour)) ∧
    ∑ hour ∈ Finset.range 24, dayFactor (inWindow 0 5 oneHour) (inWindow 0 5 evenNetwork) ⟨20, 5⟩ hour =
      1 + missingShare (inWindow 0 5 oneHour) (inWindow 0 5 evenNetwork) ⟨20, 5⟩ ∧
    (∀ hour, 0 ≤ dayFactor (inWindow 0 5 oneHour) (inWindow 0 5 evenNetwork) ⟨20, 5⟩ hour ∧
      dayFactor (inWindow 0 5 oneHour) (inWindow 0 5 evenNetwork) ⟨20, 5⟩ hour ≤ 1) ∧
    ∑ hour ∈ Finset.range 24, dayFactor (inWindow 0 5 oneHour) (inWindow 0 5 evenNetwork) ⟨20, 5⟩ hour ≠ 1 ∧
    ∃ volume : Nat → ℚ, (∀ hour < 24, hourlyVolume curvedRun hour (cellOn 5) = some (volume hour)) ∧
      ∑ hour ∈ Finset.range 24, volume hour =
        4000 * (1 + missingShare (inWindow 0 5 oneHour) (inWindow 0 5 evenNetwork) ⟨20, 5⟩) ∧
      ∀ hour, volume hour ≤ 4000 := by
  obtain ⟨shares, total, counted, volumes⟩ := placement_curve fetchSorted oneHour evenNetwork 0 5 ⟨20, 5⟩ _ _ rfl rfl
    (by decide) (by decide) ownPlacement_oneHour (by decide) (by decide) (by decide)
  obtain ⟨bounds, one⟩ := counted counted_oneHour counted_evenNetwork
  obtain ⟨volume, hourly, sum, most⟩ := volumes curvedRun (cellOn 5) rfl rfl rfl
  rw [curvedRun_evolume] at sum most
  refine ⟨shares, total, bounds, ?_, volume, hourly, ?_, ?_⟩
  · rw [Ne, one]
    decide
  · rw [sum, if_pos (by decide)]
  · exact most counted_oneHour counted_evenNetwork (by norm_num)

/-- The other 23 hours get the network's share besides. -/
theorem one_hour_sums_over_one :
    OwnPlacement (inWindow 0 5 oneHour) ⟨20, 5⟩ ∧ (∀ hour < 24, ∃ row ∈ inWindow 0 5 evenNetwork, row.hour = hour) ∧
      0 < imps (inWindow 0 5 evenNetwork) ∧ 0 < placeImps (inWindow 0 5 oneHour) ⟨20, 5⟩ ∧
      ∑ hour ∈ Finset.range 24, (impSignal (getImpSignals fetchSorted oneHour evenNetwork 0 5).1
        (getImpSignals fetchSorted oneHour evenNetwork 0 5).2 (placeText ⟨20, 5⟩ ++ natText hour) hour).getD 0 ≠ 1 :=
  ⟨ownPlacement_oneHour, by decide, by decide, by decide, by decide +kernel⟩

end Cdo.ImpSignals
