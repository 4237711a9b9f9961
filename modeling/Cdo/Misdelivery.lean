import Cdo.BidCalc
import Cdo.QHatAggregations

/-!
Misdelivery ratios (`getMDFactors` and `MDRatio` of `CDO.pm`) and the factors by
which both stages of a run scale a cell. `getMDFactors` files the ratio of
delivered to expected impressions under account name, site, segment and size,
and under site, segment and size. `LP_Obj` asks for the first with those four
columns, `BidCalc` with the whole name of the variable, which has the ad's id as
well, so that it falls back to the second, the ratio of the placement over all
campaigns. The stages agree exactly if this makes no difference
(`same_factors_iff`).
-/
namespace Cdo.Misdelivery
open Cdo.Text Cdo.Query Cdo.Tables Cdo.QHatAggregations Cdo.Params Cdo.Signals Cdo.Objective Cdo.BidCalc

/-! ### Ratios -/

/-- A row of `DisplayMisdelivery`. -/
structure MisdeliveryRow where
  date : Date
  hour : Nat
  adid : Int
  siteid : Int
  segmentid : Int
  eimpressions : Option Int
  impressions : Option Int
deriving DecidableEq

/-- A rounding to six decimals, as a number of millionths. -/
structure SixDecimals where
  round : ℚ → Int
  near : ∀ x, |1000000 * x - round x| ≤ 1 / 2

abbrev MdRow := MisdeliveryRow × Media

def mdRows (net : Network) (mdDate : Date) (rows : List MisdeliveryRow) : List MdRow :=
  join (fun md (m : Media) => md.adid == m.adid && decide (mdDate ≤ md.date)) rows net.media

def cellMdKey (row : MdRow) : Str :=
  joined '_' [row.2.san, intText row.1.siteid, intText row.1.segmentid, row.2.size.text]

def siteSegMdKey (row : MdRow) : Str :=
  joined '_' [intText row.1.siteid, intText row.1.segmentid, row.2.size.text]

def ratio (six : SixDecimals) (rows : List MdRow) : ℚ :=
  let eimpressions := sumColumn (fun row : MdRow => row.1.eimpressions) rows
  let impressions := sumColumn (fun row : MdRow => row.1.impressions) rows
  six.round ((num impressions : ℚ) / noNull eimpressions 1) / 1000000

/-- The ratios by campaign and placement, and by placement. -/
def getMDFactors (six : SixDecimals) (net : Network) (mdDate : Date) (rows : List MisdeliveryRow) :
    SortedMap Str ℚ × SortedMap Str ℚ :=
  (groupMap cellMdKey (ratio six) (mdRows net mdDate rows), groupMap siteSegMdKey (ratio six) (mdRows net mdDate rows))

def withMisdelivery (d : RunData) (factors : SortedMap Str ℚ × SortedMap Str ℚ) : RunData :=
  { d with cellMdFactors := factors.1, siteSegMdFactors := factors.2 }

/-! ### Ratios by columns -/

/-- The ratio of some rows, if there are any. -/
def ratioOf (six : SixDecimals) (rows : List MdRow) : Option ℚ := if rows = [] then none else some (ratio six rows)

/-- The ratio of the rows of a campaign whose site, segment and size print as
    the given texts. -/
def campaignRatio (six : SixDecimals) (rows : List MdRow) (san site segment size : Str) : Option ℚ :=
  ratioOf six (rows.filter fun row => row.2.san = san ∧ intText row.1.siteid = site ∧
    intText row.1.segmentid = segment ∧ row.2.size.text = size)

def placementRatio (six : SixDecimals) (rows : List MdRow) (site segment size : Str) : Option ℚ :=
  ratioOf six (rows.filter fun row => intText row.1.siteid = site ∧ intText row.1.segmentid = segment ∧
    row.2.size.text = size)

/-- A group that is looked up by its key is the rows of that key. -/
theorem get?_ratios (six : SixDecimals) (key : MdRow → Str) (rows : List MdRow) (k : Str) :
    (groupMap key (ratio six) rows).get? k = ratioOf six (rows.filter fun row => key row = k) := by
  rw [get?_groupMap, ratioOf]
  have empty : rows.filter (fun row => decide (key row = k)) = [] ↔ k ∉ rows.map key := by
    simp [List.filter_eq_nil_iff]
  by_cases present : k ∈ rows.map key
  · rw [if_pos present, if_neg (fun none => (empty.mp none) present)]
  · rw [if_neg present, if_pos (empty.mpr present)]

theorem get?_cellMdFactors (six : SixDecimals) (rows : List MdRow) {san site segment size : Str} (sitePlain : '_' ∉ site)
    (segmentPlain : '_' ∉ segment) (sizePlain : '_' ∉ size) :
    (groupMap cellMdKey (ratio six) rows).get? (joined '_' [san, site, segment, size]) =
      campaignRatio six rows san site segment size := by
  rw [get?_ratios, campaignRatio]
  congr 1
  refine List.filter_congr fun row _ => decide_eq_decide.mpr ?_
  constructor
  · intro same
    obtain ⟨sanSame, fields⟩ := joined_tail_injective (by simp) (by simp [row.2.size.plain])
      (by simp [sitePlain, segmentPlain, sizePlain]) same
    simp only [List.cons.injEq, and_true] at fields
    exact ⟨sanSame, fields⟩
  · rintro ⟨sanSame, siteSame, segmentSame, sizeSame⟩
    rw [cellMdKey, sanSame, siteSame, segmentSame, sizeSame]

theorem get?_siteSegMdFactors (six : SixDecimals) (rows : List MdRow) {site segment size : Str} (sitePlain : '_' ∉ site)
    (segmentPlain : '_' ∉ segment) (sizePlain : '_' ∉ size) :
    (groupMap siteSegMdKey (ratio six) rows).get? (joined '_' [site, segment, size]) =
      placementRatio six rows site segment size := by
  rw [get?_ratios, placementRatio]
  congr 1
  refine List.filter_congr fun row _ => decide_eq_decide.mpr ?_
  constructor
  · intro same
    have fields := joined_injective (by simp) (by simp) (by simp [row.2.size.plain])
      (by simp [sitePlain, segmentPlain, sizePlain]) same
    simpa using fields
  · rintro ⟨siteSame, segmentSame, sizeSame⟩
    rw [siteSegMdKey, siteSame, segmentSame, sizeSame]

/-! ### The factors of both stages -/

def bidImpFactor (d : RunData) (hour : Nat) (name : Str) : Option ℚ :=
  impSignal d.siteSegSignal d.networkSignal (signalInd name hour) hour

def bidMdFactor (d : RunData) (name : Str) : ℚ := mdRatio name (invInd name) d.cellMdFactors d.siteSegMdFactors

/-- What `BidCalc` records for a variable at a positive allocation, given the
    two factors. -/
def scaledBid (d : RunData) (name : Str) (alloc : Int) (imp_factor md_factor : ℚ) : OptBid :=
  match bidPrice d name alloc with
  | none => defaultBid alloc
  | some price =>
    if num price.bid = 0 then defaultBid alloc
    else
      ⟨twoDecimals (num price.bid), alloc, (price.allocation / 100 : ℚ) * num price.volume * (imp_factor * md_factor),
        (price.allocation / 100 : ℚ) * num price.capped_volume * (imp_factor * md_factor),
        num price.bid / 100 * ((price.allocation / 100 : ℚ) * num price.capped_volume * (imp_factor * md_factor)) / 1000⟩

theorem lineBid_scaled {r : Rounding} {d : RunData} {hour : Nat} {name : Str} {ap : ℚ} {bid : OptBid}
    (positive : 0 < gridAlloc r ap) (line : lineBid r d hour name ap = some bid) :
    ∃ imp_factor, bidImpFactor d hour name = some imp_factor ∧
      bid = scaledBid d name (gridAlloc r ap) imp_factor (bidMdFactor d name) := by
  obtain ⟨factor, isFactor, bidIs⟩ := lineBid_positive positive line
  obtain ⟨imp_factor, imp, rfl⟩ := Option.map_eq_some_iff.mp isFactor
  exact ⟨imp_factor, imp, bidIs⟩

/-- The fields of a variable's name, if the account name has no underscore. -/
theorem field_lpVarMain {c : Cell} (plain : '_' ∉ c.san) :
    field (lpVarMain c) 2 = intText c.siteid ∧ field (lpVarMain c) 3 = segText c.segmentid ∧
      field (lpVarMain c) 4 = c.size.text := by
  simp only [field, splitOn_lpVarMain plain]
  exact ⟨rfl, rfl, rfl⟩

/-- The account name under which `BidCalc` asks for a cell's own ratio: the
    cell's, followed by the id of its ad. -/
def askedSan (c : Cell) : Str := joined '_' [c.san, intText c.adid]

theorem lpVarMain_eq (c : Cell) :
    lpVarMain c = joined '_' [askedSan c, intText c.siteid, segText c.segmentid, c.size.text] := by
  simp [lpVarMain, askedSan, joined]

section
variable {six : SixDecimals} {net : Network} {mdDate : Date} {rows : List MisdeliveryRow} {d : RunData} {c : Cell}

theorem mdFactor_eq :
    mdFactor (withMisdelivery d (getMDFactors six net mdDate rows)) c =
      ((campaignRatio six (mdRows net mdDate rows) c.san (intText c.siteid) (segText c.segmentid) c.size.text).or
        (placementRatio six (mdRows net mdDate rows) (intText c.siteid) (segText c.segmentid) c.size.text)).getD 1 := by
  simp only [mdFactor, mdRatio, withMisdelivery, getMDFactors, mdIndex, invIndex]
  rw [get?_cellMdFactors six _ (by simp) (by simp) c.size.plain, get?_siteSegMdFactors six _ (by simp) (by simp) c.size.plain]
  cases campaignRatio six (mdRows net mdDate rows) c.san (intText c.siteid) (segText c.segmentid) c.size.text with
  | some own => rfl
  | none =>
    cases placementRatio six (mdRows net mdDate rows) (intText c.siteid) (segText c.segmentid) c.size.text <;> rfl

theorem bidMdFactor_eq :
    bidMdFactor (withMisdelivery d (getMDFactors six net mdDate rows)) (lpVarMain c) =
      ((campaignRatio six (mdRows net mdDate rows) (askedSan c) (intText c.siteid) (segText c.segmentid) c.size.text).or
        (placementRatio six (mdRows net mdDate rows) (field (lpVarMain c) 2) (field (lpVarMain c) 3)
          (field (lpVarMain c) 4))).getD 1 := by
  have own : (groupMap cellMdKey (ratio six) (mdRows net mdDate rows)).get? (lpVarMain c) =
      campaignRatio six (mdRows net mdDate rows) (askedSan c) (intText c.siteid) (segText c.segmentid) c.size.text := by
    rw [lpVarMain_eq]
    exact get?_cellMdFactors six _ (by simp) (by simp) c.size.plain
  simp only [bidMdFactor, mdRatio, withMisdelivery, getMDFactors, invInd, own]
  rw [get?_siteSegMdFactors six _ (underscore_field _ 2) (underscore_field _ 3) (underscore_field _ 4)]
  cases campaignRatio six (mdRows net mdDate rows) (askedSan c) (intText c.siteid) (segText c.segmentid) c.size.text with
  | some asked => rfl
  | none =>
    cases placementRatio six (mdRows net mdDate rows) (field (lpVarMain c) 2) (field (lpVarMain c) 3)
      (field (lpVarMain c) 4) <;> rfl

/-- When the difference between the two lookups does not show. The signal is
    looked up by the decoded site and segment, which may be others only if the
    account name has an underscore. -/
structure LookupsAgree (six : SixDecimals) (rows : List MdRow) (d : RunData) (hour : Nat) (c : Cell) : Prop where
  signal : '_' ∈ c.san → impSignal d.siteSegSignal d.networkSignal (signalInd (lpVarMain c) hour) hour =
    impSignal d.siteSegSignal d.networkSignal (signalIndex c hour) hour
  ratio : ((campaignRatio six rows (askedSan c) (intText c.siteid) (segText c.segmentid) c.size.text).or
      (placementRatio six rows (field (lpVarMain c) 2) (field (lpVarMain c) 3) (field (lpVarMain c) 4))).getD 1 =
    ((campaignRatio six rows c.san (intText c.siteid) (segText c.segmentid) c.size.text).or
      (placementRatio six rows (intText c.siteid) (segText c.segmentid) c.size.text)).getD 1

theorem same_signal_iff {hour : Nat} :
    bidImpFactor d hour (lpVarMain c) = impFactor d hour c ↔
      ('_' ∈ c.san → impSignal d.siteSegSignal d.networkSignal (signalInd (lpVarMain c) hour) hour =
        impSignal d.siteSegSignal d.networkSignal (signalIndex c hour) hour) := by
  constructor
  · intro same _
    exact same
  · intro same
    by_cases plain : '_' ∈ c.san
    · exact same plain
    · obtain ⟨site, segment, -⟩ := field_lpVarMain plain
      simp only [bidImpFactor, impFactor, signalInd, signalIndex, site, segment]

theorem ratioOf_isSome {rows : List MdRow} : (ratioOf six rows).isSome = true ↔ rows ≠ [] := by
  unfold ratioOf
  split_ifs with empty
  · simp [empty]
  · simp [empty]

theorem placementRatio_isSome {rows : List MdRow} {san site segment size : Str} {own : ℚ}
    (isOwn : campaignRatio six rows san site segment size = some own) :
    ∃ placement, placementRatio six rows site segment size = some placement := by
  refine Option.isSome_iff_exists.mp (ratioOf_isSome.mpr fun none => ?_)
  have some := ratioOf_isSome.mp (Option.isSome_iff_exists.mpr ⟨own, isOwn⟩)
  obtain ⟨row, member⟩ := List.exists_mem_of_ne_nil _ some
  obtain ⟨listed, columns⟩ := List.mem_filter.mp member
  have placed : row ∈ rows.filter fun row => intText row.1.siteid = site ∧ intText row.1.segmentid = segment ∧
      row.2.size.text = size := List.mem_filter.mpr ⟨listed, by simpa using (of_decide_eq_true columns).2⟩
  rw [none] at placed
  exact absurd placed List.not_mem_nil

/-- For an account name without an underscore, and no campaign that is called
    like it with the ad's id appended, what matters is the campaign's own ratio
    on the placement. -/
theorem lookupsAgree_iff {hour : Nat} (plain : '_' ∉ c.san) (unnamed : ∀ m ∈ net.media, m.san ≠ askedSan c) :
    LookupsAgree six (mdRows net mdDate rows) d hour c ↔
      ∀ own, campaignRatio six (mdRows net mdDate rows) c.san (intText c.siteid) (segText c.segmentid) c.size.text =
        some own →
        placementRatio six (mdRows net mdDate rows) (intText c.siteid) (segText c.segmentid) c.size.text = some own := by
  have noAsked : campaignRatio six (mdRows net mdDate rows) (askedSan c) (intText c.siteid) (segText c.segmentid)
      c.size.text = none := by
    refine if_pos (List.filter_eq_nil_iff.mpr fun row member asked => ?_)
    exact unnamed row.2 (mem_join.mp member).2.1 (of_decide_eq_true asked).1
  obtain ⟨site, segment, size⟩ := field_lpVarMain plain
  have reduced : LookupsAgree six (mdRows net mdDate rows) d hour c ↔
      (placementRatio six (mdRows net mdDate rows) (intText c.siteid) (segText c.segmentid) c.size.text).getD 1 =
        ((campaignRatio six (mdRows net mdDate rows) c.san (intText c.siteid) (segText c.segmentid) c.size.text).or
          (placementRatio six (mdRows net mdDate rows) (intText c.siteid) (segText c.segmentid) c.size.text)).getD 1 := by
    constructor
    · intro agree
      have same := agree.ratio
      rwa [noAsked, site, segment, size, Option.none_or] at same
    · intro same
      refine ⟨fun underscore => absurd underscore plain, ?_⟩
      rwa [noAsked, site, segment, size, Option.none_or]
  rw [reduced]
  cases isOwn : campaignRatio six (mdRows net mdDate rows) c.san (intText c.siteid) (segText c.segmentid) c.size.text with
  | none => simp
  | some own =>
    obtain ⟨placement, isPlacement⟩ := placementRatio_isSome isOwn
    simp [isPlacement]

end

/-! ### Agreement -/

/-- Where a solution gives a cell of the objective a positive allocation, the
    factors that `BidCalc` multiplies into the cell's volumes are those that
    `LP_Obj` multiplied into its coefficients exactly if the difference between
    the two lookups does not show: for an ordinary account name, if the campaign
    has no misdelivery on the placement or the same ratio as all campaigns
    there. -/
theorem same_factors_iff (six : SixDecimals) (net : Network) (mdDate : Date) (rows : List MisdeliveryRow) (d₀ : RunData)
    (hour : Nat) (cells : SortedMap Str Cell) (r : Rounding) (solution : Solution) (optBids : SortedMap Str OptBid)
    (c : Cell) (k : Coefficients) (x : ℚ)
    (enters : Enters (withMisdelivery d₀ (getMDFactors six net mdDate rows)) hour cells c k)
    (run : bidCalc r (withMisdelivery d₀ (getMDFactors six net mdDate rows)) hour solution = some optBids)
    (listed : (lpVarMain c, x) ∈ solution.lines) (positive : 0 < gridAlloc r x) :
    let d := withMisdelivery d₀ (getMDFactors six net mdDate rows)
    (∃ imp_lp imp_bid, impFactor d hour c = some imp_lp ∧ bidImpFactor d hour (lpVarMain c) = some imp_bid ∧
      k = coefficientsAt d c imp_lp ∧
      optBids.get? (lpVarMain c) =
        some (scaledBid d (lpVarMain c) (gridAlloc r x) imp_bid (bidMdFactor d (lpVarMain c))) ∧
      (imp_bid = imp_lp ∧ bidMdFactor d (lpVarMain c) = mdFactor d c ↔
        LookupsAgree six (mdRows net mdDate rows) d₀ hour c)) ∧
    ('_' ∉ c.san → (∀ m ∈ net.media, m.san ≠ askedSan c) →
      (LookupsAgree six (mdRows net mdDate rows) d₀ hour c ↔
        ∀ own, campaignRatio six (mdRows net mdDate rows) c.san (intText c.siteid) (segText c.segmentid) c.size.text =
          some own →
          placementRatio six (mdRows net mdDate rows) (intText c.siteid) (segText c.segmentid) c.size.text =
            some own)) := by
  intro d
  obtain ⟨-, -, imp_lp, isLp, coefficientsAre⟩ := coefficients_eq_some.mp enters.2
  obtain ⟨bid, line, recorded⟩ := (bidCalc_records run).1 _ _ listed
  obtain ⟨imp_bid, isBid, rfl⟩ := lineBid_scaled positive line
  refine ⟨⟨imp_lp, imp_bid, isLp, isBid, coefficientsAre, recorded, ?_⟩, lookupsAgree_iff⟩
  have signals : imp_bid = imp_lp ↔ bidImpFactor d hour (lpVarMain c) = impFactor d hour c := by
    rw [isBid, isLp, Option.some.injEq]
  rw [signals, same_signal_iff, bidMdFactor_eq, mdFactor_eq]
  exact ⟨fun agree => ⟨agree.1, agree.2⟩, fun agree => ⟨agree.signal, agree.ratio⟩⟩

/-! ### Two campaigns on one placement -/

theorem near_round_six (x : ℚ) : |1000000 * x - round (1000000 * x)| ≤ 1 / 2 := abs_sub_round _

def halfUpSix : SixDecimals where
  round x := round (1000000 * x)
  near := near_round_six

def bothCampaigns : List Campaign :=
  [⟨"auo".toList, 1, some 100, some 1, some 1, some 3⟩, ⟨"aig".toList, 2, some 100, some 1, some 1, some 3⟩]

def bothAds : List Media := [⟨11, size300x250, "auo".toList, some 1, 1⟩, ⟨12, size300x250, "aig".toList, some 1, 1⟩]

theorem bothCampaigns_key : (bothCampaigns.map fun c => (c.san, c.cid)).Nodup := by decide

theorem bothAds_key : (bothAds.map Media.adid).Nodup := by decide

theorem cells_key : ((onSegment 5).cdoCells.map CdoCell.cellid).Nodup := (onSegment 5).cdoCells_key

/-- The cell of `onSegment 5`, and an ad of another campaign. -/
def twoCampaigns : Network where
  campaign := bothCampaigns
  media := bothAds
  cdoCells := (onSegment 5).cdoCells
  campaign_key := bothCampaigns_key
  media_key := bothAds_key
  cdoCells_key := cells_key

/-- The first campaign got half of the impressions that were expected, the other
    one all of the given number. -/
def halfDelivered (others : List Int) : List MisdeliveryRow :=
  ⟨100, 3, 11, 20, 5, some 100, some 50⟩ :: others.map fun n => ⟨100, 3, 12, 20, 5, some n, some n⟩

def misdelivered (others : List Int) : RunData :=
  withMisdelivery (withPrices cappedRun (pricesIn .test)) (getMDFactors halfUpSix twoCampaigns 0 (halfDelivered others))

def sampleCell : Cell := { cellOn 5 with q := some (1 / 100) }

theorem sampleCell_enters (others : List Int)
    (computed : coefficients (misdelivered others) 3 sampleCell = some ⟨2, 3 / 10⟩) :
    Enters (misdelivered others) 3 (getCellData twoCampaigns fun _ => some (1 / 100)) sampleCell ⟨2, 3 / 10⟩ :=
  ⟨⟨"7".toList, by decide +kernel⟩, computed⟩

theorem same_factors_one_campaign :
    ∃ optBids imp_lp imp_bid, bidCalc halfUp (misdelivered []) 3 tenth = some optBids ∧
      impFactor (misdelivered []) 3 sampleCell = some imp_lp ∧
      bidImpFactor (misdelivered []) 3 (lpVarMain sampleCell) = some imp_bid ∧ imp_bid = imp_lp ∧
      bidMdFactor (misdelivered []) (lpVarMain sampleCell) = mdFactor (misdelivered []) sampleCell := by
  have runs : (bidCalc halfUp (misdelivered []) 3 tenth).isSome = true := by decide +kernel
  obtain ⟨optBids, run⟩ := Option.isSome_iff_exists.mp runs
  obtain ⟨⟨imp_lp, imp_bid, isLp, isBid, -, -, exactly⟩, ordinary⟩ := same_factors_iff halfUpSix twoCampaigns 0
    (halfDelivered []) (withPrices cappedRun (pricesIn .test)) 3 _ halfUp tenth optBids sampleCell ⟨2, 3 / 10⟩ (1 / 10)
    (sampleCell_enters [] (by decide +kernel)) run (by decide +kernel) (by decide +kernel)
  obtain ⟨same, sameRatio⟩ := exactly.mpr <| (ordinary (by decide) (by decide)).mpr fun own isOwn => by
    rw [← isOwn]
    decide +kernel
  exact ⟨optBids, imp_lp, imp_bid, run, isLp, isBid, same, sameRatio⟩

/-- Half of the impressions were delivered, three quarters with those of the
    other campaign. -/
theorem other_campaign_changes_factor :
    Enters (misdelivered [100]) 3 (getCellData twoCampaigns fun _ => some (1 / 100)) sampleCell ⟨2, 3 / 10⟩ ∧
      (bidCalc halfUp (misdelivered [100]) 3 tenth).isSome = true ∧
      (lpVarMain sampleCell, (1 / 10 : ℚ)) ∈ tenth.lines ∧ gridAlloc halfUp (1 / 10) = 10 ∧
      mdFactor (misdelivered [100]) sampleCell = 1 / 2 ∧
      bidMdFactor (misdelivered [100]) (lpVarMain sampleCell) = 3 / 4 := by
  refine ⟨sampleCell_enters [100] (by decide +kernel), ?_⟩
  decide +kernel

end Cdo.Misdelivery
