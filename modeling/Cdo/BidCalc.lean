import Cdo.Objective

/-!
The bids of an hourly run (`BidCalc` of `CDO.pm`). Each line of the solution
gives a variable and its allocation, which is rounded to a multiple of 0.05; the
bid is that of the price at this allocation. The keys are rebuilt from the name
of the variable. Only `PriceVolumeTest` can be found by them: the key for
`PriceVolumeAvg` lacks the allocation, so that a cell whose price came from the
averages is bid at the minimum unless the campaign table has a price at the
rounded allocation after all (`same_price_iff`).
-/
namespace Cdo.BidCalc
open Cdo.Text Cdo.Query Cdo.Tables Cdo.Params Cdo.Signals Cdo.Objective

/-! ### Rounding -/

/-- A rounding to two decimals, as a number of hundredths. Which neighbour a
    number halfway between two hundredths goes to depends on its binary
    representation and is left open. -/
structure Rounding where
  round : ℚ → Int
  near : ∀ x, |100 * x - round x| ≤ 1 / 2

/-- The multiple of 0.05 that is nearest to a number of hundredths. -/
def nearest (hundredths : Int) : Int :=
  if 0 ≤ hundredths then 5 * ((hundredths + 2) / 5) else -(5 * ((-hundredths + 2) / 5))

def isGreater (a b : Int) : Int := if a < b then b else a

/-- The allocation that is recorded, in hundredths. -/
def gridAlloc (r : Rounding) (ap : ℚ) : Int := isGreater 0 (nearest (r.round ap))

theorem gridAlloc_nonneg (r : Rounding) (x : ℚ) : 0 ≤ gridAlloc r x := by
  unfold gridAlloc isGreater
  split_ifs with above
  · exact above.le
  · exact le_refl 0

theorem round_nonneg {r : Rounding} {x : ℚ} (nonneg : 0 ≤ x) : 0 ≤ r.round x := by
  have near := (abs_le.mp (r.near x)).2
  by_contra negative
  have below : (r.round x : ℚ) ≤ -1 := by
    have integer : r.round x ≤ -1 := by omega
    exact_mod_cast integer
  linarith

theorem gridAlloc_eq {r : Rounding} {x : ℚ} (nonneg : 0 ≤ x) : gridAlloc r x = 5 * ((r.round x + 2) / 5) := by
  have rounded := round_nonneg (r := r) nonneg
  unfold gridAlloc isGreater nearest
  rw [if_pos rounded]
  split_ifs with above
  · rfl
  · omega

/-! ### Names -/

/-- A text with `neg` read back as a minus sign. -/
def negBack : Str → Str
  | 'n' :: 'e' :: 'g' :: rest => '-' :: negBack rest
  | c :: rest => c :: negBack rest
  | [] => []

def field (name : Str) (i : Nat) : Str := (name.splitOn '_').getD i []

def pvInd (name : Str) (alloc : Str) : Str :=
  joined '_' [field name 0, field name 2, negBack (field name 3), field name 4, alloc]

def invInd (name : Str) : Str := joined '_' [field name 2, field name 3, field name 4]

def signalInd (name : Str) (hour : Nat) : Str := field name 2 ++ field name 3 ++ natText hour

/-! ### Bids -/

def minBid : Str := "0".toList

/-- What is recorded for a variable; the allocation in hundredths. -/
structure OptBid where
  bid : Str
  allocation : Int
  evolume : ℚ
  capped_evolume : ℚ
  espend : ℚ
deriving DecidableEq

def bidFactor (d : RunData) (hour : Nat) (name : Str) : Option ℚ :=
  (impSignal d.siteSegSignal d.networkSignal (signalInd name hour) hour).map fun imp_factor =>
    imp_factor * mdRatio name (invInd name) d.cellMdFactors d.siteSegMdFactors

/-- The price that is found for a variable at an allocation. The average prices
    hold no volumes at an allocation, which are computed for the others only. -/
def bidPrice (d : RunData) (name : Str) (alloc : Int) : Option Price :=
  (d.cost.get? (pvInd name (twoDecimals alloc))).or
    ((d.costAvg.get? (invInd name)).map fun price => { price with volume := none, capped_volume := none })

def defaultBid (alloc : Int) : OptBid := ⟨minBid, alloc, 0, 0, 0⟩

def lineBid (r : Rounding) (d : RunData) (hour : Nat) (name : Str) (ap : ℚ) : Option OptBid :=
  let alloc := gridAlloc r ap
  if alloc = 0 then some (defaultBid alloc)
  else
    (bidFactor d hour name).map fun factor =>
      match bidPrice d name alloc with
      | none => defaultBid alloc
      | some price =>
        if num price.bid = 0 then defaultBid alloc
        else
          let volume : ℚ := (price.allocation / 100 : ℚ) * num price.volume * factor
          let capped_volume : ℚ := (price.allocation / 100 : ℚ) * num price.capped_volume * factor
          ⟨twoDecimals (num price.bid), alloc, volume, capped_volume, num price.bid / 100 * capped_volume / 1000⟩

/-- The lines of a solution, one for each variable. -/
structure Solution where
  lines : List (Str × ℚ)
  once : (lines.map Prod.fst).Nodup

def bidCalc (r : Rounding) (d : RunData) (hour : Nat) (solution : Solution) : Option (SortedMap Str OptBid) :=
  solution.lines.foldlM (fun optBids line => (lineBid r d hour line.1 line.2).map fun bid => optBids.insert line.1 bid)
    SortedMap.empty

/-! ### Recorded bids -/

/-- Every line has its bid recorded under its name, and nothing else is recorded. -/
theorem bidCalc_records {r : Rounding} {d : RunData} {hour : Nat} {solution : Solution} {optBids : SortedMap Str OptBid}
    (run : bidCalc r d hour solution = some optBids) :
    (∀ name ap, (name, ap) ∈ solution.lines →
      ∃ bid, lineBid r d hour name ap = some bid ∧ optBids.get? name = some bid) ∧
    ∀ name, name ∉ solution.lines.map Prod.fst → optBids.get? name = none := by
  have loop : ∀ (lines : List (Str × ℚ)) (before after : SortedMap Str OptBid), (lines.map Prod.fst).Nodup →
      lines.foldlM (fun optBids line => (lineBid r d hour line.1 line.2).map fun bid => optBids.insert line.1 bid)
        before = some after →
      (∀ name ap, (name, ap) ∈ lines → ∃ bid, lineBid r d hour name ap = some bid ∧ after.get? name = some bid) ∧
        ∀ name, name ∉ lines.map Prod.fst → after.get? name = before.get? name := by
    intro lines
    induction lines with
    | nil =>
      intro before after _ done
      obtain rfl : before = after := by simpa using done
      exact ⟨fun _ _ member => absurd member List.not_mem_nil, fun _ _ => rfl⟩
    | cons line rest ih =>
      intro before after once done
      obtain ⟨fresh, restOnce⟩ := List.nodup_cons.mp once
      rw [List.foldlM_cons] at done
      obtain ⟨next, step, remaining⟩ := Option.bind_eq_some_iff.mp done
      obtain ⟨bid, lineIs, rfl⟩ := Option.map_eq_some_iff.mp step
      obtain ⟨recorded, kept⟩ := ih _ after restOnce remaining
      constructor
      · intro name ap member
        rcases List.mem_cons.mp member with rfl | later
        · exact ⟨bid, lineIs, by rw [kept _ fresh, SortedMap.get?_insert, if_pos rfl]⟩
        · exact recorded name ap later
      · intro name absent
        rw [List.map_cons, List.mem_cons, not_or] at absent
        rw [kept name absent.2, SortedMap.get?_insert, if_neg absent.1]
  exact loop solution.lines SortedMap.empty optBids solution.once run

/-! ### Decoded names -/

theorem underscore_field (name : Str) (i : Nat) : '_' ∉ field name i := by
  unfold field
  rw [List.getD_eq_getElem?_getD]
  cases found : (name.splitOn '_')[i]? with
  | none => simp
  | some piece => exact not_mem_splitOn (List.mem_of_getElem? found)

theorem underscore_negBack {text : Str} (plain : '_' ∉ text) : '_' ∉ negBack text := by
  fun_induction negBack text with
  | case1 rest ih =>
    simp only [List.mem_cons, not_or] at plain ⊢
    exact ⟨by decide, ih plain.2.2.2⟩
  | case2 c rest _ ih =>
    rw [List.mem_cons, not_or] at plain ⊢
    exact ⟨plain.1, ih plain.2⟩
  | case3 => exact plain

theorem negBack_of_not_mem {text : Str} (plain : 'n' ∉ text) : negBack text = text := by
  fun_induction negBack text with
  | case1 rest ih => exact absurd List.mem_cons_self plain
  | case2 c rest _ ih =>
    rw [List.mem_cons, not_or] at plain
    rw [ih plain.2]
  | case3 => rfl

theorem negBack_segText (i : Int) : negBack (segText i) = intText i := by
  rcases lt_or_ge i 0 with negative | nonneg
  · obtain ⟨n, rfl⟩ := Int.eq_negSucc_of_lt_zero negative
    rw [segText_negSucc]
    show '-' :: negBack (natText (n + 1)) = _
    rw [negBack_of_not_mem (not_mem_natText (by decide) _)]
    rfl
  · rw [segText_nonneg nonneg, negBack_of_not_mem (not_mem_intText (by decide) (by decide) i)]

theorem splitOn_lpVarMain {c : Cell} (plain : '_' ∉ c.san) :
    (lpVarMain c).splitOn '_' = [c.san, intText c.adid, intText c.siteid, segText c.segmentid, c.size.text] := by
  refine splitOn_joined (by simp) ?_
  simp [plain, c.size.plain]

/-- A row of `PriceVolumeTest` is at an allocation and has the columns that a
    name decodes to. -/
def decodesTo (name : Str) (alloc : Int) (row : TestRow) : Bool :=
  row.san == field name 0 && intText row.siteid == field name 2 && intText row.segmentid == negBack (field name 3) &&
    row.size.text == field name 4 && row.price.allocation == alloc

theorem decodesTo_lpVarMain {c : Cell} (plain : '_' ∉ c.san) (alloc : Int) (row : TestRow) :
    decodesTo (lpVarMain c) alloc row = ofCellTest c alloc row := by
  have san : field (lpVarMain c) 0 = c.san := by rw [field, splitOn_lpVarMain plain]; rfl
  have site : field (lpVarMain c) 2 = intText c.siteid := by rw [field, splitOn_lpVarMain plain]; rfl
  have segment : field (lpVarMain c) 3 = segText c.segmentid := by rw [field, splitOn_lpVarMain plain]; rfl
  have size : field (lpVarMain c) 4 = c.size.text := by rw [field, splitOn_lpVarMain plain]; rfl
  rw [Bool.eq_iff_iff]
  simp only [decodesTo, ofCellTest, san, site, segment, size, negBack_segText, Bool.and_eq_true, beq_iff_eq]
  constructor
  · rintro ⟨⟨⟨⟨rowSan, rowSite⟩, rowSegment⟩, rowSize⟩, allocation⟩
    exact ⟨⟨⟨⟨rowSan, intText_injective rowSite⟩, intText_injective rowSegment⟩, Size.ext_text rowSize⟩, allocation⟩
  · rintro ⟨⟨⟨⟨rowSan, rowSite⟩, rowSegment⟩, rowSize⟩, allocation⟩
    exact ⟨⟨⟨⟨rowSan, by rw [rowSite]⟩, by rw [rowSegment]⟩, by rw [rowSize]⟩, allocation⟩

theorem testKey_eq_pvInd {row : TestRow} {name : Str} {alloc : Int} :
    testKey row = pvInd name (twoDecimals alloc) ↔ decodesTo name alloc row = true := by
  simp only [decodesTo, Bool.and_eq_true, beq_iff_eq, and_assoc]
  constructor
  · intro same
    unfold testKey pvInd at same
    obtain ⟨san, fields⟩ := joined_tail_injective (by simp) (by simp [row.size.plain])
      (by simp [underscore_field, underscore_negBack]) same
    simp only [List.cons.injEq, and_true] at fields
    exact ⟨san, fields.1, fields.2.1, fields.2.2.1, twoDecimals_injective fields.2.2.2⟩
  · rintro ⟨san, site, segment, size, allocation⟩
    simp only [testKey, pvInd, san, site, segment, size, allocation]

/-- No average price is found: the key lacks the allocation. -/
theorem costAvg_unread (pv : PriceVolume) (name : Str) : (getCostData pv).2.get? (invInd name) = none := by
  refine SortedMap.get?_ofRows_none ?_
  intro row _ same
  unfold avgKey invInd at same
  have fields := joined_injective (by simp) (by simp) (by simp [row.size.plain]) (by simp [underscore_field]) same
  simp at fields

theorem decodesTo_unique {pv : PriceVolume} {name : Str} {alloc : Int} {row other : TestRow} (member : row ∈ pv.test)
    (otherMember : other ∈ pv.test) (decoded : decodesTo name alloc row = true)
    (otherDecoded : decodesTo name alloc other = true) : other = row := by
  simp only [decodesTo, Bool.and_eq_true, beq_iff_eq, and_assoc] at decoded otherDecoded
  refine List.inj_on_of_nodup_map pv.test_key otherMember member ?_
  have site := intText_injective (otherDecoded.2.1.trans decoded.2.1.symm)
  have segment := intText_injective (otherDecoded.2.2.1.trans decoded.2.2.1.symm)
  have size := Size.ext_text (otherDecoded.2.2.2.1.trans decoded.2.2.2.1.symm)
  simp only [decoded.1, otherDecoded.1, site, segment, size, decoded.2.2.2.2, otherDecoded.2.2.2.2]

theorem cost_get?_pvInd (pv : PriceVolume) (name : Str) (alloc : Int) :
    (getCostData pv).1.get? (pvInd name (twoDecimals alloc)) =
      if alloc < 95 then (pv.test.find? (decodesTo name alloc)).map TestRow.price else none := by
  split_ifs with below
  · rw [← find?_filter_of_imp pv.test (fun row => row.price.allocation < 95)]
    · refine SortedMap.get?_ofRows_find? _ (fun row _ => testKey_eq_pvInd.symm) ?_
      intro row member other otherMember same otherSame
      rw [decodesTo_unique (List.mem_of_mem_filter member) (List.mem_of_mem_filter otherMember)
        (testKey_eq_pvInd.mp same) (testKey_eq_pvInd.mp otherSame)]
    · intro row decoded
      simp only [decodesTo, Bool.and_eq_true, beq_iff_eq] at decoded
      simp [decoded.2, below]
  · refine SortedMap.get?_ofRows_none ?_
    intro row member same
    have decoded := testKey_eq_pvInd.mp same
    simp only [decodesTo, Bool.and_eq_true, beq_iff_eq] at decoded
    obtain ⟨-, rowBelow⟩ := List.mem_filter.mp member
    rw [decoded.2] at rowBelow
    exact below (of_decide_eq_true rowBelow)

/-! ### Prices of both stages -/

inductive PriceTable where
  | test | avg
deriving DecidableEq

/-- The table that `LP_Obj` prices a cell from. -/
def pricedFrom (d : RunData) (c : Cell) : Option PriceTable :=
  let alpha := maxAlpha (lpVarMain c) c.san d.cellMaxAlpha d.campaignMaxAlpha
  if (d.cost.get? (pvIndex c alpha)).isSome then some .test
  else if (d.costAvg.get? (pvAvgIndex c alpha)).isSome then some .avg
  else none

def priceIn (pv : PriceVolume) (c : Cell) (alloc : Int) : PriceTable → Option Price
  | .test => (pv.test.find? (ofCellTest c alloc)).map TestRow.price
  | .avg => (pv.avg.find? (ofCellAvg c alloc)).map AvgRow.price

def withPrices (d : RunData) (pv : PriceVolume) : RunData :=
  { d with cost := (getCostData pv).1, costAvg := (getCostData pv).2 }

/-- The bid and the volumes are those of a price, scaled by a factor. -/
def BidAt (bid : OptBid) (price : Price) (alloc : Int) (factor : ℚ) : Prop :=
  bid.bid = twoDecimals (num price.bid) ∧ bid.evolume = (alloc / 100 : ℚ) * num price.volume * factor ∧
    bid.capped_evolume = (alloc / 100 : ℚ) * num price.capped_volume * factor

theorem minBid_ne_twoDecimals (hundredths : Int) : minBid ≠ twoDecimals hundredths := by
  intro same
  have point : '.' ∈ minBid := by
    rw [same]
    cases hundredths <;> simp [twoDecimals, hundredthsText]
  exact absurd point (by decide)

/-- The price that `BidCalc` finds is that of `PriceVolumeTest`. -/
theorem bidPrice_withPrices (d : RunData) (pv : PriceVolume) (name : Str) (alloc : Int) :
    bidPrice (withPrices d pv) name alloc =
      if alloc < 95 then (pv.test.find? (decodesTo name alloc)).map TestRow.price else none := by
  unfold bidPrice withPrices
  rw [cost_get?_pvInd, costAvg_unread]
  simp

theorem lineBid_positive {r : Rounding} {d : RunData} {hour : Nat} {name : Str} {ap : ℚ} {bid : OptBid}
    (positive : 0 < gridAlloc r ap) (line : lineBid r d hour name ap = some bid) :
    ∃ factor, bidFactor d hour name = some factor ∧
      bid = match bidPrice d name (gridAlloc r ap) with
        | none => defaultBid (gridAlloc r ap)
        | some price =>
          if num price.bid = 0 then defaultBid (gridAlloc r ap)
          else
            ⟨twoDecimals (num price.bid), gridAlloc r ap, (price.allocation / 100 : ℚ) * num price.volume * factor,
              (price.allocation / 100 : ℚ) * num price.capped_volume * factor,
              num price.bid / 100 * ((price.allocation / 100 : ℚ) * num price.capped_volume * factor) / 1000⟩ := by
  rw [lineBid, if_neg positive.ne'] at line
  obtain ⟨factor, isFactor, rfl⟩ := Option.map_eq_some_iff.mp line
  exact ⟨factor, isFactor, rfl⟩

theorem lineBid_allocation {r : Rounding} {d : RunData} {hour : Nat} {name : Str} {ap : ℚ} {bid : OptBid}
    (line : lineBid r d hour name ap = some bid) : bid.allocation = gridAlloc r ap := by
  rcases (gridAlloc_nonneg r ap).eq_or_lt with zero | positive
  · rw [lineBid, if_pos zero.symm] at line
    obtain rfl := Option.some.inj line
    rfl
  · obtain ⟨factor, -, rfl⟩ := lineBid_positive positive line
    cases bidPrice d name (gridAlloc r ap) with
    | none => rfl
    | some price =>
      show (if _ then defaultBid _ else _ : OptBid).allocation = _
      split_ifs <;> rfl

theorem not_bidAt_default (price : Price) (alloc : Int) (factor : ℚ) : ¬ BidAt (defaultBid alloc) price alloc factor := by
  rintro ⟨same, -⟩
  exact minBid_ne_twoDecimals _ same

/-- Volumes scaled by a positive allocation and a factor. -/
theorem scaled_eq_iff {alloc : Int} (positive : 0 < alloc) (factor : ℚ) (v w : Int) :
    (alloc / 100 : ℚ) * v * factor = (alloc / 100 : ℚ) * w * factor ↔ factor = 0 ∨ v = w := by
  have share : (alloc / 100 : ℚ) ≠ 0 := by
    have := Int.cast_pos (R := ℚ).mpr positive
    positivity
  rw [mul_assoc, mul_assoc, mul_right_inj' share, mul_eq_mul_right_iff, Int.cast_inj, or_comm]

/-- A bid made of one price is a bid at another one exactly if they have the same
    bid and, unless the factor is 0, the same volumes. -/
theorem bidAt_scaled_iff {alloc : Int} (positive : 0 < alloc) (factor espend : ℚ) (price other : Price) :
    BidAt ⟨twoDecimals (num price.bid), alloc, (alloc / 100 : ℚ) * num price.volume * factor,
        (alloc / 100 : ℚ) * num price.capped_volume * factor, espend⟩ other alloc factor ↔
      num price.bid = num other.bid ∧
        (factor = 0 ∨ num price.volume = num other.volume ∧ num price.capped_volume = num other.capped_volume) := by
  simp only [BidAt, scaled_eq_iff positive]
  rw [← or_and_left]
  exact and_congr_left' ⟨fun same => twoDecimals_injective same, congrArg twoDecimals⟩

/-- Where `LP_Obj` took the price of a cell from a table that has a price at the
    recorded allocation too, `BidCalc` bids that price exactly if the allocation
    is below 0.95 and the row of `PriceVolumeTest` that the variable's name
    decodes to has the same bid and, unless its factor is 0, the same volumes. A
    name decodes to the cell's own columns if its account name has no
    underscore. -/
theorem same_price_iff (r : Rounding) (pv : PriceVolume) (d : RunData) (hour : Nat) (solution : Solution)
    (optBids : SortedMap Str OptBid) (c : Cell) (x : ℚ)
    (run : bidCalc r (withPrices d pv) hour solution = some optBids) (listed : (lpVarMain c, x) ∈ solution.lines)
    (positive : 0 < gridAlloc r x) :
    (∃ bid factor, optBids.get? (lpVarMain c) = some bid ∧ bidFactor (withPrices d pv) hour (lpVarMain c) = some factor ∧
      ∀ table price, pricedFrom (withPrices d pv) c = some table → priceIn pv c (gridAlloc r x) table = some price →
        num price.bid ≠ 0 →
        (BidAt bid price (gridAlloc r x) factor ↔
          gridAlloc r x < 95 ∧ ∃ row ∈ pv.test, decodesTo (lpVarMain c) (gridAlloc r x) row = true ∧
            num row.price.bid = num price.bid ∧
            (factor = 0 ∨
              num row.price.volume = num price.volume ∧ num row.price.capped_volume = num price.capped_volume))) ∧
    ('_' ∉ c.san → ∀ row, decodesTo (lpVarMain c) (gridAlloc r x) row = ofCellTest c (gridAlloc r x) row) := by
  obtain ⟨bid, line, recorded⟩ := (bidCalc_records run).1 _ _ listed
  obtain ⟨factor, isFactor, bidIs⟩ := lineBid_positive positive line
  refine ⟨⟨bid, factor, recorded, isFactor, ?_⟩, fun plain row => decodesTo_lpVarMain plain _ row⟩
  intro table price _ _ bids
  rw [bidPrice_withPrices] at bidIs
  have defaulted : bid = defaultBid (gridAlloc r x) → ¬ BidAt bid price (gridAlloc r x) factor := by
    rintro rfl
    exact not_bidAt_default price _ factor
  by_cases below : gridAlloc r x < 95
  · rw [if_pos below] at bidIs
    cases found : pv.test.find? (decodesTo (lpVarMain c) (gridAlloc r x)) with
    | none =>
      rw [found] at bidIs
      refine iff_of_false (defaulted bidIs) ?_
      rintro ⟨-, row, member, decoded, -⟩
      exact List.find?_eq_none.mp found row member decoded
    | some row =>
      have member := List.mem_of_find?_eq_some found
      have decoded := List.find?_some found
      have allocation : row.price.allocation = gridAlloc r x := by
        simp only [decodesTo, Bool.and_eq_true, beq_iff_eq] at decoded
        exact decoded.2
      rw [found] at bidIs
      simp only [Option.map_some] at bidIs
      by_cases none : num row.price.bid = 0
      · rw [if_pos none] at bidIs
        refine iff_of_false (defaulted bidIs) ?_
        rintro ⟨-, other, otherMember, otherDecoded, sameBid, -⟩
        rw [decodesTo_unique member otherMember decoded otherDecoded, none] at sameBid
        exact bids sameBid.symm
      · rw [if_neg none, allocation] at bidIs
        subst bidIs
        rw [bidAt_scaled_iff positive]
        constructor
        · exact fun same => ⟨below, row, member, decoded, same⟩
        · rintro ⟨-, other, otherMember, otherDecoded, same⟩
          rwa [decodesTo_unique member otherMember decoded otherDecoded] at same
  · rw [if_neg below] at bidIs
    refine iff_of_false (defaulted bidIs) ?_
    rintro ⟨under, -⟩
    exact below under

def halfUp : Rounding where
  round x := round (100 * x)
  near x := abs_sub_round (100 * x)

/-- A run at hour 3 in which the campaign of `cellOn` has a cap of 0.20. -/
def cappedRun : RunData where
  cost := SortedMap.empty
  costAvg := SortedMap.empty
  siteSegSignal := SortedMap.empty
  networkSignal := SortedMap.ofRows (fun _ => 3) (fun _ => ⟨some 10, some 100⟩) [()]
  cellMaxAlpha := SortedMap.empty
  campaignMaxAlpha := campaignMaxAlpha (onSegment 5) campaignCap
  cellMdFactors := SortedMap.empty
  siteSegMdFactors := SortedMap.empty

/-- Prices of that cell at 0.10 and 0.20, of its campaign or the averages. -/
def pricesIn : PriceTable → PriceVolume
  | .test => ⟨[⟨"auo".toList, 20, 5, (cellOn 5).size, ⟨some 120, 10, some 5000, some 4000⟩⟩,
      ⟨"auo".toList, 20, 5, (cellOn 5).size, ⟨some 150, 20, some 5000, some 4000⟩⟩], [], by decide, List.nodup_nil⟩
  | .avg => ⟨[], [⟨20, 5, (cellOn 5).size, ⟨some 120, 10, some 5000, some 4000⟩⟩,
      ⟨20, 5, (cellOn 5).size, ⟨some 150, 20, some 5000, some 4000⟩⟩], List.nodup_nil, by decide⟩

def tenth : Solution := ⟨[("auo_11_20_5_300x250".toList, 1 / 10)], by simp⟩

theorem same_price_campaign :
    ∃ optBids, bidCalc halfUp (withPrices cappedRun (pricesIn .test)) 3 tenth = some optBids ∧
      ∃ bid factor, optBids.get? (lpVarMain (cellOn 5)) = some bid ∧
        BidAt bid ⟨some 120, 10, some 5000, some 4000⟩ 10 factor := by
  have runs : (bidCalc halfUp (withPrices cappedRun (pricesIn .test)) 3 tenth).isSome = true := by decide +kernel
  obtain ⟨optBids, run⟩ := Option.isSome_iff_exists.mp runs
  have alloc : gridAlloc halfUp (1 / 10) = 10 := by decide +kernel
  obtain ⟨⟨bid, factor, recorded, -, exactly⟩, -⟩ := same_price_iff halfUp (pricesIn .test) cappedRun 3 tenth optBids
    (cellOn 5) (1 / 10) run (by decide +kernel) (by rw [alloc]; decide)
  rw [alloc] at exactly
  refine ⟨optBids, run, bid, factor, recorded, ?_⟩
  refine (exactly .test ⟨some 120, 10, some 5000, some 4000⟩ (by decide +kernel) (by decide) (by decide)).mpr ?_
  exact ⟨by decide, _, List.mem_cons_self, by decide, rfl, .inr ⟨rfl, rfl⟩⟩

/-- A cell that is priced from the averages, which hold a price at its
    allocation, is bid at the minimum. -/
theorem average_price_not_bid :
    pricedFrom (withPrices cappedRun (pricesIn .avg)) (cellOn 5) = some .avg ∧ gridAlloc halfUp (1 / 10) = 10 ∧
      priceIn (pricesIn .avg) (cellOn 5) 10 .avg = some ⟨some 120, 10, some 5000, some 4000⟩ ∧
      (lpVarMain (cellOn 5), (1 / 10 : ℚ)) ∈ tenth.lines ∧
      (bidCalc halfUp (withPrices cappedRun (pricesIn .avg)) 3 tenth).bind (fun optBids =>
        optBids.get? (lpVarMain (cellOn 5))) = some (defaultBid 10) ∧
      ∀ factor, ¬ BidAt (defaultBid 10) ⟨some 120, 10, some 5000, some 4000⟩ 10 factor := by
  refine ⟨by decide +kernel, by decide +kernel, by decide, by decide +kernel, by decide +kernel, ?_⟩
  exact fun factor => not_bidAt_default _ _ factor

end Cdo.BidCalc
