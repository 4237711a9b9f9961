import Cdo.BidCalc

/-!
The caps of single cells, from `CellAllocation` to the bounds of the program
(`Params`, `MaxAlpha` and `LP_Obj` of `CDO.pm`). `Params` keys a cap by the
columns of its row, `LP_Obj` looks it up by the name of the cell's variable; the
two are the same text only if the segment id is not negative (`capBinds_iff`). A
cell with a negative segment id finds no price either, so that it never enters
the objective (`segmentid_nonneg_of_enters`), and every cell that enters is
bound by its own cap (`cell_cap_binds`).
-/
namespace Cdo.CellCaps
open Cdo.Text Cdo.Query Cdo.Tables Cdo.Params Cdo.Signals Cdo.LinearProgram Cdo.Objective Cdo.BidCalc

/-- The data of a run with the caps that `Params` loads. -/
def withCaps (d : RunData) (net : Network) (caps : Caps) : RunData :=
  { d with cellMaxAlpha := cellMaxAlpha net caps, campaignMaxAlpha := campaignMaxAlpha net caps }

/-- An allocation binds a cell: the cell is priced at it, a row limits the
    variable of the cell to it, and no row of a campaign holds the variable. -/
structure CapBinds (d : RunData) (h : LpHashes) (c : Cell) (allocation : Option Int) : Prop where
  priced : maxAlpha (lpVarMain c) c.san d.cellMaxAlpha d.campaignMaxAlpha = capText allocation
  limited : cellRow (lpVarMain c, allocation) ∈ allocationRows d h
  ungrouped : ∀ san site rel, (Limited.placement san site, rel) ∈ allocationRows d h → rel.Mentions (lpVarMain c) = false

section
variable {net : Network} {qhat : Cell → Option ℚ} {caps : Caps} {d : RunData} {hour : Nat} {h : LpHashes} {c : Cell}
  {row : CellAllocation}

theorem find?_cellAllocation (member : row ∈ caps.cellAllocation) (ofCell : ofCellCap c row = true) :
    caps.cellAllocation.find? (ofCellCap c) = some row := by
  cases found : caps.cellAllocation.find? (ofCellCap c) with
  | none => exact absurd ofCell (List.find?_eq_none.mp found row member)
  | some other =>
    have otherCell := List.find?_some found
    simp only [ofCellCap, Bool.and_eq_true, beq_iff_eq] at ofCell otherCell
    have same : other = row := by
      refine List.inj_on_of_nodup_map caps.cell_key (List.mem_of_find?_eq_some found) member ?_
      simp only [ofCell, otherCell]
    rw [same]

/-- No cap is keyed by the variable of a cell with a negative segment id. -/
theorem cellMaxAlpha_negative (negative : c.segmentid < 0) : (cellMaxAlpha net caps).get? (lpVarMain c) = none := by
  refine SortedMap.get?_ofRows_none ?_
  intro cap _ same
  unfold cellAllocationKey lpVarMain at same
  obtain ⟨-, fields⟩ := joined_tail_injective (by simp) (by simp [cap.1.1.size.plain]) (by simp [c.size.plain]) same
  simp only [List.cons.injEq, and_true] at fields
  exact segText_negative negative _ fields.2.2.1.symm

theorem capBinds_of_capped {cells : SortedMap Str Cell} {allocation : Option Int} (run : lpObj d hour cells = some h)
    (capped : d.cellMaxAlpha.get? (lpVarMain c) = some allocation) : CapBinds d h c allocation := by
  have only := allocationRow_capped run capped
  refine ⟨by simp only [maxAlpha, capped], ?_, ?_⟩
  · refine List.mem_of_mem_filter (p := fun row => row.2.Mentions (lpVarMain c)) ?_
    rw [only]
    exact List.mem_singleton_self _
  · intro san site rel member
    by_contra mentions
    have kept : (Limited.placement san site, rel) ∈ (allocationRows d h).filter fun row => row.2.Mentions (lpVarMain c) :=
      List.mem_filter.mpr ⟨member, by simpa using mentions⟩
    rw [only, List.mem_singleton] at kept
    exact absurd (congrArg Prod.fst kept) (by simp [cellRow])

/-- Whatever the prices are, the cap of a cell binds it exactly if the segment
    id of the cell is not negative. -/
theorem capBinds_iff {key : Str} (run : lpObj (withCaps d net caps) hour (getCellData net qhat) = some h)
    (found : (getCellData net qhat).get? key = some c) (member : row ∈ caps.cellAllocation)
    (ofCell : ofCellCap c row = true) : CapBinds (withCaps d net caps) h c row.allocation ↔ 0 ≤ c.segmentid := by
  constructor
  · intro binds
    by_contra negative
    rcases List.mem_append.mp binds.limited with placement | cap
    · obtain ⟨group, -, printed⟩ := List.mem_filterMap.mp placement
      simp only [placementRow, Option.ite_none_right_eq_some, Option.some.injEq] at printed
      exact absurd (congrArg Prod.fst printed.2) (by simp [cellRow])
    · obtain ⟨⟨name, allocation⟩, capMember, same⟩ := List.mem_map.mp cap
      have name_eq : name = lpVarMain c := by simpa [cellRow] using congrArg Prod.fst same
      have keyed := SortedMap.mem_entries.mp capMember
      rw [name_eq] at keyed
      exact absurd (keyed.symm.trans (cellMaxAlpha_negative (not_le.mp negative))) (by simp)
  · intro nonneg
    refine capBinds_of_capped run ?_
    refine (cellMaxAlpha_get? found nonneg).trans ?_
    rw [find?_cellAllocation member ofCell, Option.map_some]

/-- A cell enters only with a price, and a negative segment id has none. -/
theorem segmentid_nonneg_of_enters {pv : PriceVolume} {cells : SortedMap Str Cell} {k : Coefficients}
    (enters : Enters (withPrices d pv) hour cells c k) : 0 ≤ c.segmentid := by
  by_contra negative
  obtain ⟨spends, -⟩ := coefficients_eq_some.mp enters.2
  obtain ⟨test, avg⟩ := price_unread pv (underscore_maxAlpha (lpVarMain c) c.san d.cellMaxAlpha d.campaignMaxAlpha)
    (.inl (not_le.mp negative))
  have free : costIn (withPrices d pv) c = ⟨0, 0⟩ := by
    simp only [costIn, cellCost, withPrices, test, avg]
  rw [free] at spends
  exact lt_irrefl _ spends

end

/-- Every cell that enters the objective and has a row in `CellAllocation` is
    priced at the allocation of that row, its variable is limited to it by a row
    of its own, and is in no row of a campaign. -/
theorem cell_cap_binds (net : Network) (qhat : Cell → Option ℚ) (caps : Caps) (pv : PriceVolume) (d : RunData)
    (hour : Nat) (h : LpHashes) (c : Cell) (k : Coefficients) (row : CellAllocation)
    (run : lpObj (withPrices (withCaps d net caps) pv) hour (getCellData net qhat) = some h)
    (enters : Enters (withPrices (withCaps d net caps) pv) hour (getCellData net qhat) c k)
    (member : row ∈ caps.cellAllocation) (ofCell : ofCellCap c row = true) :
    (∃ a, (a, lpVarMain c) ∈ objective h) ∧ CapBinds (withPrices (withCaps d net caps) pv) h c row.allocation := by
  obtain ⟨key, found⟩ := enters.1
  refine ⟨objective_of_enters run enters, ?_⟩
  exact (capBinds_iff (d := withPrices d pv) run found member ofCell).mpr (segmentid_nonneg_of_enters enters)

/-- A cap of 0.20 for the cell of `onSegment 5` itself. -/
def ownCap : Caps := ⟨[⟨"auo".toList, 11, 20, 5, size300x250, some 20⟩], [], List.nodup_singleton _, List.nodup_nil⟩

theorem cell_cap_binds_own_cap :
    ∃ h, lpObj (withPrices (withCaps cappedRun (onSegment 5) ownCap) (pricesIn .test)) 3
        (getCellData (onSegment 5) fun _ => some (1 / 100)) = some h ∧
      cellRow ("auo_11_20_5_300x250".toList, some 20) ∈
        allocationRows (withPrices (withCaps cappedRun (onSegment 5) ownCap) (pricesIn .test)) h := by
  have runs : (lpObj (withPrices (withCaps cappedRun (onSegment 5) ownCap) (pricesIn .test)) 3
      (getCellData (onSegment 5) fun _ => some (1 / 100))).isSome = true := by decide +kernel
  obtain ⟨h, run⟩ := Option.isSome_iff_exists.mp runs
  obtain ⟨-, binds⟩ := cell_cap_binds (onSegment 5) (fun _ => some (1 / 100)) ownCap (pricesIn .test) cappedRun 3 h
    { cellOn 5 with q := some (1 / 100) } ⟨4, 3 / 5⟩ _ run ⟨⟨"7".toList, by decide +kernel⟩, by decide +kernel⟩
    List.mem_cons_self (by decide)
  exact ⟨h, run, binds.limited⟩

end Cdo.CellCaps
