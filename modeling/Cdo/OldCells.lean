import Cdo.NewCells

/-!
The marking of removed cells (`markOldCells` of `populateCDO.pm`;
`getRemovedCells` and `cellDeleteTest` of `cellOps.pm`). The cells that the ad
server reports as removed are fetched page by page, and the rows of `cdoCells`
with their ids become inactive. All pages are requested, each once, and a row is
inactive afterwards exactly if it was or its cell was reported
(`mark_old_cells_exact`).
-/
namespace Cdo.OldCells
open Cdo.Tables Cdo.NewCells Cdo.Paging

/-! ### Pages and statements -/

/-- A page of the removed cells, with the index that it was asked for. -/
def getRemovedCells (removed : List ApiCell) (pageIndex pageSize : Nat) : List ApiCell × Nat :=
  ((removed.drop (pageIndex * pageSize)).take pageSize, pageIndex)

/-- The statement for one cell, which may be in no row or in several. -/
def markCell (cdoCells : List CdoCell) (id : Int) : List CdoCell :=
  cdoCells.map fun row => if row.cellid = id then { row with active := some 0 } else row

/-- A turn of the loop over the cells; the rows that are found are counted. -/
def execute (state : List CdoCell × Nat) (rc : ApiCell) : List CdoCell × Nat :=
  (markCell state.1 rc.id, state.2 + (state.1.filter fun row => row.cellid = rc.id).length)

/-- The table after the statements, with the number of cells and that of the rows
    that were found for them. The last statement is executed once more. -/
def cellDeleteTest (removedCellInfo : List ApiCell) (cdoCells : List CdoCell) : List CdoCell × Nat × Nat :=
  let executed := removedCellInfo.foldl execute (cdoCells, 0)
  let again := match removedCellInfo.getLast? with
    | none => executed.1
    | some rc => markCell executed.1 rc.id
  (again, removedCellInfo.length, executed.2)

/-! ### The loop over the pages -/

/-- The pages that were requested and the table. -/
structure Marked where
  requested : List Nat
  cdoCells : List CdoCell

/-- A page was requested and its cells are marked. -/
def Marked.page (marked : Marked) (pageIndex : Nat) (cellInfo : List ApiCell) : Marked :=
  ⟨marked.requested ++ [pageIndex], (cellDeleteTest cellInfo marked.cdoCells).1⟩

/-- The loop after the first page; none if it takes more turns than `fuel`. -/
def moreRemoved (removed : List ApiCell) (pageSize : Nat) : Nat → Nat → Marked → Option Marked
  | 0, _, _ => none
  | fuel + 1, pageIndex, marked =>
    let pageIndex := pageIndex + 1
    -- the index that comes back is bound to a variable of the turn, and the outer one goes on
    let (cellInfo, _) := getRemovedCells removed pageIndex pageSize
    let marked := marked.page pageIndex cellInfo
    if cellInfo.length < pageSize then some marked else moreRemoved removed pageSize fuel pageIndex marked

def markOldCells (fuel : Nat) (cellGroup : CellGroup) (pageSize : Nat) (cdoCells : List CdoCell) : Option Marked :=
  match cellGroup with
  | .paused => some ⟨[], cdoCells⟩
  | .group removed =>
    let (cellInfo, pageIndex) := getRemovedCells removed 0 pageSize
    if 0 < cellInfo.length then
      let marked : Marked := ⟨[0], (cellDeleteTest cellInfo cdoCells).1⟩
      if pageSize - 1 < cellInfo.length then moreRemoved removed pageSize fuel pageIndex marked else some marked
    else some ⟨[0], cdoCells⟩

/-! ### What is marked -/

/-- A row with its cell marked if the id is among some. -/
def mark (ids : List Int) (row : CdoCell) : CdoCell := if row.cellid ∈ ids then { row with active := some 0 } else row

theorem mark_mark (ids others : List Int) (row : CdoCell) : mark others (mark ids row) = mark (ids ++ others) row := by
  by_cases inIds : row.cellid ∈ ids
  · by_cases inOthers : row.cellid ∈ others
    · simp [mark, inIds, inOthers]
    · simp [mark, inIds, inOthers]
  · simp [mark, inIds]

theorem map_mark (ids others : List Int) (cdoCells : List CdoCell) :
    (cdoCells.map (mark ids)).map (mark others) = cdoCells.map (mark (ids ++ others)) := by
  rw [List.map_map]
  exact List.map_congr_left fun row _ => mark_mark ids others row

theorem map_mark_nil (cdoCells : List CdoCell) : cdoCells.map (mark []) = cdoCells :=
  (List.map_congr_left fun _ _ => if_neg List.not_mem_nil).trans (List.map_id cdoCells)

theorem mark_congr {ids others : List Int} (same : ∀ id, id ∈ ids ↔ id ∈ others) : mark ids = mark others := by
  funext row
  simp only [mark, same]

theorem markCell_eq (cdoCells : List CdoCell) (id : Int) : markCell cdoCells id = cdoCells.map (mark [id]) := by
  simp [markCell, mark]

theorem execute_all (removedCellInfo : List ApiCell) (state : List CdoCell × Nat) :
    (removedCellInfo.foldl execute state).1 = state.1.map (mark (removedCellInfo.map ApiCell.id)) := by
  induction removedCellInfo generalizing state with
  | nil => exact (map_mark_nil state.1).symm
  | cons rc rest ih =>
    rw [List.foldl_cons, ih, execute, markCell_eq, map_mark]
    rfl

/-- The cells of a page are marked; executing the last statement again changes
    nothing. -/
theorem cellDeleteTest_eq (removedCellInfo : List ApiCell) (cdoCells : List CdoCell) :
    (cellDeleteTest removedCellInfo cdoCells).1 = cdoCells.map (mark (removedCellInfo.map ApiCell.id)) := by
  cases last : removedCellInfo.getLast? with
  | none =>
    simp only [cellDeleteTest, last]
    exact execute_all _ _
  | some rc =>
    simp only [cellDeleteTest, last]
    rw [markCell_eq, execute_all, map_mark]
    have marked : rc.id ∈ removedCellInfo.map ApiCell.id := List.mem_map_of_mem (List.mem_of_getLast? last)
    refine congrArg (fun change => cdoCells.map change) (mark_congr fun id => ?_)
    rw [List.mem_append, List.mem_singleton, or_iff_left_iff_imp]
    rintro rfl
    exact marked

section
variable {removed : List ApiCell} {pageSize : Nat}

theorem moreRemoved_eq (fuel pageIndex : Nat) (marked : Marked) :
    moreRemoved removed pageSize fuel pageIndex marked = pageLoop Marked.page removed pageSize fuel pageIndex marked := by
  induction fuel generalizing pageIndex marked with
  | zero => rfl
  | succ fuel ih =>
    rw [moreRemoved, pageLoop, ← ih]
    rfl

/-- Handling the pages requests them and marks their cells. -/
theorem handlePages_marked (indices : List Nat) (marked : Marked) :
    handlePages Marked.page removed pageSize indices marked =
      ⟨marked.requested ++ indices,
        marked.cdoCells.map (mark (((indices.map (page removed pageSize)).flatten).map ApiCell.id))⟩ := by
  induction indices generalizing marked with
  | nil =>
    rw [List.append_nil, List.map_nil, List.flatten_nil, List.map_nil, map_mark_nil]
    rfl
  | cons pageIndex indices ih =>
    have handled : marked.page pageIndex (page removed pageSize pageIndex) =
        ⟨marked.requested ++ [pageIndex],
          marked.cdoCells.map (mark ((page removed pageSize pageIndex).map ApiCell.id))⟩ := by
      rw [Marked.page, cellDeleteTest_eq]
    rw [handlePages, List.foldl_cons, ← handlePages, handled, ih, map_mark, ← List.map_append, List.append_assoc]
    rfl

theorem markOldCells_eq (positive : 1 ≤ pageSize) (fuel : Nat) (enough : removed.length / pageSize ≤ fuel)
    (cdoCells : List CdoCell) :
    markOldCells fuel (.group removed) pageSize cdoCells =
      some ⟨List.range (removed.length / pageSize + 1), cdoCells.map (mark (removed.map ApiCell.id))⟩ := by
  have handled := handleAll_eq Marked.page positive fuel ⟨[], cdoCells⟩ enough
  rw [handlePages_marked, flatten_allPages positive, List.nil_append, ← List.range_eq_range'] at handled
  rw [← handled, ← guarded_handleAll rfl positive]
  simp only [markOldCells, moreRemoved_eq]
  rfl

end

/-! ### Exactness -/

/-- What becomes of a row if some ids are reported. -/
structure MarkedRow (ids : List Int) (before after : CdoCell) : Prop where
  same : { after with active := before.active } = before
  inactive : after.active = some 0 ↔ before.active = some 0 ∨ before.cellid ∈ ids
  kept : before.cellid ∉ ids → after = before

theorem markedRow (ids : List Int) (row : CdoCell) : MarkedRow ids row (mark ids row) := by
  by_cases reported : row.cellid ∈ ids
  · rw [mark, if_pos reported]
    exact ⟨rfl, by simp [reported], fun unreported => absurd reported unreported⟩
  · rw [mark, if_neg reported]
    exact ⟨rfl, by simp [reported], fun _ => rfl⟩

/-- All pages up to the first one that is not full are requested, the rows of the
    reported cells become inactive, and marking them again changes nothing. -/
theorem mark_old_cells_exact (removed : List ApiCell) (pageSize : Nat) (positive : 1 ≤ pageSize)
    (cdoCells : List CdoCell) :
    ∃ after, (∀ fuel, removed.length / pageSize ≤ fuel → markOldCells fuel (.group removed) pageSize cdoCells =
        some ⟨List.range (removed.length / pageSize + 1), after⟩) ∧
      List.Forall₂ (MarkedRow (removed.map ApiCell.id)) cdoCells after ∧
      ∀ fuel, removed.length / pageSize ≤ fuel → markOldCells fuel (.group removed) pageSize after =
        some ⟨List.range (removed.length / pageSize + 1), after⟩ := by
  refine ⟨cdoCells.map (mark (removed.map ApiCell.id)), fun fuel enough => markOldCells_eq positive fuel enough cdoCells,
    ?_, fun fuel enough => ?_⟩
  · rw [List.forall₂_map_right_iff, List.forall₂_same]
    exact fun row _ => markedRow _ row
  · rw [markOldCells_eq positive fuel enough, map_mark, mark_congr]
    simp

/-- Two removed cells fill a page, and an empty page is requested after it. -/
theorem mark_old_cells_full_page :
    ∃ after, markOldCells 1 (.group reported) 2 knownCell.rows = some ⟨[0, 1], after⟩ ∧
      List.Forall₂ (MarkedRow [1, 2]) knownCell.rows after := by
  obtain ⟨after, run, rows, -⟩ := mark_old_cells_exact reported 2 (by decide) knownCell.rows
  exact ⟨after, run 1 (by decide), rows⟩

end Cdo.OldCells
