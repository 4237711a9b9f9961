import Cdo.Tables
import Cdo.KeyedTable
import Cdo.Paging

/-!
The import of new cells (`getNewCells` of `populateCDO.pm`; `getCells` and
`cellInsertTest` of `cellOps.pm`). The cells that the ad server reports for a
group are fetched page by page and inserted into `cdoCells`, one statement for a
page. The loop fetches every page and stops (`getNewCells_eq`). `cellInsertTest`
leaves out the first cell of a page, as if it were a header, and a statement
stops at the first cell that is in the table already, so that all cells get in
only if each page starts with a cell that is known and has its other known cells
at its end (`new_cells_complete_iff`).
-/
namespace Cdo.NewCells
open Cdo.Text Cdo.Tables Cdo.Paging

/-! ### Pages -/

/-- A cell as the ad server reports it. -/
structure ApiCell where
  id : Int
  mediaId : Int
  siteId : Int
  segmentId : Int
deriving DecidableEq

/-- The answer to a request for a page of the cells of a group. -/
def getCells (cells : List ApiCell) (pageIndex pageSize : Nat) : List ApiCell :=
  (cells.drop (pageIndex * pageSize)).take pageSize

abbrev CellTable := KeyedTable CdoCell.cellid

/-- The row that is inserted for a cell; `active` has its default. -/
def newRow (isNew : Int) (cell : ApiCell) : CdoCell where
  cellid := cell.id
  adid := cell.mediaId
  siteid := cell.siteId
  segmentid := cell.segmentId
  active := some 1
  new := some isNew

/-- The table after the statement, and the number of cells that is returned. -/
def cellInsertTest (cellInfo : List ApiCell) (isNew : Int) (cdoCells : CellTable) : CellTable × Nat :=
  let collected := cellInfo.foldl (afterFirst fun cell => [newRow isNew cell]) (0, [])
  ((cdoCells.insert collected.2).1, collected.1)

/-! ### The loop over the pages -/

/-- The loop after the first page; none if it takes more turns than `fuel`. -/
def morePages (cells : List ApiCell) (pageSize : Nat) : Nat → Nat → CellTable → Option CellTable
  | 0, _, _ => none
  | fuel + 1, pageIndex, cdoCells =>
    let cellInfo := getCells cells (pageIndex + 1) pageSize
    let inserted := (cellInsertTest cellInfo 1 cdoCells).1
    if cellInfo.length < pageSize then some inserted else morePages cells pageSize fuel (pageIndex + 1) inserted

/-- The group of new cells of a campaign, if the campaign is not paused. -/
inductive CellGroup where
  | paused
  | group (cells : List ApiCell)

def getNewCells (fuel : Nat) (cellGroup : CellGroup) (pageSize : Nat) (cdoCells : CellTable) : Option CellTable :=
  match cellGroup with
  | .paused => some cdoCells
  | .group cells =>
    let cellInfo := getCells cells 0 pageSize
    if 0 < cellInfo.length then
      let inserted := (cellInsertTest cellInfo 1 cdoCells).1
      if pageSize - 1 < cellInfo.length then morePages cells pageSize fuel 0 inserted else some inserted
    else some cdoCells

/-! ### What is inserted -/

theorem cellInsertTest_eq (cellInfo : List ApiCell) (isNew : Int) (cdoCells : CellTable) :
    cellInsertTest cellInfo isNew cdoCells =
      ((cdoCells.insert (cellInfo.tail.map (newRow isNew))).1, cellInfo.length) := by
  rw [cellInsertTest, afterFirst_all, ← List.map_eq_flatMap]

def insertPage (cdoCells : CellTable) (cellInfo : List ApiCell) : CellTable := (cellInsertTest cellInfo 1 cdoCells).1

/-- The pages from the first one on that is requested, up to the given number. -/
def pagesOf (cells : List ApiCell) (pageSize first number : Nat) : List (List ApiCell) :=
  (List.range' first number).map fun pageIndex => getCells cells pageIndex pageSize

section
variable {cells : List ApiCell} {pageSize : Nat}

/-- The loop is that over pages, each of which is inserted. -/
theorem morePages_eq (fuel pageIndex : Nat) (cdoCells : CellTable) :
    morePages cells pageSize fuel pageIndex cdoCells =
      pageLoop (fun cdoCells _ cellInfo => insertPage cdoCells cellInfo) cells pageSize fuel pageIndex cdoCells := by
  induction fuel generalizing pageIndex cdoCells with
  | zero => rfl
  | succ fuel ih =>
    rw [morePages, pageLoop, ih]
    rfl

/-- The loop inserts every page once, in order, and stops: as many turns as
    there are full pages are enough. -/
theorem getNewCells_eq (positive : 1 ≤ pageSize) (fuel : Nat) (enough : cells.length / pageSize ≤ fuel)
    (cdoCells : CellTable) :
    getNewCells fuel (.group cells) pageSize cdoCells =
      some ((pagesOf cells pageSize 0 (cells.length / pageSize + 1)).foldl insertPage cdoCells) := by
  rw [pagesOf, List.foldl_map]
  refine Eq.trans ?_ (handleAll_eq (fun cdoCells _ cellInfo => insertPage cdoCells cellInfo) positive fuel cdoCells enough)
  rw [← guarded_handleAll rfl positive]
  simp only [getNewCells, morePages_eq]
  rfl

theorem flatten_pagesOf (positive : 1 ≤ pageSize) :
    (pagesOf cells pageSize 0 (cells.length / pageSize + 1)).flatten = cells :=
  flatten_allPages positive

end

/-! ### Which cells get in -/

/-- The cells of a page that get in: those after the first, up to one that the
    table had before. -/
def gotIn (prior : CellTable) (page : List ApiCell) : List ApiCell :=
  page.tail.takeWhile fun cell => !decide (prior.Has cell.id)

theorem newRow_cellid (cells : List ApiCell) : (cells.map (newRow 1)).map CdoCell.cellid = cells.map ApiCell.id := by
  simp [newRow]

/-- Where the table has the cells of a page that it had before, the page's
    statement inserts those that get in. -/
theorem insertPage_rows {prior cdoCells : CellTable} {page : List ApiCell} (once : (page.map ApiCell.id).Nodup)
    (same : ∀ cell ∈ page, cdoCells.Has cell.id ↔ prior.Has cell.id) :
    (insertPage cdoCells page).rows = cdoCells.rows ++ (gotIn prior page).map (newRow 1) := by
  have tailOnce : (page.tail.map ApiCell.id).Nodup := ((List.tail_sublist page).map _).nodup once
  rw [insertPage, cellInsertTest_eq, KeyedTable.insert_rows (by rwa [newRow_cellid]), List.takeWhile_map, gotIn]
  congr 2
  refine KeyedTable.takeWhile_congr fun cell member => ?_
  rw [Function.comp_apply, show (newRow 1 cell).cellid = cell.id from rfl,
    decide_eq_decide.mpr (same cell (List.mem_of_mem_tail member))]

/-- Over pages in which no id is repeated, each page inserts the cells that get
    in with respect to the table before all pages. -/
theorem insertPages_rows {prior : CellTable} (pages : List (List ApiCell)) (cdoCells : CellTable)
    (once : (pages.flatten.map ApiCell.id).Nodup)
    (same : ∀ cell ∈ pages.flatten, cdoCells.Has cell.id ↔ prior.Has cell.id) :
    (pages.foldl insertPage cdoCells).rows = cdoCells.rows ++ (pages.flatMap (gotIn prior)).map (newRow 1) := by
  induction pages generalizing cdoCells with
  | nil => simp
  | cons page pages ih =>
    rw [List.flatten_cons, List.map_append, List.nodup_append] at once
    obtain ⟨pageOnce, restOnce, apart⟩ := once
    have pageRows := insertPage_rows pageOnce fun cell member => same cell (List.mem_append_left _ member)
    rw [List.foldl_cons, ih _ restOnce, pageRows, List.flatMap_cons, List.map_append, List.append_assoc]
    -- the cells of the later pages are none of those that were just inserted
    intro cell member
    rw [← same cell (by simp [member]), KeyedTable.has_iff, KeyedTable.has_iff, pageRows]
    constructor
    · rintro ⟨row, inside, isRow⟩
      rcases List.mem_append.mp inside with old | new
      · exact ⟨row, old, isRow⟩
      · obtain ⟨other, isIn, rfl⟩ := List.mem_map.mp new
        have inPage : other ∈ page := List.mem_of_mem_tail ((List.takeWhile_prefix _).subset isIn)
        exact absurd isRow (apart _ (List.mem_map_of_mem inPage) _ (List.mem_map_of_mem member))
    · rintro ⟨row, inside, isRow⟩
      exact ⟨row, List.mem_append_left _ inside, isRow⟩

theorem prior_kept (pages : List (List ApiCell)) (cdoCells : CellTable) {row : CdoCell} (member : row ∈ cdoCells.rows) :
    row ∈ (pages.foldl insertPage cdoCells).rows := by
  induction pages generalizing cdoCells with
  | nil => exact member
  | cons page pages ih =>
    refine ih (insertPage cdoCells page) ?_
    rw [insertPage, cellInsertTest_eq]
    exact KeyedTable.mem_insert_of_mem member

/-! ### Completeness -/

/-- The table has one row for a reported cell, and if it had none before, that
    row is the cell's. -/
def Imported (prior cdoCells : CellTable) (cell : ApiCell) : Prop :=
  (∃! row, row ∈ cdoCells.rows ∧ row.cellid = cell.id) ∧ (¬ prior.Has cell.id → newRow 1 cell ∈ cdoCells.rows)

/-- A page whose first cell is known, and whose other cells are unknown up to a
    point and known from there on. -/
def PageFits (prior : CellTable) (page : List ApiCell) : Prop :=
  (∀ first ∈ page.head?, prior.Has first.id) ∧ ∃ new known, page.tail = new ++ known ∧
    (∀ cell ∈ new, ¬ prior.Has cell.id) ∧ ∀ cell ∈ known, prior.Has cell.id

theorem pageFits_iff {prior : CellTable} {page : List ApiCell} (once : page.Nodup) :
    PageFits prior page ↔ ∀ cell ∈ page, ¬ prior.Has cell.id → cell ∈ gotIn prior page := by
  cases page with
  | nil => simp [PageFits]
  | cons first rest =>
    obtain ⟨firstOnce, restOnce⟩ := List.nodup_cons.mp once
    simp only [PageFits, gotIn, List.head?_cons, Option.mem_some_iff, forall_eq', List.tail_cons, List.forall_mem_cons]
    constructor
    · rintro ⟨firstKnown, new, known, rfl, areNew, areKnown⟩
      refine ⟨fun unknown => absurd firstKnown unknown, fun cell member unknown => ?_⟩
      have isNew : cell ∈ new := (List.mem_append.mp member).resolve_right fun later => unknown (areKnown cell later)
      rw [List.takeWhile_append_of_pos fun other isOther => by simpa using areNew other isOther]
      exact List.mem_append_left _ isNew
    · rintro ⟨firstIn, restIn⟩
      have inRest : ∀ {cell}, cell ∈ rest.takeWhile (fun cell => !decide (prior.Has cell.id)) → cell ∈ rest :=
        fun member => (List.takeWhile_prefix _).subset member
      refine ⟨?_, rest.takeWhile fun cell => !decide (prior.Has cell.id),
        rest.dropWhile fun cell => !decide (prior.Has cell.id), List.takeWhile_append_dropWhile.symm, ?_, ?_⟩
      · by_contra unknown
        exact firstOnce (inRest (firstIn unknown))
      · intro cell member
        simpa using List.mem_takeWhile_imp member
      · intro cell member
        by_contra unknown
        have split := restOnce
        rw [← List.takeWhile_append_dropWhile (p := fun cell : ApiCell => !decide (prior.Has cell.id)) (l := rest),
          List.nodup_append] at split
        have inBoth := restIn cell ((List.dropWhile_suffix _).subset member) unknown
        exact split.2.2 cell inBoth cell member rfl

theorem newRow_injective {cell other : ApiCell} (same : newRow 1 cell = newRow 1 other) : cell = other := by
  cases cell
  cases other
  simpa [newRow] using same

/-- With the rows of the pages that got in added to the table, a cell is
    imported unless it was unknown and did not get in. -/
theorem imported_iff {prior cdoCells : CellTable} {inserted : List ApiCell} {cell : ApiCell}
    (rows : cdoCells.rows = prior.rows ++ inserted.map (newRow 1)) :
    Imported prior cdoCells cell ↔ (¬ prior.Has cell.id → cell ∈ inserted) := by
  constructor
  · rintro ⟨-, isRow⟩ unknown
    have member := isRow unknown
    rw [rows] at member
    rcases List.mem_append.mp member with old | new
    · exact absurd (KeyedTable.has_iff.mpr ⟨_, old, rfl⟩) unknown
    · obtain ⟨other, isIn, same⟩ := List.mem_map.mp new
      exact newRow_injective same ▸ isIn
  · intro getsIn
    have isRow : ¬ prior.Has cell.id → newRow 1 cell ∈ cdoCells.rows := by
      intro unknown
      rw [rows]
      exact List.mem_append_right _ (List.mem_map_of_mem (getsIn unknown))
    have some : ∃ row ∈ cdoCells.rows, row.cellid = cell.id := by
      by_cases known : prior.Has cell.id
      · obtain ⟨row, member, same⟩ := KeyedTable.has_iff.mp known
        exact ⟨row, by rw [rows]; exact List.mem_append_left _ member, same⟩
      · exact ⟨newRow 1 cell, isRow known, rfl⟩
    obtain ⟨row, member, same⟩ := some
    refine ⟨⟨row, ⟨member, same⟩, ?_⟩, isRow⟩
    rintro other ⟨otherMember, otherSame⟩
    exact cdoCells.eq_of_key otherMember member (otherSame.trans same.symm)

/-- All cells of pages without repetitions that are unknown get in exactly if
    every page fits. -/
theorem pages_fit_iff {prior : CellTable} {pages : List (List ApiCell)} (once : pages.flatten.Nodup) :
    (∀ cell ∈ pages.flatten, ¬ prior.Has cell.id → cell ∈ pages.flatMap (gotIn prior)) ↔
      ∀ page ∈ pages, PageFits prior page := by
  obtain ⟨eachOnce, apart⟩ := List.nodup_flatten.mp once
  have gotIn_subset : ∀ {page : List ApiCell} {cell : ApiCell}, cell ∈ gotIn prior page → cell ∈ page :=
    fun isIn => List.mem_of_mem_tail ((List.takeWhile_prefix _).subset isIn)
  constructor
  · intro allIn page member
    refine (pageFits_iff (eachOnce page member)).mpr fun cell inPage unknown => ?_
    obtain ⟨page', member', isIn⟩ := List.mem_flatMap.mp (allIn cell (List.mem_flatten.mpr ⟨page, member, inPage⟩) unknown)
    by_cases same : page = page'
    · rwa [same]
    · have symmetric : Std.Symm (List.Disjoint (α := ApiCell)) := ⟨fun _ _ => List.Disjoint.symm⟩
      have disjoint := apart.forall member member' same
      exact absurd (gotIn_subset isIn) (disjoint inPage)
  · intro fit cell inPages unknown
    obtain ⟨page, member, inPage⟩ := List.mem_flatten.mp inPages
    exact List.mem_flatMap.mpr ⟨page, member, (pageFits_iff (eachOnce page member)).mp (fit page member) cell inPage unknown⟩

/-- The import of the new cells stops, keeps every row that was there, and, for
    cells with ids of their own, imports all of them exactly if every page fits. -/
theorem new_cells_complete_iff (cells : List ApiCell) (pageSize : Nat) (positive : 1 ≤ pageSize) (prior : CellTable) :
    ∃ cdoCells, (∀ fuel, cells.length / pageSize ≤ fuel →
        getNewCells fuel (.group cells) pageSize prior = some cdoCells) ∧
      (∀ row ∈ prior.rows, row ∈ cdoCells.rows) ∧
      ((cells.map ApiCell.id).Nodup →
        ((∀ cell ∈ cells, Imported prior cdoCells cell) ↔
          ∀ pageIndex ≤ cells.length / pageSize, PageFits prior (getCells cells pageIndex pageSize))) := by
  refine ⟨(pagesOf cells pageSize 0 (cells.length / pageSize + 1)).foldl insertPage prior,
    fun fuel enough => getNewCells_eq positive fuel enough prior, fun row => prior_kept _ prior, ?_⟩
  intro once
  have all : (pagesOf cells pageSize 0 (cells.length / pageSize + 1)).flatten = cells := flatten_pagesOf positive
  have pageOnce : (pagesOf cells pageSize 0 (cells.length / pageSize + 1)).flatten.Nodup := by
    rw [all]
    exact once.of_map _
  have rows := insertPages_rows (pagesOf cells pageSize 0 (cells.length / pageSize + 1)) prior
    (by rwa [all]) fun cell _ => Iff.rfl
  have fit := @pages_fit_iff prior _ pageOnce
  rw [all] at fit
  simp only [imported_iff rows, fit]
  simp [pagesOf]

/-! ### A page of two cells -/

/-- A table that has cell 1. -/
def knownCell : CellTable := ⟨[⟨1, 11, 20, 5, some 1, some 0⟩], List.nodup_singleton _⟩

def reported : List ApiCell := [⟨1, 11, 20, 5⟩, ⟨2, 12, 20, 5⟩]

theorem new_cells_complete_known_first :
    ∃ cdoCells, getNewCells 5 (.group reported) 2 knownCell = some cdoCells ∧
      ∀ cell ∈ reported, Imported knownCell cdoCells cell := by
  obtain ⟨cdoCells, stops, -, complete⟩ := new_cells_complete_iff reported 2 (by decide) knownCell
  refine ⟨cdoCells, stops 5 (by decide), (complete (by decide)).mpr fun pageIndex bound => ?_⟩
  have pages : pageIndex = 0 ∨ pageIndex = 1 := by
    have : pageIndex ≤ 1 := bound
    omega
  rcases pages with rfl | rfl
  · exact ⟨by decide, [⟨2, 12, 20, 5⟩], [], by decide, by decide, by decide⟩
  · exact ⟨by decide, [], [], by decide, by decide, by decide⟩

/-- Of two new cells the first one is left out. -/
theorem first_cell_left_out :
    (reported.map ApiCell.id).Nodup ∧
      (getNewCells 5 (.group reported) 2 KeyedTable.empty).map KeyedTable.rows =
        some [⟨2, 12, 20, 5, some 1, some 1⟩] ∧
      ∀ cdoCells, getNewCells 5 (.group reported) 2 KeyedTable.empty = some cdoCells →
        ¬ Imported KeyedTable.empty cdoCells ⟨1, 11, 20, 5⟩ := by
  have computed : (getNewCells 5 (.group reported) 2 KeyedTable.empty).map KeyedTable.rows =
      some [⟨2, 12, 20, 5, some 1, some 1⟩] := by decide
  refine ⟨by decide, computed, fun cdoCells run imported => ?_⟩
  obtain ⟨⟨row, ⟨member, same⟩, -⟩, -⟩ := imported
  rw [run, Option.map_some, Option.some.injEq] at computed
  rw [computed, List.mem_singleton] at member
  rw [member] at same
  exact absurd same (by decide)

end Cdo.NewCells
