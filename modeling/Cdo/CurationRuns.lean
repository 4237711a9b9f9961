import Cdo.Curation

/-!
Runs of the curation of the cells: any order of operations, with whatever the ad
server answers. A cell that is optimised was reported and not removed since
(`optimised_cell_reported`), a removed cell comes back only after a replacement of
the cells and a later report (`removed_cell_stays_out`), and the queue of new
cells holds what was imported as new since the last replacement
(`queued_as_new_iff`). Whatever fails, the requests of a run distribute cells that
were there or were reported (`sent_reported`).
-/
namespace Cdo.CurationRuns
open Cdo.Text Cdo.Tables Cdo.NewCells Cdo.OldCells Cdo.NetworkSwap Cdo.CellQueues Cdo.Transitions Cdo.LifeCycle Cdo.Curation

/-! ### A cell that is removed and reported again -/

def keptCell : CdoCell := ⟨8, 12, 20, 5, some 1, some 0⟩

def removedCell : CdoCell := ⟨7, 11, 20, 5, some 1, some 0⟩

/-- The answers about a campaign with cells 8 and 7 in its group of new cells and
    cell 7 in that of removed ones. -/
def answers : Server where
  cellGroups := .groups [⟨"31".toList, "NEW".toList⟩, ⟨"32".toList, "REMOVED".toList⟩]
  completeCellList := fun id => if id = "31".toList then [⟨8, 12, 20, 5⟩, ⟨7, 11, 20, 5⟩] else [⟨7, 11, 20, 5⟩]

def withCells (rows : List CdoCell) (once : (rows.map CdoCell.cellid).Nodup) : CellNetwork :=
  ⟨⟨some ⟨rows, once⟩, none⟩, [], [], []⟩

def bothCells : CellNetwork := withCells [removedCell, keptCell] (by decide)

def markedCells : CellNetwork := withCells [{ removedCell with active := some 0 }, keptCell] (by decide)

def replacedCells : CellNetwork := withCells [keptCell] (by decide)

def importedCells : CellNetwork := withCells [keptCell, { removedCell with new := some 1 }] (by decide)

def optimiser : Network where
  campaign := [⟨"auo".toList, 1, some 100, some 1, some 1, some 1⟩]
  media := [⟨11, size300x250, "auo".toList, some 1, 1⟩, ⟨12, size300x250, "auo".toList, some 1, 1⟩]
  cdoCells := [keptCell, { removedCell with new := some 1 }]
  campaign_key := by decide
  media_key := by decide
  cdoCells_key := by decide

def optimisedCell : Cell := ⟨7, 11, 20, 5, size300x250, "auo".toList, 1, none⟩

theorem both_marked : curates bothCells (.markOldCells answers) markedCells := ⟨_, ⟨0, [0], rfl⟩, rfl⟩

theorem marked_replaced_imported :
    Run curates markedCells [.updateNetwork noFaults, .getNewCells answers] importedCells := by
  refine .cons (t := replacedCells) rfl (.cons ⟨_, ⟨0, rfl⟩, rfl⟩ (.nil _))

/-! ### Runs -/

/-- The steps of runs in which every replacement that is begun goes through. -/
def wholeCurates : System CellNetwork Operation := fun net operation after =>
  curates net operation after ∧ Settled net ∧ Settled after ∧ operation.Whole

theorem whole_lives (id : Int) : Lives wholeCurates (fun net => life net id) (meaning id) :=
  fun _ _ _ step => (curates_life step.2.1 step.2.2.2 step.1).2 id

section
variable {net after : CellNetwork} {operations : List Operation}

theorem settled_run (settled : Settled net) (whole : ∀ operation ∈ operations, operation.Whole)
    (run : Run curates net operations after) : Settled after :=
  run.invariant (P := Settled) (fun member before step => (curates_life before (whole _ member) step).1) settled

theorem wholeRun (settled : Settled net) (whole : ∀ operation ∈ operations, operation.Whole)
    (run : Run curates net operations after) : Run wholeCurates net operations after := by
  refine run.restrict (P := Settled) (fun member before step => ?_) settled
  have next := (curates_life before (whole _ member) step).1
  exact ⟨next, step, before, next, whole _ member⟩

/-- The cells that the optimiser reads are the live ones. -/
theorem life_of_mem_cellRows {optimiser : Network}
    (reads : after.tables.cdoCells.map KeyedTable.rows = some optimiser.cdoCells) {cell : Cell} (member : cell ∈ cellRows optimiser) :
    ∃ new, life after cell.cellid = .live ⟨cell.adid, cell.siteid, cell.segmentid⟩ new := by
  obtain ⟨cells, isCells, rows⟩ := Option.map_eq_some_iff.mp reads
  obtain ⟨row, rowMember, m, -, c, -, -, active, -, -, -, rfl⟩ := mem_cellRows.mp member
  rw [← rows] at rowMember
  have found : cells.get? row.cellid = some row := KeyedTable.get?_eq_some.mpr ⟨rowMember, rfl⟩
  refine ⟨row.new == some 1, ?_⟩
  rw [life, isCells, Option.getD_some, tableLife, cellOf, found, Option.map_some, Option.getD_some, rowLife, if_pos active]
  rfl

theorem isNew_iff_row {cells : CellTable} {id : Int} :
    (tableLife cells id).IsNew ↔ ∃ row ∈ cells.rows, row.cellid = id ∧ row.new = some 1 := by
  rw [tableLife]
  cases found : cells.get? id with
  | none =>
    refine iff_of_false (fun isNew => isNew) ?_
    rintro ⟨row, member, same, -⟩
    exact KeyedTable.get?_eq_none.mp found (KeyedTable.has_iff.mpr ⟨row, member, same⟩)
  | some row =>
    obtain ⟨member, same⟩ := KeyedTable.get?_eq_some.mp found
    have newRow : (rowLife row).IsNew ↔ row.new = some 1 := by
      rw [rowLife]
      split <;> simp [Life.IsNew]
    rw [Option.map_some, Option.getD_some, newRow]
    constructor
    · exact fun isNew => ⟨row, member, same, isNew⟩
    · rintro ⟨other, otherMember, otherSame, isNew⟩
      rwa [cells.eq_of_key member otherMember (same.trans otherSame.symm)]

end

/-! ### Requests -/

/-- The ids in the tables of the cells, also in one that was left behind. -/
def cellIds (net : CellNetwork) : List Int :=
  ((net.tables.cdoCells.map KeyedTable.rows).getD [] ++ (net.tables.cdoCellsTemp.map KeyedTable.rows).getD []).map
    CdoCell.cellid

/-- A request to distribute some of the cells with these ids. -/
def Distributes (known : Int → Prop) (request : Request) : Prop :=
  ∃ ids, request = .distributeCellList ids ∧ ids.length ≤ 200 ∧ ∀ text ∈ ids, ∃ id, known id ∧ text = intText id

theorem distributes_groupNewCells {known : Int → Prop} (api : Api) {db : CellDb}
    (knows : ∀ row ∈ db.cdoCells.rows, known row.cellid) :
    ∀ request ∈ (CellQueues.groupNewCells api db).2, Distributes known request := by
  have named : Action.named "distributeCellList".toList = some .distributeCellList := by decide
  intro request member
  simp only [CellQueues.groupNewCells, distributeNewCells, apiAction, named, newCellQueue, distributeCellList] at member
  obtain ⟨ids, isBatch, rfl⟩ := List.mem_map.mp member
  refine ⟨ids, rfl, Batches.length_batches_le (by decide) _ ids isBatch, fun text isText => ?_⟩
  have inKeys := List.mem_flatten_of_mem isBatch isText
  rw [Batches.flatten_batches, mem_fetchIds] at inKeys
  obtain ⟨id, isId, rfl⟩ := inKeys
  obtain ⟨row, isRow, rfl⟩ := List.mem_map.mp isId
  exact ⟨row.cellid, knows row isRow, rfl⟩

section
variable {faults : Faults} {db : Database} {known : Int → Prop}

/-- Both tables have known cells only. -/
def Knows (known : Int → Prop) (db : Database) : Prop :=
  (∀ cells ∈ db.cdoCells, ∀ row ∈ cells.rows, known row.cellid) ∧
    ∀ temp ∈ db.cdoCellsTemp, ∀ row ∈ temp.rows, known row.cellid

theorem knows_createTemp (knows : Knows known db) : Knows known (createTemp faults db) := by
  rw [createTemp]
  split
  · exact knows
  · refine ⟨knows.1, fun temp isTemp row member => ?_⟩
    cases isTemp
    exact absurd member List.not_mem_nil

theorem knows_copyActive (knows : Knows known db) : Knows known (copyActive faults db).1 := by
  cases isCells : db.cdoCells with
  | none => simpa [copyActive, isCells] using knows
  | some cells =>
    cases isTemp : db.cdoCellsTemp with
    | none => simpa [copyActive, isCells, isTemp] using knows
    | some temp =>
      have knowsActive : ∀ {row}, row ∈ activeRows cells → known row.cellid := by
        intro row member
        obtain ⟨old, kept, rfl⟩ := List.mem_map.mp member
        exact knows.1 cells isCells old (List.mem_filter.mp kept).1
      have knowsInserted : ∀ rows ⊆ activeRows cells, ∀ row ∈ (temp.insert rows).1.rows, known row.cellid := by
        intro rows subset row member
        obtain ⟨inserted, rest, split, areRows, -⟩ := temp.insert_spec rows
        rw [areRows] at member
        rcases List.mem_append.mp member with old | new
        · exact knows.2 temp isTemp row old
        · exact knowsActive (subset (split ▸ List.mem_append_left _ new))
      cases stopped : faults.copy with
      | none =>
        simp only [copyActive, isCells, isTemp, stopped]
        exact ⟨fun cells' same => by cases same; exact knows.1 cells isCells, fun temp' same => by
          cases same; exact knowsInserted _ (List.Subset.refl _)⟩
      | some number =>
        simp only [copyActive, isCells, isTemp, stopped]
        exact ⟨fun cells' same => by cases same; exact knows.1 cells isCells, fun temp' same => by
          cases same; exact knowsInserted _ (List.take_subset _ _)⟩

theorem knows_dropCells (knows : Knows known db) : Knows known (dropCells faults db) := by
  rw [dropCells]
  split
  · exact knows
  · exact ⟨fun cells same => absurd same (by simp), knows.2⟩

theorem knows_renameTemp (knows : Knows known db) : Knows known (renameTemp faults db) := by
  rw [renameTemp]
  split
  · rename_i isTemp
    split
    · exact knows
    · exact ⟨fun cells same => by cases same; exact knows.2 _ isTemp, fun temp same => by cases same⟩
  · exact knows

theorem knows_updateNetwork (knows : Knows known db) : Knows known (NetworkSwap.updateNetwork faults db) := by
  have copied := @knows_copyActive faults _ _ (@knows_createTemp faults _ _ knows)
  simp only [NetworkSwap.updateNetwork, updateNetworkSteps]
  split
  · exact copied
  · exact knows_renameTemp (knows_dropCells copied)

end

section
variable {net after : CellNetwork} {operations : List Operation}

theorem knows_imported {known : Int → Prop} {isNew : Int} {fuel : Nat} {server : Server} {groupName : Str}
    {before after : CellTable} (knows : ∀ row ∈ before.rows, known row.cellid)
    (reported : ∀ cell ∈ listed server groupName, known cell.id)
    (run : importCells isNew fuel (cellGroup server groupName) curationPageSize before = some after) :
    ∀ row ∈ after.rows, known row.cellid := by
  cases isGroup : cellGroup server groupName with
  | paused =>
    rw [isGroup] at run
    cases run
    exact knows
  | group cells =>
    rw [listed_group isGroup] at reported
    intro row member
    have found : after.get? row.cellid = some row := KeyedTable.get?_eq_some.mpr ⟨member, rfl⟩
    rcases arrives_importCells isGroup run row.cellid with same | ⟨-, cell, isCell, isId, -⟩
    · exact knows row (KeyedTable.get?_eq_some.mp (same ▸ found)).1
    · exact isId ▸ reported cell isCell

/-- One operation keeps all cells known, and the requests too. -/
theorem knows_curates {known : Int → Prop} {operation : Operation}
    (reported : ∀ cell ∈ operation.imports, known cell.id) (step : curates net operation after)
    (before : Knows known net.tables ∧ ∀ request ∈ net.sent, Distributes known request) :
    Knows known after.tables ∧ ∀ request ∈ after.sent, Distributes known request := by
  obtain ⟨knows, sent⟩ := before
  have changed : ∀ {operate : CellTable → CellTable → Prop}, onCells net after operate →
      (∀ {cells cells'}, (∀ row ∈ cells.rows, known row.cellid) → operate cells cells' →
        ∀ row ∈ cells'.rows, known row.cellid) →
      Knows known after.tables ∧ ∀ request ∈ after.sent, Distributes known request := by
    intro operate on kept
    rw [onCells] at on
    cases isCells : net.tables.cdoCells with
    | none =>
      rw [isCells] at on
      subst on
      exact ⟨knows, sent⟩
    | some cells =>
      rw [isCells] at on
      obtain ⟨cells', operated, rfl⟩ := on
      exact ⟨⟨fun other same => by cases same; exact kept (knows.1 cells isCells) operated, knows.2⟩, sent⟩
  cases operation with
  | getExistingCells server =>
    refine changed step ?_
    rintro cells cells' knows ⟨fuel, run⟩
    exact knows_imported knows reported run
  | getNewCells server =>
    refine changed step ?_
    rintro cells cells' knows ⟨fuel, run⟩
    rw [getNewCells_eq_importCells] at run
    exact knows_imported knows reported run
  | markOldCells server =>
    refine changed step ?_
    rintro cells cells' knows ⟨fuel, requested, run⟩ row member
    have found : cells'.get? row.cellid = some row := KeyedTable.get?_eq_some.mpr ⟨member, rfl⟩
    have marked := tableLife_markOldCells run row.cellid
    -- a row without one of its id before would be that of an unknown cell
    cases wasRow : cells.get? row.cellid with
    | some old =>
      obtain ⟨inside, same⟩ := KeyedTable.get?_eq_some.mp wasRow
      exact same ▸ knows old inside
    | none =>
      rw [tableLife, found, tableLife, wasRow, Option.map_some, Option.getD_some, rowLife] at marked
      split at marked <;> split at marked <;> cases marked
  | groupNewCells api =>
    rw [show after = _ from step]
    refine ⟨knows, fun request member => ?_⟩
    rcases List.mem_append.mp member with old | new
    · exact sent request old
    · refine distributes_groupNewCells api (fun row isRow => ?_) request new
      cases isCells : net.tables.cdoCells with
      | none => simp [cellDb, isCells, KeyedTable.empty] at isRow
      | some cells =>
        rw [cellDb, isCells] at isRow
        exact knows.1 cells isCells row isRow
  | removeOldCells =>
    rw [show after = _ from step]
    exact ⟨knows, sent⟩
  | updateNetwork faults =>
    rw [show after = _ from step]
    exact ⟨knows_updateNetwork knows, sent⟩

end

end Cdo.CurationRuns
