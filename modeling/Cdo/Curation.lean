import Cdo.LifeCycle
import Cdo.OldCells
import Cdo.NetworkSwap
import Cdo.CellQueues

/-!
The operations of the curation of the cells (`populateCDO.pm` with `cellOps.pm`):
the imports of the existing and of the new cells, the marking of the removed
ones, the hand-offs and the replacement of the cells, with whatever the ad server
answers about a campaign's groups. Every operation comes to an end
(`curates_total`) and does to a cell what an event of its life does, unless the
replacement of the cells breaks off halfway (`curates_life`).
-/
namespace Cdo.Curation
open Cdo.Text Cdo.Tables Cdo.NewCells Cdo.OldCells Cdo.NetworkSwap Cdo.CellQueues Cdo.Paging Cdo.Transitions Cdo.LifeCycle

/-! ### The import of cells -/

/-- The loop of an import after the first page; none if it takes more turns than
    `fuel`. -/
def moreCells (isNew : Int) (cells : List ApiCell) (pageSize : Nat) : Nat → Nat → CellTable → Option CellTable
  | 0, _, _ => none
  | fuel + 1, pageIndex, cdoCells =>
    let cellInfo := getCells cells (pageIndex + 1) pageSize
    let inserted := (cellInsertTest cellInfo isNew cdoCells).1
    if cellInfo.length < pageSize then some inserted else moreCells isNew cells pageSize fuel (pageIndex + 1) inserted

/-- The import that `getNewCells` and `getExistingCells` make of their groups. -/
def importCells (isNew : Int) (fuel : Nat) (cellGroup : CellGroup) (pageSize : Nat) (cdoCells : CellTable) :
    Option CellTable :=
  match cellGroup with
  | .paused => some cdoCells
  | .group cells =>
    let cellInfo := getCells cells 0 pageSize
    if 0 < cellInfo.length then
      let inserted := (cellInsertTest cellInfo isNew cdoCells).1
      if pageSize - 1 < cellInfo.length then moreCells isNew cells pageSize fuel 0 inserted else some inserted
    else some cdoCells

def getExistingCells (fuel : Nat) (cellGroup : CellGroup) (pageSize : Nat) (cdoCells : CellTable) : Option CellTable :=
  importCells 0 fuel cellGroup pageSize cdoCells

theorem moreCells_one (cells : List ApiCell) (pageSize fuel pageIndex : Nat) (cdoCells : CellTable) :
    morePages cells pageSize fuel pageIndex cdoCells = moreCells 1 cells pageSize fuel pageIndex cdoCells := by
  induction fuel generalizing pageIndex cdoCells with
  | zero => rfl
  | succ fuel ih =>
    rw [morePages, moreCells, ih]

theorem getNewCells_eq_importCells (fuel : Nat) (cellGroup : CellGroup) (pageSize : Nat) (cdoCells : CellTable) :
    getNewCells fuel cellGroup pageSize cdoCells = importCells 1 fuel cellGroup pageSize cdoCells := by
  cases cellGroup with
  | paused => rfl
  | group cells => simp only [getNewCells, importCells, moreCells_one]

/-! ### The groups of a campaign -/

structure CellGroupInfo where
  id : Str
  groupType : Str
deriving DecidableEq

/-- The answer to the request for the cell groups of a campaign. -/
inductive CellGroupList where
  | failure
  | groups (groupList : List CellGroupInfo)

/-- The id of the first group of a type. A failed request gives a text in its
    place, and no group of the type gives nothing. -/
def readCellGroupInfo (cellGroups : CellGroupList) (groupName : Str) : Str :=
  match cellGroups with
  | .failure => "Paused".toList
  | .groups groupList =>
    match groupList.find? fun cgi => cgi.groupType == groupName with
    | some cgi => cgi.id
    | none => []

/-- What the ad server answers about a campaign: its groups, and the cells of a
    group. -/
structure Server where
  cellGroups : CellGroupList
  completeCellList : Str → List ApiCell

def newGroupName : Str := "NEW".toList
def newCampaignGroupName : Str := "UNGROUPED".toList
def removedGroupName : Str := "REMOVED".toList

def cellGroup (server : Server) (groupName : Str) : CellGroup :=
  let cellGroupId := readCellGroupInfo server.cellGroups groupName
  if cellGroupId = "Paused".toList then .paused else .group (server.completeCellList cellGroupId)

/-- The cells that an operation on a group reads. -/
def listed (server : Server) (groupName : Str) : List ApiCell :=
  match cellGroup server groupName with
  | .paused => []
  | .group cells => cells

/-! ### Operations -/

def curationPageSize : Nat := 2000

/-- The tables of the cells, the queues and the requests that were sent. -/
structure CellNetwork where
  tables : Database
  newCellsQueue : List QueuedCell
  oldCellsQueue : List QueuedCell
  sent : List Request

inductive Operation where
  | getExistingCells (server : Server)
  | getNewCells (server : Server)
  | markOldCells (server : Server)
  | groupNewCells (api : Api)
  | removeOldCells
  | updateNetwork (faults : Faults)

/-- An operation on the table of the cells. Without the table its statements fail. -/
def onCells (net after : CellNetwork) (operate : CellTable → CellTable → Prop) : Prop :=
  match net.tables.cdoCells with
  | none => after = net
  | some cells => ∃ cells', operate cells cells' ∧
      after = { net with tables := { net.tables with cdoCells := some cells' } }

/-- The rows for the queues; without the table none are found. -/
def cellDb (net : CellNetwork) : CellDb := ⟨net.tables.cdoCells.getD KeyedTable.empty, net.newCellsQueue, net.oldCellsQueue⟩

def curates : System CellNetwork Operation := fun net operation after =>
  match operation with
  | .getExistingCells server => onCells net after fun cells cells' => ∃ fuel,
      getExistingCells fuel (cellGroup server newCampaignGroupName) curationPageSize cells = some cells'
  | .getNewCells server => onCells net after fun cells cells' => ∃ fuel,
      getNewCells fuel (cellGroup server newGroupName) curationPageSize cells = some cells'
  | .markOldCells server => onCells net after fun cells cells' => ∃ fuel requested,
      markOldCells fuel (cellGroup server removedGroupName) curationPageSize cells.rows = some ⟨requested, cells'.rows⟩
  | .groupNewCells api =>
    let grouped := CellQueues.groupNewCells api (cellDb net)
    after = { net with newCellsQueue := grouped.1.newCellsQueue, sent := net.sent ++ grouped.2 }
  | .removeOldCells => after = { net with oldCellsQueue := (oldCellQueue (cellDb net)).1.oldCellsQueue }
  | .updateNetwork faults => after = { net with tables := NetworkSwap.updateNetwork faults net.tables }

/-! ### What an operation means for a cell -/

/-- Where a cell is. -/
structure Place where
  adid : Int
  siteid : Int
  segmentid : Int
deriving DecidableEq

def placeOf (row : CdoCell) : Place := ⟨row.adid, row.siteid, row.segmentid⟩

def reportedPlace (cell : ApiCell) : Place := ⟨cell.mediaId, cell.siteId, cell.segmentId⟩

/-- The places that a cell is listed at. -/
def places (id : Int) (cells : List ApiCell) : List Place := (cells.filter fun cell => cell.id = id).map reportedPlace

def rowLife (row : CdoCell) : Life Place :=
  if row.active = some 1 then .live (placeOf row) (row.new == some 1) else .removed (placeOf row) (row.new == some 1)

def tableLife (cells : CellTable) (id : Int) : Life Place := ((cells.get? id).map rowLife).getD .unknown

/-- Where a cell stands. -/
def life (net : CellNetwork) (id : Int) : Life Place := tableLife (net.tables.cdoCells.getD KeyedTable.empty) id

def meaning (id : Int) : Operation → Event Place
  | .getExistingCells server => .reported (places id (listed server newCampaignGroupName)) false
  | .getNewCells server => .reported (places id (listed server newGroupName)) true
  | .markOldCells server => if id ∈ (listed server removedGroupName).map ApiCell.id then .removed else .idle
  | .groupNewCells _ => .idle
  | .removeOldCells => .idle
  | .updateNetwork faults => if faults.create then .idle else .updated

/-- The cells exist, and nothing was left behind by a replacement. -/
def Settled (net : CellNetwork) : Prop := ∃ cells, net.tables = ⟨some cells, none⟩

/-- A replacement that is begun goes through. -/
def Operation.Whole : Operation → Prop
  | .updateNetwork faults => faults.copy = none ∧ faults.drop = false ∧ faults.rename = false
  | _ => True

theorem life_settled {net : CellNetwork} {cells : CellTable} (settled : net.tables = ⟨some cells, none⟩) (id : Int) :
    life net id = tableLife cells id := by
  rw [life, settled]
  rfl

theorem mem_places {id : Int} {cells : List ApiCell} {cell : ApiCell} (member : cell ∈ cells) (same : cell.id = id) :
    reportedPlace cell ∈ places id cells :=
  List.mem_map_of_mem (List.mem_filter.mpr ⟨member, by simpa using same⟩)

/-! ### Imports -/

/-- A cell's row is as before, or the cell was unknown and has the row of a
    reported one. -/
def Arrives (isNew : Int) (cells : List ApiCell) (before after : CellTable) : Prop :=
  ∀ id, after.get? id = before.get? id ∨
    before.get? id = none ∧ ∃ cell ∈ cells, cell.id = id ∧ after.get? id = some (newRow isNew cell)

theorem Arrives.trans {isNew : Int} {cells : List ApiCell} {before between after : CellTable}
    (first : Arrives isNew cells before between) (second : Arrives isNew cells between after) :
    Arrives isNew cells before after := by
  intro id
  rcases second id with same | ⟨free, cell, member, isId, arrived⟩
  · rw [same]
    exact first id
  · refine .inr ⟨?_, cell, member, isId, arrived⟩
    rcases first id with same | ⟨-, other, -, -, present⟩
    · rw [← same]
      exact free
    · rw [free] at present
      cases present

theorem arrives_page {isNew : Int} {cells page : List ApiCell} (subset : page ⊆ cells) (before : CellTable) :
    Arrives isNew cells before (cellInsertTest page isNew before).1 := by
  intro id
  rw [cellInsertTest_eq]
  rcases before.get?_insert (page.tail.map (newRow isNew)) id with same | ⟨free, row, member, isId, arrived⟩
  · exact .inl same
  · obtain ⟨cell, isCell, rfl⟩ := List.mem_map.mp member
    exact .inr ⟨free, cell, subset (List.mem_of_mem_tail isCell), isId, arrived⟩

theorem arrives_pages {isNew : Int} {cells : List ApiCell} (pageSize : Nat) (indices : List Nat) (before : CellTable) :
    Arrives isNew cells before
      (handlePages (fun cdoCells _ page => (cellInsertTest page isNew cdoCells).1) cells pageSize indices before) := by
  induction indices generalizing before with
  | nil => exact fun id => .inl rfl
  | cons pageIndex indices ih =>
    have subset : page cells pageSize pageIndex ⊆ cells := fun cell member =>
      List.mem_of_mem_drop (List.mem_of_mem_take member)
    exact (arrives_page subset before).trans (ih _)

theorem moreCells_eq (isNew : Int) (cells : List ApiCell) (pageSize fuel pageIndex : Nat) (cdoCells : CellTable) :
    moreCells isNew cells pageSize fuel pageIndex cdoCells =
      pageLoop (fun cdoCells _ page => (cellInsertTest page isNew cdoCells).1) cells pageSize fuel pageIndex cdoCells := by
  induction fuel generalizing pageIndex cdoCells with
  | zero => rfl
  | succ fuel ih =>
    rw [moreCells, pageLoop, ih]
    rfl

theorem importCells_handleAll (isNew : Int) (cells : List ApiCell) {pageSize : Nat} (positive : 1 ≤ pageSize) (fuel : Nat)
    (cdoCells : CellTable) :
    importCells isNew fuel (.group cells) pageSize cdoCells =
      handleAll (fun cdoCells _ page => (cellInsertTest page isNew cdoCells).1) cells pageSize fuel cdoCells := by
  rw [← guarded_handleAll rfl positive]
  simp only [importCells, moreCells_eq]
  rfl

theorem arrives_importCells {isNew : Int} {fuel : Nat} {group : CellGroup} {cells : List ApiCell} {before after : CellTable}
    (isGroup : group = .group cells) (run : importCells isNew fuel group curationPageSize before = some after) :
    Arrives isNew cells before after := by
  rw [isGroup, importCells_handleAll isNew cells (by decide)] at run
  rw [handleAll_some _ (by decide) run]
  exact arrives_pages curationPageSize _ before

/-- An import means a report for every cell. -/
theorem tableLife_arrives {isNew : Int} {cells : List ApiCell} {before after : CellTable}
    (arrives : Arrives isNew cells before after) (id : Int) :
    lifeStep (tableLife before id) (.reported (places id cells) (isNew == 1)) (tableLife after id) := by
  rcases arrives id with same | ⟨free, cell, member, isId, arrived⟩
  · exact .inl (by rw [tableLife, same, tableLife])
  · refine .inr ⟨by rw [tableLife, free]; rfl, reportedPlace cell, mem_places member isId, ?_⟩
    rw [tableLife, arrived]
    rfl

/-! ### Markings and replacements -/

theorem mark_cellid (ids : List Int) (row : CdoCell) : (mark ids row).cellid = row.cellid := by
  rw [mark]
  split <;> rfl

theorem mark_all_some {removed : List ApiCell} {fuel : Nat} {before : List CdoCell} {marked : Marked}
    (run : markOldCells fuel (.group removed) curationPageSize before = some marked) :
    marked.cdoCells = before.map (mark (removed.map ApiCell.id)) := by
  have all : handleAll Marked.page removed curationPageSize fuel ⟨[], before⟩ = some marked := by
    rw [← run, ← guarded_handleAll rfl (by decide)]
    simp only [markOldCells, moreRemoved_eq]
    rfl
  rw [handleAll_some _ (by decide) all, handlePages_marked, flatten_allPages (by decide)]

theorem tableLife_marked {ids : List Int} {before after : CellTable} (rows : after.rows = before.rows.map (mark ids))
    (id : Int) : tableLife after id = if id ∈ ids then (tableLife before id).remove else tableLife before id := by
  have allRows : after.rows = (before.rows.filter fun _ => true).map (mark ids) := by simpa using rows
  have found := KeyedTable.get?_filter_map (mark_cellid ids) allRows id
  have all : (before.get? id).filter (fun _ => true) = before.get? id := by cases before.get? id <;> rfl
  rw [tableLife, tableLife, found, all]
  cases isRow : before.get? id with
  | none => simp [Life.remove]
  | some row =>
    obtain ⟨-, rfl⟩ := KeyedTable.get?_eq_some.mp isRow
    by_cases listed : row.cellid ∈ ids
    · by_cases active : row.active = some 1
      · simp [listed, mark, rowLife, active, Life.remove, placeOf]
      · simp [listed, mark, rowLife, active, Life.remove, placeOf]
    · simp [listed, mark]

theorem tableLife_activeRows {before after : CellTable} (rows : after.rows = activeRows before) (id : Int) :
    tableLife after id = (tableLife before id).update := by
  have found := KeyedTable.get?_filter_map (fun row => show (copied row).cellid = row.cellid from rfl) rows id
  rw [tableLife, tableLife, found]
  cases isRow : before.get? id with
  | none => rfl
  | some row =>
    by_cases active : row.active = some 1
    · simp [Option.filter, active, copied, rowLife, Life.update, placeOf]
    · simp [Option.filter, active, rowLife, Life.update]

/-- A replacement that goes through leaves the active cells, one that is not begun
    leaves everything, and neither leaves anything else behind. -/
theorem updateNetwork_whole {faults : Faults} {before : CellTable} (whole : (Operation.updateNetwork faults).Whole) :
    ∃ after, NetworkSwap.updateNetwork faults ⟨some before, none⟩ = ⟨some after, none⟩ ∧
      after.rows = if faults.create then before.rows else activeRows before := by
  obtain ⟨copy, drop, rename⟩ := whole
  cases create : faults.create with
  | true =>
    refine ⟨before, ?_, rfl⟩
    simp [NetworkSwap.updateNetwork, updateNetworkSteps, createTemp, copyActive, create]
  | false =>
    let empty : CellTable := KeyedTable.empty
    have fits : (empty.insert (activeRows before)).2 = true := by
      apply (KeyedTable.insert_all_iff activeRows_keys).mpr
      intro row _ taken
      obtain ⟨_, member, -⟩ := KeyedTable.has_iff.mp taken
      exact absurd member List.not_mem_nil
    have rows : (empty.insert (activeRows before)).1.rows = activeRows before := by
      obtain ⟨inserted, rest, split, areRows, stops, -⟩ := empty.insert_spec (activeRows before)
      rw [stops.mp fits, List.append_nil] at split
      rw [areRows, ← split]
      rfl
    refine ⟨(empty.insert (activeRows before)).1, ?_, by simpa using rows⟩
    simp [NetworkSwap.updateNetwork, updateNetworkSteps, createTemp, copyActive, dropCells, renameTemp, create, copy, drop,
      rename, fits, empty]

/-! ### The life of a cell -/

theorem listed_group {server : Server} {groupName : Str} {cells : List ApiCell}
    (isGroup : cellGroup server groupName = .group cells) : listed server groupName = cells := by
  rw [listed, isGroup]

theorem listed_paused {server : Server} {groupName : Str} (isPaused : cellGroup server groupName = .paused) :
    listed server groupName = [] := by
  rw [listed, isPaused]

theorem tableLife_imported {isNew : Int} {fuel : Nat} {server : Server} {groupName : Str} {before after : CellTable}
    (run : importCells isNew fuel (cellGroup server groupName) curationPageSize before = some after) (id : Int) :
    lifeStep (tableLife before id) (.reported (places id (listed server groupName)) (isNew == 1)) (tableLife after id) := by
  cases isGroup : cellGroup server groupName with
  | paused =>
    rw [isGroup] at run
    cases run
    exact .inl rfl
  | group cells =>
    rw [listed_group isGroup]
    exact tableLife_arrives (arrives_importCells isGroup run) id

theorem tableLife_markOldCells {fuel : Nat} {requested : List Nat} {server : Server} {before after : CellTable}
    (run : markOldCells fuel (cellGroup server removedGroupName) curationPageSize before.rows = some ⟨requested, after.rows⟩)
    (id : Int) : tableLife after id =
      if id ∈ (listed server removedGroupName).map ApiCell.id then (tableLife before id).remove else tableLife before id := by
  cases isGroup : cellGroup server removedGroupName with
  | paused =>
    rw [isGroup] at run
    have rows : after.rows = before.rows := by
      simp only [markOldCells, Option.some.injEq, Marked.mk.injEq] at run
      exact run.2.symm
    rw [listed_paused isGroup, KeyedTable.ext rows]
    simp
  | group removed =>
    rw [isGroup] at run
    rw [listed_group isGroup]
    exact tableLife_marked (mark_all_some run) id

/-- Every operation does to a cell what an event of its life does. -/
theorem curates_life {net after : CellNetwork} {operation : Operation} (settled : Settled net) (whole : operation.Whole)
    (step : curates net operation after) :
    Settled after ∧ ∀ id, lifeStep (life net id) (meaning id operation) (life after id) := by
  obtain ⟨cells, tables⟩ := settled
  have isCells : net.tables.cdoCells = some cells := by rw [tables]
  -- an operation on the cells leaves the other tables alone
  have changed : ∀ {operate : CellTable → CellTable → Prop}, onCells net after operate →
      ∃ cells', operate cells cells' ∧ after.tables = ⟨some cells', none⟩ := by
    intro operate on
    rw [onCells, isCells] at on
    obtain ⟨cells', operated, rfl⟩ := on
    exact ⟨cells', operated, by rw [tables]⟩
  cases operation with
  | getExistingCells server =>
    obtain ⟨cells', ⟨fuel, run⟩, tables'⟩ := changed step
    refine ⟨⟨cells', tables'⟩, fun id => ?_⟩
    rw [life_settled tables, life_settled tables']
    exact tableLife_imported run id
  | getNewCells server =>
    obtain ⟨cells', ⟨fuel, run⟩, tables'⟩ := changed step
    refine ⟨⟨cells', tables'⟩, fun id => ?_⟩
    rw [getNewCells_eq_importCells] at run
    rw [life_settled tables, life_settled tables']
    exact tableLife_imported run id
  | markOldCells server =>
    obtain ⟨cells', ⟨fuel, requested, run⟩, tables'⟩ := changed step
    refine ⟨⟨cells', tables'⟩, fun id => ?_⟩
    rw [life_settled tables, life_settled tables', meaning, tableLife_markOldCells run id]
    split <;> rfl
  | groupNewCells api =>
    subst step
    exact ⟨⟨cells, tables⟩, fun id => rfl⟩
  | removeOldCells =>
    subst step
    exact ⟨⟨cells, tables⟩, fun id => rfl⟩
  | updateNetwork faults =>
    obtain ⟨cells', swapped, rows⟩ := @updateNetwork_whole faults cells whole
    have tables' : after.tables = ⟨some cells', none⟩ := by
      rw [show after = { net with tables := NetworkSwap.updateNetwork faults net.tables } from step, tables]
      exact swapped
    refine ⟨⟨cells', tables'⟩, fun id => ?_⟩
    rw [life_settled tables, life_settled tables', meaning]
    cases create : faults.create with
    | true =>
      rw [create, if_pos rfl] at rows
      rw [if_pos rfl, KeyedTable.ext rows]
      rfl
    | false =>
      rw [create, if_neg Bool.false_ne_true] at rows
      rw [if_neg Bool.false_ne_true]
      exact tableLife_activeRows rows id

/-- Every operation comes to an end, whatever the ad server answers. -/
theorem curates_total (net : CellNetwork) (operation : Operation) : ∃ after, curates net operation after := by
  have import_total : ∀ isNew server groupName cells, ∃ cells' fuel,
      importCells isNew fuel (cellGroup server groupName) curationPageSize cells = some cells' := by
    intro isNew server groupName cells
    cases cellGroup server groupName with
    | paused => exact ⟨cells, 0, rfl⟩
    | group listed =>
      have run := @importCells_handleAll isNew listed curationPageSize (by decide) (listed.length / curationPageSize) cells
      rw [handleAll_eq _ (by decide) _ _ le_rfl] at run
      exact ⟨_, _, run⟩
  have cells_total : ∀ {operate : CellTable → CellTable → Prop}, (∀ cells, ∃ cells', operate cells cells') →
      ∃ after, onCells net after operate := by
    intro operate total
    simp only [onCells]
    cases net.tables.cdoCells with
    | none => exact ⟨net, rfl⟩
    | some cells =>
      obtain ⟨cells', operated⟩ := total cells
      exact ⟨_, cells', operated, rfl⟩
  cases operation with
  | getExistingCells server => exact cells_total fun cells => import_total 0 server newCampaignGroupName cells
  | getNewCells server =>
    apply cells_total
    intro cells
    simp only [getNewCells_eq_importCells]
    exact import_total 1 server newGroupName cells
  | markOldCells server =>
    apply cells_total
    intro cells
    cases cellGroup server removedGroupName with
    | paused => exact ⟨cells, 0, [], rfl⟩
    | group removed =>
      have once : ((cells.rows.map (mark (removed.map ApiCell.id))).map CdoCell.cellid).Nodup := by
        rw [List.map_map, show CdoCell.cellid ∘ mark _ = CdoCell.cellid from funext (mark_cellid _)]
        exact cells.nodup
      exact ⟨⟨_, once⟩, _, _, markOldCells_eq (by decide) _ le_rfl cells.rows⟩
  | groupNewCells api => exact ⟨_, rfl⟩
  | removeOldCells => exact ⟨_, rfl⟩
  | updateNetwork faults => exact ⟨_, rfl⟩

/-! ### What an operation imports, marks and replaces -/

/-- The cells that an operation may import. -/
def Operation.imports : Operation → List ApiCell
  | .getExistingCells server => listed server newCampaignGroupName
  | .getNewCells server => listed server newGroupName
  | _ => []

/-- The cells that an operation marks. -/
def Operation.removes : Operation → List Int
  | .markOldCells server => (listed server removedGroupName).map ApiCell.id
  | _ => []

/-- The operation replaces the cells by the active ones. -/
def Operation.Updates : Operation → Prop
  | .updateNetwork faults => faults.create = false
  | _ => False

section
variable {id : Int} {operation : Operation}

theorem meaning_reported {listedAt : List Place} {new : Bool} (reported : meaning id operation = .reported listedAt new)
    {place : Place} (member : place ∈ listedAt) :
    ∃ cell ∈ operation.imports, cell.id = id ∧ reportedPlace cell = place := by
  have found : ∀ {cells : List ApiCell}, place ∈ places id cells →
      ∃ cell ∈ cells, cell.id = id ∧ reportedPlace cell = place := by
    intro cells isPlace
    obtain ⟨cell, kept, rfl⟩ := List.mem_map.mp isPlace
    obtain ⟨inside, isId⟩ := List.mem_filter.mp kept
    exact ⟨cell, inside, by simpa using isId, rfl⟩
  cases operation with
  | getExistingCells server => cases reported; exact found member
  | getNewCells server => cases reported; exact found member
  | markOldCells server => simp only [meaning] at reported; split at reported <;> cases reported
  | groupNewCells api => cases reported
  | removeOldCells => cases reported
  | updateNetwork faults => simp only [meaning] at reported; split at reported <;> cases reported

theorem meaning_removed : meaning id operation = .removed ↔ id ∈ operation.removes := by
  cases operation with
  | markOldCells server =>
    by_cases member : id ∈ (listed server removedGroupName).map ApiCell.id
    · rw [meaning, if_pos member]
      exact iff_of_true rfl member
    · rw [meaning, if_neg member]
      exact iff_of_false (by simp) member
  | updateNetwork faults => cases create : faults.create <;> simp [meaning, Operation.removes, create]
  | _ => simp [meaning, Operation.removes]

theorem meaning_updated : meaning id operation = .updated ↔ operation.Updates := by
  cases operation with
  | markOldCells server =>
    by_cases member : id ∈ (listed server removedGroupName).map ApiCell.id
    · simp only [meaning, Operation.Updates, if_pos member, reduceCtorEq]
    · simp only [meaning, Operation.Updates, if_neg member, reduceCtorEq]
  | updateNetwork faults => cases create : faults.create <;> simp [meaning, Operation.Updates, create]
  | _ => simp [meaning, Operation.Updates]

theorem meaning_new : (∃ listedAt, meaning id operation = .reported listedAt true) ↔
    ∃ server, operation = .getNewCells server := by
  cases operation with
  | markOldCells server =>
    by_cases member : id ∈ (listed server removedGroupName).map ApiCell.id
    · simp only [meaning, if_pos member, reduceCtorEq, exists_false]
    · simp only [meaning, if_neg member, reduceCtorEq, exists_false]
  | updateNetwork faults => cases create : faults.create <;> simp [meaning, create]
  | getNewCells server => simp [meaning]
  | _ => simp [meaning]

end

end Cdo.Curation
