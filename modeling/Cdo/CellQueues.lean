import Cdo.NewCells
import Cdo.Batches

/-!
The hand-off of new and removed cells to the ad server (`groupNewCells` of
`populateCDO.pm`, the queues of `cellOps.pm` and `apiAction` of `apiOps.pm`). New
cells are queued, but the request is made for all cells of the table, whatever is
in the queue (`distributed_iff`). Removed cells are queued and handed over under a
name that the dispatcher does not know, so that nothing is ever sent for them
(`acknowledgeOldCells_eq`).
-/
namespace Cdo.CellQueues
open Cdo.Text Cdo.Tables Cdo.NewCells Cdo.Batches

/-! ### Requests -/

/-- The cases of the dispatcher. -/
inductive Action where
  | readCampaignList | updatePausedStatus | updateDefaultBidStatus | readMediaList | pauseMediaList | playMediaList
  | getLatestReports | getAvailableReports | getReports
  | getLatestRecommendations | getAvailableRecommendations | getRecommendations
  | readCellGroupList | readCellGroup | readCompleteCellList | createCellGroup | updateCellGroup | deleteCellGroup
  | distributeCellList | acknowledgeRemovedCellList
  | readBidList | createBidList
deriving DecidableEq

/-- The text of a case. -/
def Action.label : Action → Str
  | .readCampaignList => "readCampaignList".toList
  | .updatePausedStatus => "updatePausedStatus".toList
  | .updateDefaultBidStatus => "updateDefaultBidStatus".toList
  | .readMediaList => "readMediaList".toList
  | .pauseMediaList => "pauseMediaList".toList
  | .playMediaList => "playMediaList".toList
  | .getLatestReports => "getLatestReports".toList
  | .getAvailableReports => "getAvailableReports".toList
  | .getReports => "getReports".toList
  | .getLatestRecommendations => "getLatestRecommendations".toList
  | .getAvailableRecommendations => "getAvailableRecommendations".toList
  | .getRecommendations => "getRecommendations".toList
  | .readCellGroupList => "readCellGroupList".toList
  | .readCellGroup => "readCellGroup".toList
  | .readCompleteCellList => "readCompleteCellList".toList
  | .createCellGroup => "createCellGroup".toList
  | .updateCellGroup => "updateCellGroup".toList
  | .deleteCellGroup => "deleteCellGroup".toList
  | .distributeCellList => "distributeCellList".toList
  | .acknowledgeRemovedCellList => "acknowledgeRemovedCellList".toList
  | .readBidList => "readBidList".toList
  | .createBidList => "createBidList".toList

def Action.all : List Action :=
  [.readCampaignList, .updatePausedStatus, .updateDefaultBidStatus, .readMediaList, .pauseMediaList, .playMediaList,
    .getLatestReports, .getAvailableReports, .getReports,
    .getLatestRecommendations, .getAvailableRecommendations, .getRecommendations,
    .readCellGroupList, .readCellGroup, .readCompleteCellList, .createCellGroup, .updateCellGroup, .deleteCellGroup,
    .distributeCellList, .acknowledgeRemovedCellList,
    .readBidList, .createBidList]

/-- The case of a text. -/
def Action.named (action : Str) : Option Action := Action.all.find? fun case => case.label == action

/-- A request with the cell ids in it. -/
inductive Request where
  | distributeCellList (ids : List Str)
  | acknowledgeRemovedCellList (ids : List Str)
  | other (message : Str)
deriving DecidableEq

/-- The fetched rows of a query for cell ids. -/
abbrev CellIds := SortedMap Str Int

def fetchIds (ids : List Int) : CellIds := SortedMap.ofRows intText id ids

def distributeCellList (cellIdList : CellIds) (order : cellIdList.Listing) : List (List Str) := batches 200 order.keys

/-- The variable that `acknowledgeRemovedCellList` loops over. Nothing is ever
    assigned to it; the argument of the function is not read. -/
def removedCellIdList : List Str := []

def acknowledgeRemovedCellList : List (List Str) := batches 1000 removedCellIdList

/-- The order of a hash of cell ids, and what the other cases send. -/
structure Api where
  order : (cellIdList : CellIds) → cellIdList.Listing
  others : Action → CellIds → List Request

def apiAction (api : Api) (action : Str) (cellIdList : CellIds) : List Request :=
  match Action.named action with
  | some .distributeCellList => (distributeCellList cellIdList (api.order cellIdList)).map .distributeCellList
  | some .acknowledgeRemovedCellList => acknowledgeRemovedCellList.map .acknowledgeRemovedCellList
  | some case => api.others case cellIdList
  | none => []

/-! ### Queues -/

structure QueuedCell where
  cellid : Int
  adid : Int
  siteid : Int
  segmentid : Int
deriving DecidableEq

def queuedCell (cell : CdoCell) : QueuedCell := ⟨cell.cellid, cell.adid, cell.siteid, cell.segmentid⟩

structure CellDb where
  cdoCells : CellTable
  newCellsQueue : List QueuedCell
  oldCellsQueue : List QueuedCell

/-- The queue is emptied and filled, and its length is returned. -/
def newCellQueue (db : CellDb) : CellDb × Nat :=
  let rows := (db.cdoCells.rows.filter fun cell => cell.new == some 1).map queuedCell
  ({ db with newCellsQueue := rows }, rows.length)

def oldCellQueue (db : CellDb) : CellDb × Nat :=
  let rows := (db.cdoCells.rows.filter fun cell => cell.active == some 0).map queuedCell
  ({ db with oldCellsQueue := rows }, rows.length)

/-- The cells are read from the table, not from the queue. -/
def distributeNewCells (api : Api) (db : CellDb) : List Request :=
  apiAction api "distributeCellList".toList (fetchIds (db.cdoCells.rows.map CdoCell.cellid))

def groupNewCells (api : Api) (db : CellDb) : CellDb × List Request :=
  let queued := (newCellQueue db).1
  (queued, distributeNewCells api queued)

def acknowledgeOldCells (api : Api) (db : CellDb) : List Request :=
  apiAction api "acknowledgeCellList".toList (fetchIds (db.oldCellsQueue.map QueuedCell.cellid))

/-! ### What is sent -/

def queueIds (queue : List QueuedCell) : List Str := queue.map fun cell => intText cell.cellid

/-- The ids in the requests to distribute cells, request by request. -/
def distributed (requests : List Request) : List (List Str) :=
  requests.filterMap fun
    | .distributeCellList ids => some ids
    | _ => none

def acknowledged (requests : List Request) : List (List Str) :=
  requests.filterMap fun
    | .acknowledgeRemovedCellList ids => some ids
    | _ => none

theorem mem_fetchIds {ids : List Int} (order : (fetchIds ids).Listing) {text : Str} :
    text ∈ order.keys ↔ ∃ id ∈ ids, intText id = text := by
  rw [order.mem_keys]
  constructor
  · rintro ⟨value, found⟩
    obtain ⟨id, member, same, -⟩ := SortedMap.get?_ofRows_some found
    exact ⟨id, member, same⟩
  · rintro ⟨id, member, rfl⟩
    exact SortedMap.get?_ofRows_mem intText _ member

theorem distributed_groupNewCells (api : Api) (db : CellDb) :
    distributed (groupNewCells api db).2 =
      batches 200 (api.order (fetchIds (db.cdoCells.rows.map CdoCell.cellid))).keys := by
  have named : Action.named "distributeCellList".toList = some .distributeCellList := by decide
  simp only [groupNewCells, distributeNewCells, apiAction, named, distributed, distributeCellList, List.filterMap_map]
  exact List.filterMap_some

/-- The name of the request is no case of the dispatcher. -/
theorem acknowledgeOldCells_eq (api : Api) (db : CellDb) : acknowledgeOldCells api db = [] := by
  have unnamed : Action.named "acknowledgeCellList".toList = none := by decide
  rw [acknowledgeOldCells, apiAction, unnamed]

theorem mem_queueIds {cells : List CdoCell} {keep : CdoCell → Bool} {text : Str} :
    text ∈ queueIds ((cells.filter keep).map queuedCell) ↔ ∃ cell ∈ cells, keep cell = true ∧ intText cell.cellid = text := by
  simp [queueIds, queuedCell, and_assoc]

/-- The queued cells are those that are sent only if all cells are new. -/
theorem distributed_iff (api : Api) (db : CellDb) :
    SentOnce (distributed (groupNewCells api db).2) (queueIds (groupNewCells api db).1.newCellsQueue) ↔
      ∀ cell ∈ db.cdoCells.rows, cell.new = some 1 := by
  rw [distributed_groupNewCells, sentOnce_iff (by rw [flatten_batches]; exact SortedMap.Listing.nodup _ _), flatten_batches]
  simp only [mem_fetchIds, groupNewCells, newCellQueue, mem_queueIds, List.mem_map]
  constructor
  · intro same cell member
    obtain ⟨other, isOther, isNew, sameId⟩ := (same (intText cell.cellid)).mp ⟨_, ⟨cell, member, rfl⟩, rfl⟩
    have isCell := db.cdoCells.eq_of_key isOther member (intText_injective sameId)
    rw [← isCell]
    exact eq_of_beq isNew
  · intro allNew text
    constructor
    · rintro ⟨-, ⟨cell, member, rfl⟩, rfl⟩
      exact ⟨cell, member, beq_iff_eq.mpr (allNew cell member), rfl⟩
    · rintro ⟨cell, member, -, rfl⟩
      exact ⟨_, ⟨cell, member, rfl⟩, rfl⟩

/-- The queued cells are those that are acknowledged only if none is queued. -/
theorem acknowledged_iff (api : Api) (db : CellDb) :
    SentOnce (acknowledged (acknowledgeOldCells api (oldCellQueue db).1)) (queueIds (oldCellQueue db).1.oldCellsQueue) ↔
      ∀ cell ∈ db.cdoCells.rows, cell.active ≠ some 0 := by
  rw [acknowledgeOldCells_eq, acknowledged, List.filterMap_nil, sentOnce_iff (by simp)]
  simp only [oldCellQueue, mem_queueIds, List.flatten_nil, List.not_mem_nil, false_iff]
  constructor
  · intro none cell member inactive
    exact none (intText cell.cellid) ⟨cell, member, beq_iff_eq.mpr inactive, rfl⟩
  · rintro allActive text ⟨cell, member, inactive, -⟩
    exact allActive cell member (eq_of_beq inactive)

/-- The queues decide what is sent exactly if all cells of the table are new and
    none of them is inactive. -/
theorem queues_sent_iff (api : Api) (db : CellDb) :
    (SentOnce (distributed (groupNewCells api db).2) (queueIds (groupNewCells api db).1.newCellsQueue) ↔
      ∀ cell ∈ db.cdoCells.rows, cell.new = some 1) ∧
    (SentOnce (acknowledged (acknowledgeOldCells api (oldCellQueue db).1)) (queueIds (oldCellQueue db).1.oldCellsQueue) ↔
      ∀ cell ∈ db.cdoCells.rows, cell.active ≠ some 0) :=
  ⟨distributed_iff api db, acknowledged_iff api db⟩

def sortedApi : Api := ⟨SortedMap.Listing.sorted, fun _ _ => []⟩

def knownCell : CdoCell := ⟨7, 11, 20, 5, some 0, some 0⟩

def knownCells : CellDb := ⟨⟨[knownCell], List.nodup_singleton _⟩, [], []⟩

/-- A removed cell that is not new is distributed and not acknowledged. -/
theorem known_cell_distributed :
    ¬ SentOnce (distributed (groupNewCells sortedApi knownCells).2)
        (queueIds (groupNewCells sortedApi knownCells).1.newCellsQueue) ∧
      ¬ SentOnce (acknowledged (acknowledgeOldCells sortedApi (oldCellQueue knownCells).1))
        (queueIds (oldCellQueue knownCells).1.oldCellsQueue) := by
  decide

end Cdo.CellQueues
