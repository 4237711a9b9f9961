import Cdo.BidUploader
import Cdo.CellQueues

/-!
The requests that bids and cells are uploaded with (`pushBids` of
`bidUploader.pm`, `distributeCellList` of `apiOps.pm`). Both loops send a request
whenever it is full and one more for the rest. The rest is sent without a look at
whether there is any, so that an empty list, and one that fills its last request,
ends with a request without entries (`upload_batches_iff`). Only the manual bids
are tested for being there at all.
-/
namespace Cdo.UploadBatches
open Cdo.Text Cdo.Batches Cdo.BidUploader Cdo.CellQueues

/-- The requests carry every entry once and in order, each of them at least one
    and at most as many as it may. -/
def Partitions {α : Type} (size : Nat) (requests : List (List α)) (entries : List α) : Prop :=
  requests.flatten = entries ∧ Fair size requests

theorem createBidLists_partitions_iff {bidIncrement : Nat} (positive : 0 < bidIncrement) (entries : List BidEntry) :
    Partitions bidIncrement (createBidLists bidIncrement entries) entries ↔ ¬ bidIncrement ∣ entries.length := by
  rw [Partitions, and_iff_right (createBidLists_flatten _ _), createBidLists_eq, fair_batches_iff positive]

theorem pushBids_partitions_iff {settings : Settings} (positive : 0 < settings.bidIncrement) (mode : BidMode)
    (queue : BidsQueue) (hours : Hours) :
    Partitions settings.bidIncrement (pushBids settings mode queue hours)
        (bidEntries (selectedBids mode queue hours) ++ manualEntries settings.cdoData settings.manualBids) ↔
      ¬ settings.bidIncrement ∣ (bidEntries (selectedBids mode queue hours)).length ∧
        (manualEntries settings.cdoData settings.manualBids = [] ∨
          ¬ settings.bidIncrement ∣ (manualEntries settings.cdoData settings.manualBids).length) := by
  rw [Partitions, and_iff_right (pushBids_flatten _ _ _ _), pushBids, fair_append, createBidLists_eq,
    fair_batches_iff positive]
  refine and_congr_right fun _ => ?_
  cases manual : manualEntries settings.cdoData settings.manualBids with
  | nil => simp [Fair]
  | cons first rest =>
    rw [if_pos (by simp), createBidLists_eq, fair_batches_iff positive]
    simp

theorem distributeCellList_partitions_iff (cellIdList : CellIds) (order : cellIdList.Listing) :
    Partitions 200 (distributeCellList cellIdList order) order.keys ↔ ¬ 200 ∣ order.keys.length := by
  rw [Partitions, distributeCellList, and_iff_right (flatten_batches _ _), fair_batches_iff (by norm_num)]

/-- The requests for bids and for cells divide them up exactly if their numbers
    are no multiples of what a request may carry; 0 is such a multiple, which for
    the manual bids does not matter. -/
theorem upload_batches_iff (settings : Settings) (positive : 0 < settings.bidIncrement) (mode : BidMode)
    (queue : BidsQueue) (hours : Hours) (cellIdList : CellIds) (order : cellIdList.Listing) :
    (Partitions settings.bidIncrement
        (createBidLists settings.bidIncrement (bidEntries (selectedBids mode queue hours)))
        (bidEntries (selectedBids mode queue hours)) ↔
      ¬ settings.bidIncrement ∣ (bidEntries (selectedBids mode queue hours)).length) ∧
    (Partitions settings.bidIncrement (pushBids settings mode queue hours)
        (bidEntries (selectedBids mode queue hours) ++ manualEntries settings.cdoData settings.manualBids) ↔
      ¬ settings.bidIncrement ∣ (bidEntries (selectedBids mode queue hours)).length ∧
        (manualEntries settings.cdoData settings.manualBids = [] ∨
          ¬ settings.bidIncrement ∣ (manualEntries settings.cdoData settings.manualBids).length)) ∧
    (Partitions 200 (distributeCellList cellIdList order) order.keys ↔ ¬ 200 ∣ order.keys.length) :=
  ⟨createBidLists_partitions_iff positive _, pushBids_partitions_iff positive mode queue hours,
    distributeCellList_partitions_iff cellIdList order⟩

def oneCell : CellIds := fetchIds [7]

theorem upload_batches_two_bids :
    Partitions 1000 (createBidLists 1000 (bidEntries (selectedBids .all growingQueue bothHours)))
        (bidEntries (selectedBids .all growingQueue bothHours)) ∧
      Partitions 200 (distributeCellList oneCell (SortedMap.Listing.sorted _)) ["7".toList] := by
  obtain ⟨bids, -, cells⟩ := upload_batches_iff noManualBids (by decide) .all growingQueue bothHours oneCell
    (SortedMap.Listing.sorted _)
  exact ⟨bids.mpr (by decide), cells.mpr (by decide)⟩

def noCells : CellIds := fetchIds []

/-- Without a bid and without a cell there is one request, which is empty. -/
theorem empty_upload_requested :
    createBidLists 1000 (bidEntries (selectedBids .all .empty bothHours)) = [[]] ∧
      ¬ Partitions 1000 (createBidLists 1000 (bidEntries (selectedBids .all .empty bothHours))) [] ∧
      distributeCellList noCells (SortedMap.Listing.sorted _) = [[]] ∧
      ¬ Partitions 200 (distributeCellList noCells (SortedMap.Listing.sorted _)) [] := by
  have bids : createBidLists 1000 (bidEntries (selectedBids .all .empty bothHours)) = [[]] := by decide
  have cells : distributeCellList noCells (SortedMap.Listing.sorted _) = [[]] := by decide
  have unfair : ∀ {α : Type} (size : Nat), ¬ Fair size ([[]] : List (List α)) := fun size fair =>
    absurd (fair [] (by simp)).1 (by simp)
  refine ⟨bids, ?_, cells, ?_⟩
  · rw [bids]
    exact fun partitions => unfair 1000 partitions.2
  · rw [cells]
    exact fun partitions => unfair 200 partitions.2

end Cdo.UploadBatches
