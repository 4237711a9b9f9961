import Cdo.Tables
import Cdo.KeyedTable
import Cdo.DeltaSync
import Cdo.Batches

/-!
The upload of queued bids (`pushBids` of `bidUploader.pm`). In the mode `CHANGED`
only those cells are sent whose bid differs from the one of the hour before, in
the other mode all cells of the hour. The bids go out in requests of at most
`bidIncrement` entries (`createBidLists_flatten`), followed by the manual bids. The
query for the changed bids joins the two hours, so that a cell without a bid in
the hour before, and one whose bid became or was NULL, is never sent
(`changed_as_good_iff`).
-/
namespace Cdo.BidUploader
open Cdo.Text Cdo.Query Cdo.Tables Cdo.DeltaSync Cdo.Batches

/-! ### The queue -/

/-- A row of `DisplayBidsQueueAol`; the bid is in hundredths. -/
structure QueuedBid where
  cellid : Int
  date : Date
  hour : Int
  bid : Option Int
deriving DecidableEq

def QueuedBid.key (row : QueuedBid) : Int × Date × Int := (row.cellid, row.date, row.hour)

abbrev BidsQueue := KeyedTable QueuedBid.key

def queuedAt (queue : BidsQueue) (date : Date) (hour : Int) : List QueuedBid :=
  queue.rows.filter fun row => row.date == date && row.hour == hour

inductive BidMode where
  | changed | all
deriving DecidableEq

/-- `this.bid <> last.bid`, which does not hold if one of the two is NULL. -/
def differs : Option Int → Option Int → Bool
  | some this, some last => this != last
  | _, _ => false

/-- The date and hour of a run and those of the one before. -/
structure Hours where
  date : Date
  hour : Int
  lastDate : Date
  lastHour : Int

def Hours.current (hours : Hours) (queue : BidsQueue) : List QueuedBid := queuedAt queue hours.date hours.hour

def Hours.last (hours : Hours) (queue : BidsQueue) : List QueuedBid := queuedAt queue hours.lastDate hours.lastHour

def selectedBids (mode : BidMode) (queue : BidsQueue) (hours : Hours) : List QueuedBid :=
  match mode with
  | .changed => (join (fun this last : QueuedBid => this.cellid == last.cellid && differs this.bid last.bid)
      (hours.current queue) (hours.last queue)).map Prod.fst
  | .all => hours.current queue

/-! ### Requests -/

/-- The cell and the amount of a bid in a request. -/
abbrev BidEntry := Str × Str

/-- `sprintf("%.2f")` of a bid; NULL prints as zero. -/
def amount (bid : Option Int) : Str := twoDecimals (num bid)

/-- The entries of the fetched rows, in the order of their sorted keys. -/
def bidEntries (rows : List QueuedBid) : List BidEntry :=
  (SortedMap.ofRows (fun row : QueuedBid => intText row.cellid) (fun row => amount row.bid) rows).entries

/-- The state of the loop that fills the requests. -/
structure Upload where
  blockCounter : Nat
  xmlBody : List BidEntry
  requests : List (List BidEntry)

def addBid (bidIncrement : Nat) (upload : Upload) (entry : BidEntry) : Upload :=
  let blockCounter := upload.blockCounter + 1
  let xmlBody := upload.xmlBody ++ [entry]
  if blockCounter = bidIncrement then ⟨0, [], upload.requests ++ [xmlBody]⟩
  else ⟨blockCounter, xmlBody, upload.requests⟩

/-- The requests for the entries; the last one has what the loop left over. -/
def createBidLists (bidIncrement : Nat) (entries : List BidEntry) : List (List BidEntry) :=
  let upload := entries.foldl (addBid bidIncrement) ⟨0, [], []⟩
  upload.requests ++ [upload.xmlBody]

/-! ### Manual bids -/

/-- A row of `cdoDataAOL`. -/
structure DataCell where
  id : Int
  adid : Int
  siteid : Int
  segmentid : Int

/-- A row of `ManualBidsAOL`, with its bid as `sprintf("%.2f")` prints it. -/
structure ManualBid where
  adid : Int
  siteid : Int
  segmentid : Int
  amount : Str

def manualEntries (cdoData : List DataCell) (manualBids : List ManualBid) : List BidEntry :=
  (SortedMap.ofRows (fun pair : DataCell × ManualBid => intText pair.1.id) (fun pair => pair.2.amount)
    (join (fun (cdo : DataCell) (m : ManualBid) =>
      cdo.adid == m.adid && cdo.siteid == m.siteid && cdo.segmentid == m.segmentid) cdoData manualBids)).entries

/-- What an upload reads besides the queue. -/
structure Settings where
  bidIncrement : Nat
  cdoData : List DataCell
  manualBids : List ManualBid

def pushBids (settings : Settings) (mode : BidMode) (queue : BidsQueue) (hours : Hours) : List (List BidEntry) :=
  let manual := manualEntries settings.cdoData settings.manualBids
  createBidLists settings.bidIncrement (bidEntries (selectedBids mode queue hours)) ++
    (if 0 < manual.length then createBidLists settings.bidIncrement manual else [])

/-- The bids of the ad server after requests. -/
def serverAfter (server : Str → Option Str) (requests : List (List BidEntry)) : Str → Option Str :=
  applied server requests.flatten

/-! ### What is sent -/

def Upload.block (upload : Upload) : Block BidEntry := ⟨upload.blockCounter, upload.xmlBody, upload.requests⟩

theorem addBid_block (bidIncrement : Nat) (upload : Upload) (entry : BidEntry) :
    upload.block.add bidIncrement entry = (addBid bidIncrement upload entry).block := by
  by_cases full : upload.blockCounter + 1 = bidIncrement
  · simp [Block.add, addBid, Upload.block, full]
  · simp [Block.add, addBid, Upload.block, full]

theorem createBidLists_eq (bidIncrement : Nat) (entries : List BidEntry) :
    createBidLists bidIncrement entries = batches bidIncrement entries := by
  have loop : entries.foldl (Block.add bidIncrement) (Upload.block ⟨0, [], []⟩) =
      (entries.foldl (addBid bidIncrement) ⟨0, [], []⟩).block :=
    List.foldl_hom Upload.block (addBid_block bidIncrement)
  exact (congrArg Block.all loop).symm

/-- The requests carry every entry once, in order. -/
theorem createBidLists_flatten (bidIncrement : Nat) (entries : List BidEntry) :
    (createBidLists bidIncrement entries).flatten = entries := by
  rw [createBidLists_eq, flatten_batches]

theorem pushBids_flatten (settings : Settings) (mode : BidMode) (queue : BidsQueue) (hours : Hours) :
    (pushBids settings mode queue hours).flatten =
      bidEntries (selectedBids mode queue hours) ++ manualEntries settings.cdoData settings.manualBids := by
  rw [pushBids, List.flatten_append, createBidLists_flatten]
  cases manual : manualEntries settings.cdoData settings.manualBids with
  | nil => simp
  | cons first rest => rw [if_pos (by simp), createBidLists_flatten]

section
variable {queue : BidsQueue} {hours : Hours}

theorem mem_queuedAt {date : Date} {hour : Int} {row : QueuedBid} :
    row ∈ queuedAt queue date hour ↔ row ∈ queue.rows ∧ row.date = date ∧ row.hour = hour := by
  simp [queuedAt]

/-- A cell has one bid in an hour. -/
theorem queuedAt_unique {date : Date} {hour : Int} {row other : QueuedBid} (member : row ∈ queuedAt queue date hour)
    (otherMember : other ∈ queuedAt queue date hour) (same : row.cellid = other.cellid) : row = other := by
  obtain ⟨inQueue, rowDate, rowHour⟩ := mem_queuedAt.mp member
  obtain ⟨otherIn, otherDate, otherHour⟩ := mem_queuedAt.mp otherMember
  refine queue.eq_of_key inQueue otherIn ?_
  simp [QueuedBid.key, same, rowDate, rowHour, otherDate, otherHour]

theorem mem_selectedBids_changed {row : QueuedBid} :
    row ∈ selectedBids .changed queue hours ↔ row ∈ hours.current queue ∧
      ∃ last ∈ hours.last queue, last.cellid = row.cellid ∧ differs row.bid last.bid = true := by
  simp only [selectedBids, List.mem_map, mem_join, Bool.and_eq_true, beq_iff_eq]
  constructor
  · rintro ⟨⟨this, last⟩, ⟨current, before, same, differ⟩, rfl⟩
    exact ⟨current, last, before, same.symm, differ⟩
  · rintro ⟨current, last, before, same, differ⟩
    exact ⟨(row, last), ⟨current, before, same.symm, differ⟩, rfl⟩

theorem selectedBids_subset {mode : BidMode} {row : QueuedBid} (member : row ∈ selectedBids mode queue hours) :
    row ∈ hours.current queue := by
  cases mode with
  | changed => exact (mem_selectedBids_changed.mp member).1
  | all => exact member

/-- The amount that is sent for a cell of the hour is that of its row, if the
    row is selected. -/
theorem mem_bidEntries {mode : BidMode} {row : QueuedBid} (current : row ∈ hours.current queue) {text : Str} :
    (intText row.cellid, text) ∈ bidEntries (selectedBids mode queue hours) ↔
      row ∈ selectedBids mode queue hours ∧ text = amount row.bid := by
  rw [bidEntries, SortedMap.mem_entries]
  constructor
  · intro found
    obtain ⟨other, member, same, isText⟩ := SortedMap.get?_ofRows_some found
    obtain rfl := queuedAt_unique (selectedBids_subset member) current (intText_injective same)
    exact ⟨member, isText.symm⟩
  · rintro ⟨member, rfl⟩
    refine SortedMap.get?_ofRows_eq member fun other otherMember same => ?_
    rw [queuedAt_unique (selectedBids_subset otherMember) current (intText_injective same)]

/-- A cell of the hour has the amount of its row after the upload, or what the
    server had if the row is not selected. -/
theorem applied_selected (server : Str → Option Str) (mode : BidMode) {row : QueuedBid}
    (current : row ∈ hours.current queue) :
    applied server (bidEntries (selectedBids mode queue hours)) (intText row.cellid) =
      if row ∈ selectedBids mode queue hours then some (amount row.bid) else server (intText row.cellid) := by
  by_cases selected : row ∈ selectedBids mode queue hours
  · rw [if_pos selected]
    refine applied_of_sent ((mem_bidEntries current).mpr ⟨selected, rfl⟩) fun text sent => ?_
    exact ((mem_bidEntries current).mp sent).2
  · rw [if_neg selected]
    exact applied_of_unsent fun text sent => selected ((mem_bidEntries current).mp sent).1

/-- The server has the bids of the hour before. -/
def HasLast (server : Str → Option Str) (queue : BidsQueue) (hours : Hours) : Prop :=
  ∀ last ∈ hours.last queue, server (intText last.cellid) = some (amount last.bid)

/-- The cell was in the hour before with a bid that can be compared, or one that
    prints the same; or it was not, and the server happens to have its bid. -/
def UpToDate (server : Str → Option Str) (queue : BidsQueue) (hours : Hours) (row : QueuedBid) : Prop :=
  (∃ last ∈ hours.last queue, last.cellid = row.cellid ∧
      (num last.bid = num row.bid ∨ (last.bid ≠ none ∧ row.bid ≠ none))) ∨
    ((∀ last ∈ hours.last queue, last.cellid ≠ row.cellid) ∧ server (intText row.cellid) = some (amount row.bid))

theorem amount_eq_iff {bid bid' : Option Int} : amount bid = amount bid' ↔ num bid = num bid' :=
  ⟨twoDecimals_injective, congrArg twoDecimals⟩

/-- A bid that differs is sent, or else it is NULL or was. -/
theorem differs_of_ne {this last : Option Int} (differ : num last ≠ num this) (lastBid : last ≠ none) (bid : this ≠ none) :
    differs this last = true := by
  cases this with
  | none => exact absurd rfl bid
  | some this =>
    cases last with
    | none => exact absurd rfl lastBid
    | some last => simpa [differs] using fun same => differ same.symm

theorem not_none_of_differs {this last : Option Int} (differ : differs this last = true) : last ≠ none ∧ this ≠ none := by
  cases this <;> cases last <;> simp_all [differs]

/-- A cell with a bid of the hour before gets its bid if the two bids are the same
    or can be compared. -/
theorem changed_reaches_known {server : Str → Option Str} (hasLast : HasLast server queue hours) {row last : QueuedBid}
    (current : row ∈ hours.current queue) (before : last ∈ hours.last queue) (same : last.cellid = row.cellid) :
    applied server (bidEntries (selectedBids .changed queue hours)) (intText row.cellid) = some (amount row.bid) ↔
      num last.bid = num row.bid ∨ (last.bid ≠ none ∧ row.bid ≠ none) := by
  have selected_iff : row ∈ selectedBids .changed queue hours ↔ differs row.bid last.bid = true := by
    rw [mem_selectedBids_changed]
    constructor
    · rintro ⟨-, other, otherBefore, otherSame, differ⟩
      rwa [queuedAt_unique otherBefore before (otherSame.trans same.symm)] at differ
    · exact fun differ => ⟨current, last, before, same, differ⟩
  rw [applied_selected server .changed current]
  by_cases differ : differs row.bid last.bid = true
  · rw [if_pos (selected_iff.mpr differ)]
    exact iff_of_true rfl (.inr (not_none_of_differs differ))
  · have had : server (intText row.cellid) = some (amount last.bid) := same ▸ hasLast last before
    rw [if_neg fun selected => differ (selected_iff.mp selected), had, Option.some.injEq, amount_eq_iff]
    constructor
    · exact .inl
    · rintro (equal | ⟨lastBid, bid⟩)
      · exact equal
      · by_contra unequal
        exact differ (differs_of_ne unequal lastBid bid)

/-- A cell without a bid of the hour before is left with what the server had. -/
theorem changed_leaves_new (server : Str → Option Str) {row : QueuedBid} (current : row ∈ hours.current queue)
    (unknown : ∀ last ∈ hours.last queue, last.cellid ≠ row.cellid) :
    applied server (bidEntries (selectedBids .changed queue hours)) (intText row.cellid) =
      server (intText row.cellid) := by
  have unselected : row ∉ selectedBids .changed queue hours := by
    intro selected
    obtain ⟨-, last, before, same, -⟩ := mem_selectedBids_changed.mp selected
    exact unknown last before same
  rw [applied_selected server .changed current, if_neg unselected]

/-- Without a manual bid, the changed bids leave the cell with its bid exactly if
    it is up to date. -/
theorem changed_reaches_iff {server : Str → Option Str} (hasLast : HasLast server queue hours) {row : QueuedBid}
    (current : row ∈ hours.current queue) :
    applied server (bidEntries (selectedBids .changed queue hours)) (intText row.cellid) = some (amount row.bid) ↔
      UpToDate server queue hours row := by
  constructor
  · intro reached
    by_cases known : ∃ last ∈ hours.last queue, last.cellid = row.cellid
    · obtain ⟨last, before, same⟩ := known
      exact .inl ⟨last, before, same, (changed_reaches_known hasLast current before same).mp reached⟩
    · have unknown : ∀ last ∈ hours.last queue, last.cellid ≠ row.cellid := fun last before same =>
        known ⟨last, before, same⟩
      rw [changed_leaves_new server current unknown] at reached
      exact .inr ⟨unknown, reached⟩
  · rintro (⟨last, before, same, comparable⟩ | ⟨unknown, had⟩)
    · exact (changed_reaches_known hasLast current before same).mpr comparable
    · rw [changed_leaves_new server current unknown, had]

/-- Where the server has the bids of the hour before, the changed bids leave it
    as all bids do exactly if every cell of the hour has a manual bid or is up to
    date. -/
theorem changed_as_good_iff (settings : Settings) {server : Str → Option Str} (hasLast : HasLast server queue hours) :
    (∀ row ∈ hours.current queue,
        serverAfter server (pushBids settings .changed queue hours) (intText row.cellid) =
          serverAfter server (pushBids settings .all queue hours) (intText row.cellid)) ↔
      ∀ row ∈ hours.current queue,
        intText row.cellid ∈ (manualEntries settings.cdoData settings.manualBids).map Prod.fst ∨
          UpToDate server queue hours row := by
  refine forall₂_congr fun row current => ?_
  have all : applied server (bidEntries (selectedBids .all queue hours)) (intText row.cellid) = some (amount row.bid) := by
    have selected : row ∈ selectedBids .all queue hours := current
    rw [applied_selected server .all current, if_pos selected]
  simp only [serverAfter, pushBids_flatten, applied_append]
  by_cases manual : intText row.cellid ∈ (manualEntries settings.cdoData settings.manualBids).map Prod.fst
  · exact ⟨fun _ => .inl manual, fun _ => applied_congr (.inl manual)⟩
  · have unsent : ∀ text, (intText row.cellid, text) ∉ manualEntries settings.cdoData settings.manualBids :=
      fun text sent => manual (List.mem_map_of_mem sent)
    rw [applied_of_unsent unsent, applied_of_unsent unsent, all, changed_reaches_iff hasLast current]
    exact ⟨.inr, fun holds => holds.resolve_left manual⟩

end

/-! ### A new cell -/

def noManualBids : Settings := ⟨1000, [], []⟩

def bothHours : Hours := ⟨15000, 7, 15000, 6⟩

/-- Cell 1 is queued in both hours with other bids, cell 2 with the same one. -/
def steadyQueue : BidsQueue :=
  ⟨[⟨1, 15000, 6, some 120⟩, ⟨2, 15000, 6, some 80⟩, ⟨1, 15000, 7, some 130⟩, ⟨2, 15000, 7, some 80⟩], by decide⟩

/-- Cell 2 is queued in the second hour only. -/
def growingQueue : BidsQueue := ⟨[⟨1, 15000, 6, some 120⟩, ⟨1, 15000, 7, some 130⟩, ⟨2, 15000, 7, some 80⟩], by decide⟩

/-- The server has a bid for cell 1 and an old one for cell 2. -/
def serverOf (second : Int) : Str → Option Str :=
  Function.update (fun _ => some (amount (some second))) (intText 1) (some (amount (some 120)))

theorem changed_as_good_steady :
    HasLast (serverOf 80) steadyQueue bothHours ∧ ∀ row ∈ bothHours.current steadyQueue,
      serverAfter (serverOf 80) (pushBids noManualBids .changed steadyQueue bothHours) (intText row.cellid) =
        serverAfter (serverOf 80) (pushBids noManualBids .all steadyQueue bothHours) (intText row.cellid) := by
  have hasLast : HasLast (serverOf 80) steadyQueue bothHours := by
    unfold HasLast
    decide
  refine ⟨hasLast, (changed_as_good_iff noManualBids hasLast).mpr fun row current => .inr (.inl ?_)⟩
  revert row current
  decide

/-- A cell that was not queued in the hour before keeps the bid that the server
    had. -/
theorem new_cell_not_sent :
    HasLast (serverOf 50) growingQueue bothHours ∧ (⟨2, 15000, 7, some 80⟩ : QueuedBid) ∈ bothHours.current growingQueue ∧
      serverAfter (serverOf 50) (pushBids noManualBids .changed growingQueue bothHours) (intText 2) = some "0.50".toList ∧
      serverAfter (serverOf 50) (pushBids noManualBids .all growingQueue bothHours) (intText 2) = some "0.80".toList := by
  refine ⟨?_, by decide, by decide, by decide⟩
  unfold HasLast
  decide

end Cdo.BidUploader
