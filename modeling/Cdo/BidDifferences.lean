import Cdo.BidFiles

/-!
What `getBids` of `bidOps.pm` finds different in two files of bids. Both files are
read line by line, their headers as well, so that a cell `Id` with the bid `Bid` is
read from each of them. In the current file this is no positive number and counts
as 0, in the last file it counts as it is: whatever the two files hold, an update
of the cell `Id` is written (`update_file_has_header`). The other lines are exactly
the differences.
-/
namespace Cdo.BidDifferences
open Cdo.Text Cdo.Tables Cdo.Objective Cdo.BidCalc Cdo.BidFiles

/-! ### The two files -/

/-- The text of the last file, which may be missing. -/
def lastText (numerals : NumberText) (last : Option BidRun) (type : BidType) : Str :=
  (last.map fun run => printed (bidLines numerals run.optBids run.cell type)).getD []

def lastWritten (last : Option BidRun) (type : BidType) (id : Str) : Option Str :=
  last.bind fun run => writtenBid run type id

/-- The lines of an update file and of a change file are the differences of the
    bids: there is one for each cell that is new or whose bid is another number. -/
structure Differences (last current : Str → Option Str) (updated changes : List Str) : Prop where
  once : (updated.map fun line => column line 0).Nodup
  cells : ∀ id, id ∈ updated.map (fun line => column line 0) ↔
    ∃ bid, current id = some bid ∧ ∀ old, last id = some old → decimalValue old ≠ decimalValue bid
  carries : ∀ line ∈ updated, ∃ id bid, line = joined ',' [id, bid] ∧ current id = some bid
  same : changes.map (fun line => column line 0) = updated.map fun line => column line 0

/-! ### Bids as numbers -/

theorem decimalValue_isBid {a b : Str} (aBid : IsBid a) (bBid : IsBid b) : decimalValue a = decimalValue b ↔ a = b := by
  refine ⟨fun same => ?_, fun same => by rw [same]⟩
  have zero : decimalValue minBid = 0 := by decide +kernel
  have value : ∀ {hundredths : Int}, 0 < hundredths → decimalValue (twoDecimals hundredths) = hundredths / 100 := by
    intro hundredths positive
    obtain ⟨n, rfl⟩ := Int.eq_ofNat_of_zero_le positive.le
    exact decimalValue_hundredthsText n
  have some : ∀ {hundredths : Int}, 0 < hundredths → (hundredths / 100 : ℚ) ≠ 0 := by
    intro hundredths positive
    have cast : (hundredths : ℚ) ≠ 0 := by exact_mod_cast positive.ne'
    exact div_ne_zero cast (by norm_num)
  rcases aBid with rfl | ⟨i, iPositive, rfl⟩
  · rcases bBid with rfl | ⟨j, jPositive, rfl⟩
    · rfl
    · rw [zero, value jPositive] at same
      exact absurd same.symm (some jPositive)
  · rcases bBid with rfl | ⟨j, jPositive, rfl⟩
    · rw [zero, value iPositive] at same
      exact absurd same (some iPositive)
    · rw [value iPositive, value jPositive, div_left_inj' (by norm_num), Int.cast_inj] at same
      rw [same]

theorem lastWritten_isBid {last : Option BidRun} {type : BidType} {id text : Str}
    (written : lastWritten last type id = some text) : IsBid text := by
  obtain ⟨run, -, isWritten⟩ := Option.bind_eq_some_iff.mp written
  exact writtenBid_isBid isWritten

/-! ### Reading the files -/

section
variable {numerals : NumberText} {run : BidRun} {type : BidType}

theorem header_not_mem_cellIds : "Id".toList ∉ cellIds := by
  rintro ⟨i, isId⟩
  have letter : 'I' ∈ intText i := by rw [isId]; decide
  exact absurd letter (not_mem_intText (by decide) (by decide) i)

/-- The lines after the header begin with the id of a cell. -/
theorem id_of_line {line : Str} (member : line ∈ run.cell.entries.filterMap (cellLine numerals run.optBids type)) :
    column line 0 ∈ cellIds := by
  obtain ⟨⟨id, c⟩, isEntry, isLine⟩ := List.mem_filterMap.mp member
  have found := SortedMap.mem_entries.mp isEntry
  obtain ⟨-, isId, -⟩ := cellLine_columns found isLine
  exact isId ▸ mem_cellIds found

/-- The header is read as a bid of the cell `Id`. -/
theorem readBids_header : (readBids (printed (bidLines numerals run.optBids run.cell type))).get? "Id".toList =
    some ⟨"Bid".toList, "Cell".toList⟩ := by
  have headerBid : (⟨column (header type) 3, column (header type) 2⟩ : FiledBid) = ⟨"Bid".toList, "Cell".toList⟩ := by
    cases type <;> decide
  unfold readBids
  rw [bidLines_read, ← headerBid, ← (header_columns type).2]
  refine SortedMap.get?_ofRows_eq List.mem_cons_self fun line member first => ?_
  rcases List.mem_cons.mp member with rfl | later
  · rfl
  · rw [(header_columns type).2] at first
    exact absurd (first ▸ id_of_line later) header_not_mem_cellIds

theorem id_of_found {id : Str} {filed : FiledBid}
    (found : (readBids (printed (bidLines numerals run.optBids run.cell type))).get? id = some filed) :
    id = "Id".toList ∨ id ∈ cellIds := by
  obtain ⟨line, member, rfl, -⟩ := SortedMap.get?_ofRows_some found
  rw [bidLines_read] at member
  rcases List.mem_cons.mp member with rfl | later
  · exact .inl (header_columns type).2
  · exact .inr (id_of_line later)

theorem mem_cellIds_of_written {id text : Str} (written : writtenBid run type id = some text) : id ∈ cellIds := by
  obtain ⟨c, found, -⟩ := Option.bind_eq_some_iff.mp written
  exact mem_cellIds found

theorem readBids_lastText {last : Option BidRun} {id : Str} (isId : id ∈ cellIds) :
    ((readBids (lastText numerals last type)).get? id).map FiledBid.bid = lastWritten last type id := by
  cases last with
  | none => rfl
  | some run => exact readBids_written numerals run type isId

/-- In the current file the header counts as 0, in the last file as `Bid`, and as
    `NONE` if there is no last file. -/
theorem header_differs (last : Option BidRun) :
    currentBid (readBids (printed (bidLines numerals run.optBids run.cell type))) "Id".toList = "0".toList ∧
      lastBid (readBids (lastText numerals last type)) "Id".toList ≠ "0".toList := by
  constructor
  · rw [currentBid, bidIn, readBids_header]
    decide
  · cases last with
    | none =>
      show lastBid (readBids []) "Id".toList ≠ "0".toList
      decide
    | some other =>
      rw [lastText, Option.map_some, Option.getD_some, lastBid, bidIn, readBids_header]
      decide

end

/-! ### The lines that are written -/

def updateLine (currentBids : SortedMap Str FiledBid) (cell : Str) : Str := joined ',' [cell, currentBid currentBids cell]

def changeLine (lastBids currentBids : SortedMap Str FiledBid) (cell : Str) : Str :=
  joined ',' [cell, lpIn currentBids cell, lastBid lastBids cell, currentBid currentBids cell]

section
variable {text : Str} {id : Str}

theorem plain_nil : Plain [] := ⟨List.not_mem_nil, List.not_mem_nil⟩

theorem plain_lpIn : Plain (lpIn (readBids text) id) := by
  unfold lpIn
  cases found : (readBids text).get? id with
  | none => exact plain_nil
  | some filed =>
    obtain ⟨line, member, -, rfl⟩ := SortedMap.get?_ofRows_some found
    exact plain_column member 2

theorem plain_lastBid : Plain (lastBid (readBids text) id) := by
  unfold lastBid ifExists bidIn
  split_ifs
  · cases found : (readBids text).get? id with
    | none => exact plain_nil
    | some filed => exact (plain_readBids found).2
  · exact ⟨by decide, by decide⟩

theorem plain_updateFields {filed : FiledBid} (found : (readBids text).get? id = some filed) :
    ∀ field ∈ [id, currentBid (readBids text) id], Plain field := by
  simp only [List.forall_mem_cons]
  exact ⟨(plain_readBids found).1, plain_currentBid found, fun _ none => absurd none List.not_mem_nil⟩

theorem plain_changeFields {lastText : Str} {filed : FiledBid} (found : (readBids text).get? id = some filed) :
    ∀ field ∈ [id, lpIn (readBids text) id, lastBid (readBids lastText) id, currentBid (readBids text) id],
      Plain field := by
  simp only [List.forall_mem_cons]
  exact ⟨(plain_readBids found).1, plain_lpIn, plain_lastBid, plain_currentBid found,
    fun _ none => absurd none List.not_mem_nil⟩

end

/-- Printed lines of plain fields are read as they are. -/
theorem fileLines_joined {fieldsOf : Str → List Str} {cells : List Str}
    (plain : ∀ cell ∈ cells, ∀ field ∈ fieldsOf cell, Plain field) :
    fileLines (printed (cells.map fun cell => joined ',' (fieldsOf cell))) =
      cells.map fun cell => joined ',' (fieldsOf cell) := by
  refine fileLines_printed fun line member => ?_
  obtain ⟨cell, isCell, rfl⟩ := List.mem_map.mp member
  exact newline_joined (plain cell isCell)

section
variable {order : HashOrder} {hour lastHour : Int} {disk : Disk} {type : BidType} {lastText currentText : Str}

theorem found_of_changed {cell : Str} (changed : cell ∈ changedCells (readBids lastText) (readBids currentText)
    (order (readBids currentText))) : ∃ filed, (readBids currentText).get? cell = some filed :=
  (order _).mem_keys.mp (List.mem_of_mem_filter changed)

theorem fileLines_updated (isLast : disk.read lastHour (.bids type) = lastText)
    (isCurrent : disk.read hour (.bids type) = currentText) :
    fileLines ((getBids order hour lastHour disk type).read hour (.updated type)) =
      (changedCells (readBids lastText) (readBids currentText) (order _)).map (updateLine (readBids currentText)) := by
  subst isLast isCurrent
  rw [getBids_updated, if_pos rfl, sentBids, List.map_map]
  refine fileLines_joined fun cell changed => ?_
  obtain ⟨filed, found⟩ := found_of_changed changed
  exact plain_updateFields found

theorem fileLines_changed (isLast : disk.read lastHour (.bids type) = lastText)
    (isCurrent : disk.read hour (.bids type) = currentText) :
    fileLines ((getBids order hour lastHour disk type).read hour (.changed type)) =
      (changedCells (readBids lastText) (readBids currentText) (order _)).map
        (changeLine (readBids lastText) (readBids currentText)) := by
  subst isLast isCurrent
  have text : (getBids order hour lastHour disk type).read hour (.changed type) =
      printed ((changedCells (readBids (disk.read lastHour (.bids type))) (readBids (disk.read hour (.bids type)))
        (order _)).map (changeLine (readBids (disk.read lastHour (.bids type)))
          (readBids (disk.read hour (.bids type))))) := by
    simp [getBids, Disk.read_write]
    rfl
  rw [text]
  refine fileLines_joined fun cell changed => ?_
  obtain ⟨filed, found⟩ := found_of_changed changed
  exact plain_changeFields found

end

section
variable {numerals : NumberText} {last : Option BidRun} {current : BidRun} {type : BidType}

/-- The cells whose bids are compared as different, apart from that of the header. -/
theorem mem_changedCells {id : Str} (isId : id ∈ cellIds)
    (order : (readBids (printed (bidLines numerals current.optBids current.cell type))).Listing) :
    id ∈ changedCells (readBids (lastText numerals last type))
        (readBids (printed (bidLines numerals current.optBids current.cell type))) order ↔
      ∃ bid, writtenBid current type id = some bid ∧
        ∀ old, lastWritten last type id = some old → decimalValue old ≠ decimalValue bid := by
  have sent : ∀ text, (id, text) ∈ sentBids (readBids (lastText numerals last type))
      (readBids (printed (bidLines numerals current.optBids current.cell type))) order ↔
        writtenBid current type id = some text ∧ lastWritten last type id ≠ some text := fun text => by
    rw [mem_sentBids_iff _ _ order, readBids_lastText isId, readBids_written numerals current type isId]
    · rw [readBids_lastText isId]
      exact fun old => lastWritten_isBid
    · rw [readBids_written numerals current type isId]
      exact fun new => writtenBid_isBid
  have other : ∀ {bid}, IsBid bid → (lastWritten last type id ≠ some bid ↔
      ∀ old, lastWritten last type id = some old → decimalValue old ≠ decimalValue bid) := fun {bid} isBid => by
    constructor
    · intro differs old isOld same
      rw [decimalValue_isBid (lastWritten_isBid isOld) isBid] at same
      exact differs (same ▸ isOld)
    · exact fun differs same => differs bid same rfl
  constructor
  · intro changed
    have pair : (id, _) ∈ sentBids _ _ order := List.mem_map_of_mem changed
    obtain ⟨written, differs⟩ := (sent _).mp pair
    exact ⟨_, written, (other (writtenBid_isBid written)).mp differs⟩
  · rintro ⟨bid, written, differs⟩
    have pair := (sent bid).mpr ⟨written, (other (writtenBid_isBid written)).mpr differs⟩
    obtain ⟨cell, changed, same⟩ := List.mem_map.mp pair
    rwa [← (Prod.mk.inj same).1]

theorem nodup_changedCells (lastBids : SortedMap Str FiledBid) {currentBids : SortedMap Str FiledBid}
    (order : currentBids.Listing) : (changedCells lastBids currentBids order).Nodup :=
  (SortedMap.Listing.nodup _ order).filter _

theorem header_changed (order : (readBids (printed (bidLines numerals current.optBids current.cell type))).Listing) :
    "Id".toList ∈ changedCells (readBids (lastText numerals last type))
      (readBids (printed (bidLines numerals current.optBids current.cell type))) order := by
  obtain ⟨isZero, differs⟩ := @header_differs numerals current type last
  refine List.mem_filter.mpr ⟨order.mem_keys.mpr ⟨_, readBids_header⟩, ?_⟩
  rw [isZero]
  exact decide_eq_true differs.symm

/-- Without the header the cells that are compared as different are the cells of the
    differences. -/
theorem changedCells_split
    (order : (readBids (printed (bidLines numerals current.optBids current.cell type))).Listing) :
    ∃ before later, changedCells (readBids (lastText numerals last type))
        (readBids (printed (bidLines numerals current.optBids current.cell type))) order =
          before ++ "Id".toList :: later ∧ (before ++ later).Nodup ∧
      ∀ id, id ∈ before ++ later ↔ ∃ bid, writtenBid current type id = some bid ∧
        ∀ old, lastWritten last type id = some old → decimalValue old ≠ decimalValue bid := by
  obtain ⟨before, later, split⟩ := List.append_of_mem (@header_changed numerals last current type order)
  have nodup := nodup_changedCells (readBids (lastText numerals last type)) order
  rw [split, List.nodup_middle, List.nodup_cons] at nodup
  refine ⟨before, later, split, nodup.2, fun id => ?_⟩
  have member : ∀ {cell}, cell ≠ "Id".toList → (cell ∈ before ++ later ↔
      cell ∈ changedCells (readBids (lastText numerals last type))
        (readBids (printed (bidLines numerals current.optBids current.cell type))) order) := fun {cell} other => by
    rw [split, List.mem_append, List.mem_append, List.mem_cons, or_iff_right other]
  constructor
  · intro isMember
    have other : id ≠ "Id".toList := fun same => nodup.1 (same ▸ isMember)
    have changed := (member other).mp isMember
    obtain ⟨filed, found⟩ := order.mem_keys.mp (List.mem_of_mem_filter changed)
    have isId := (id_of_found found).resolve_left other
    exact (mem_changedCells isId order).mp changed
  · rintro ⟨bid, written, differs⟩
    have isId := mem_cellIds_of_written written
    have other : id ≠ "Id".toList := fun same => header_not_mem_cellIds (same ▸ isId)
    exact (member other).mpr ((mem_changedCells isId order).mpr ⟨bid, written, differs⟩)

end

/-- Lines for such cells are the differences. -/
theorem differences_of_cells {last current : Str → Option Str} {lastBids currentBids : SortedMap Str FiledBid}
    {cells : List Str} (nodup : cells.Nodup)
    (isChanged : ∀ id, id ∈ cells ↔ ∃ bid, current id = some bid ∧
      ∀ old, last id = some old → decimalValue old ≠ decimalValue bid)
    (updatedColumn : ∀ cell ∈ cells, column (updateLine currentBids cell) 0 = cell)
    (changedColumn : ∀ cell ∈ cells, column (changeLine lastBids currentBids cell) 0 = cell)
    (carried : ∀ cell ∈ cells, ∀ bid, current cell = some bid → currentBid currentBids cell = bid) :
    Differences last current (cells.map (updateLine currentBids)) (cells.map (changeLine lastBids currentBids)) := by
  have updatedCells : (cells.map (updateLine currentBids)).map (fun line => column line 0) = cells := by
    rw [List.map_map]
    exact (List.map_congr_left updatedColumn).trans (List.map_id cells)
  have changes : (cells.map (changeLine lastBids currentBids)).map (fun line => column line 0) = cells := by
    rw [List.map_map]
    exact (List.map_congr_left changedColumn).trans (List.map_id cells)
  refine ⟨updatedCells.symm ▸ nodup, fun id => ?_, fun line member => ?_, changes.trans updatedCells.symm⟩
  · rw [updatedCells]
    exact isChanged id
  · obtain ⟨cell, isCell, rfl⟩ := List.mem_map.mp member
    obtain ⟨bid, isBid, -⟩ := (isChanged cell).mp isCell
    exact ⟨cell, bid, by rw [updateLine, carried cell isCell bid isBid], isBid⟩

section
variable {numerals : NumberText} {order : HashOrder} {hour lastHour : Int} {disk : Disk} {type : BidType}
  {last : Option BidRun} {current : BidRun}

/-- Whatever the two files hold, the files that are written are not the differences: they
    have a line for the header, and without it they are the differences. -/
theorem update_file_has_header (isLast : disk.read lastHour (.bids type) = lastText numerals last type)
    (isCurrent : disk.read hour (.bids type) = printed (bidLines numerals current.optBids current.cell type)) :
    let updated := fileLines ((getBids order hour lastHour disk type).read hour (.updated type))
    let changes := fileLines ((getBids order hour lastHour disk type).read hour (.changed type))
    ¬ Differences (lastWritten last type) (writtenBid current type) updated changes ∧
      ∃ before later before' headerChange later',
        updated = before ++ "Id,0".toList :: later ∧ changes = before' ++ headerChange :: later' ∧
        column headerChange 0 = "Id".toList ∧
        Differences (lastWritten last type) (writtenBid current type) (before ++ later) (before' ++ later') := by
  intro updated changes
  obtain ⟨before, later, split, nodup, isChanged⟩ := @changedCells_split numerals last current type (order _)
  have found : ∀ cell ∈ before ++ "Id".toList :: later, ∃ filed,
      (readBids (printed (bidLines numerals current.optBids current.cell type))).get? cell = some filed := by
    intro cell member
    rw [← split] at member
    exact (order _).mem_keys.mp (List.mem_of_mem_filter member)
  have updatedSplit := @fileLines_updated order hour lastHour disk type _ _ isLast isCurrent
  have changesSplit := @fileLines_changed order hour lastHour disk type _ _ isLast isCurrent
  rw [split, List.map_append, List.map_cons] at updatedSplit changesSplit
  have headerLine := updatedSplit
  rw [updateLine, (header_differs last).1] at headerLine
  constructor
  · intro differences
    have spurious : "Id,0".toList ∈ updated := by
      rw [show updated = _ from headerLine]
      exact List.mem_append_right _ List.mem_cons_self
    obtain ⟨bid, written, -⟩ := (differences.cells "Id".toList).mp (List.mem_map_of_mem spurious)
    exact header_not_mem_cellIds (mem_cellIds_of_written written)
  · obtain ⟨filed, isFiled⟩ := found "Id".toList (List.mem_append_right _ List.mem_cons_self)
    refine ⟨_, _, _, _, _, headerLine, changesSplit, column_joined (by simp) (plain_changeFields isFiled) 0, ?_⟩
    rw [← List.map_append, ← List.map_append]
    have member : ∀ cell ∈ before ++ later, cell ∈ before ++ "Id".toList :: later := fun cell member =>
      List.mem_append.mpr ((List.mem_append.mp member).imp_right (List.mem_cons_of_mem _))
    refine differences_of_cells nodup isChanged (fun cell isCell => ?_) (fun cell isCell => ?_)
      fun cell isCell bid written => ?_
    · obtain ⟨filed, isFiled⟩ := found cell (member cell isCell)
      exact column_joined (by simp) (plain_updateFields isFiled) 0
    · obtain ⟨filed, isFiled⟩ := found cell (member cell isCell)
      exact column_joined (by simp) (plain_changeFields isFiled) 0
    · have isRead := readBids_written numerals current type (mem_cellIds_of_written written)
      exact currentBid_of_isBid (isRead.trans written) (writtenBid_isBid written)

end

/-- A run and the files of its bids in the folder of hour 9. -/
def firstFiles : Disk := writeBids threeDecimals threeRuns.2.optBids threeRuns.2.cell 9 fun _ _ => none

/-- The same bids were written at hour 5. -/
def sameFiles : Disk := writeBids threeDecimals threeRuns.2.optBids threeRuns.2.cell 5 firstFiles

theorem update_file_of_same_bids :
    ¬ Differences (lastWritten (some threeRuns.2) .opt) (writtenBid threeRuns.2 .opt)
        (fileLines ((getBids threeRuns.2.order 9 5 sameFiles .opt).read 9 (.updated .opt)))
        (fileLines ((getBids threeRuns.2.order 9 5 sameFiles .opt).read 9 (.changed .opt))) ∧
      ∃ before later, fileLines ((getBids threeRuns.2.order 9 5 sameFiles .opt).read 9 (.updated .opt)) =
        before ++ "Id,0".toList :: later := by
  have isLast : sameFiles.read 5 (.bids .opt) = lastText threeDecimals (some threeRuns.2) .opt := by
    simp [sameFiles, writeBids, Disk.read_write, lastText]
  have isCurrent : sameFiles.read 9 (.bids .opt) =
      printed (bidLines threeDecimals threeRuns.2.optBids threeRuns.2.cell .opt) := by
    simp [sameFiles, firstFiles, writeBids, Disk.read_write]
  obtain ⟨differ, before, later, -, -, -, split, -⟩ :=
    @update_file_has_header threeDecimals threeRuns.2.order 9 5 sameFiles .opt (some threeRuns.2) threeRuns.2 isLast isCurrent
  exact ⟨differ, before, later, split⟩

theorem header_line_written : ¬ Differences (lastWritten none .opt) (writtenBid threeRuns.2 .opt)
    (fileLines ((getBids threeRuns.2.order 9 8 firstFiles .opt).read 9 (.updated .opt)))
    (fileLines ((getBids threeRuns.2.order 9 8 firstFiles .opt).read 9 (.changed .opt))) := by
  intro differences
  have listed : "Id".toList ∈ (fileLines ((getBids threeRuns.2.order 9 8 firstFiles .opt).read 9 (.updated .opt))).map
      fun line => column line 0 := by
    decide +kernel
  obtain ⟨bid, written, -⟩ := (differences.cells _).mp listed
  have absent : writtenBid threeRuns.2 .opt "Id".toList = none := by decide +kernel
  exact Option.some_ne_none bid (written.symm.trans absent)

end Cdo.BidDifferences
