import Cdo.NewCells

/-!
The replacement of the cells by the active ones (`updateNetwork` of
`cellOps.pm`). The active rows of `cdoCells` are copied to `cdoCellsTemp`, then
the table is dropped and the copy renamed. Every statement can fail, and a
statement for which the tables are not as it needs them fails. Only the copy is
checked. A table `cdoCellsTemp` that an earlier run left behind is filled up
rather than created anew, so that its rows come back as cells, and a rename that
fails after the drop leaves no cells at all (`swap_all_or_nothing_iff`).
-/
namespace Cdo.NetworkSwap
open Cdo.Tables Cdo.NewCells

structure Database where
  cdoCells : Option CellTable
  cdoCellsTemp : Option CellTable

/-- The statements that fail by themselves; the copy after a number of rows. -/
structure Faults where
  create : Bool
  copy : Option Nat
  drop : Bool
  rename : Bool

/-! ### The statements -/

def createTemp (faults : Faults) (db : Database) : Database :=
  if faults.create || db.cdoCellsTemp.isSome then db else { db with cdoCellsTemp := some KeyedTable.empty }

/-- The row that is inserted for an active cell; `active` and `new` have their
    defaults. -/
def copied (row : CdoCell) : CdoCell := { row with active := some 1, new := some 0 }

def activeRows (cells : CellTable) : List CdoCell := (cells.rows.filter fun row => row.active == some 1).map copied

/-- The copy of the active rows, and its error. -/
def copyActive (faults : Faults) (db : Database) : Database × Bool :=
  match db.cdoCells, db.cdoCellsTemp with
  | some cells, some temp =>
    match faults.copy with
    | some number => ({ db with cdoCellsTemp := some (temp.insert ((activeRows cells).take number)).1 }, true)
    | none =>
      let inserted := temp.insert (activeRows cells)
      ({ db with cdoCellsTemp := some inserted.1 }, !inserted.2)
  | _, _ => (db, true)

def dropCells (faults : Faults) (db : Database) : Database :=
  if faults.drop then db else { db with cdoCells := none }

/-- The rename needs the copy, and no table of the new name. -/
def renameTemp (faults : Faults) (db : Database) : Database :=
  match db.cdoCells, db.cdoCellsTemp with
  | none, some temp => if faults.rename then db else ⟨some temp, none⟩
  | _, _ => db

/-- The databases after each statement that is executed. -/
def updateNetworkSteps (faults : Faults) (db : Database) : List Database :=
  let created := createTemp faults db
  let copy := copyActive faults created
  if copy.2 then [created, copy.1]
  else [created, copy.1, dropCells faults copy.1, renameTemp faults (dropCells faults copy.1)]

def updateNetwork (faults : Faults) (db : Database) : Database := (updateNetworkSteps faults db).getLastD db

/-! ### All or nothing -/

/-- The cells are as before or exactly the previously active ones, and no cell
    is active that was not. -/
structure AllOrNothing (before : CellTable) (db : Database) : Prop where
  exists_cells : ∃ cells, db.cdoCells = some cells
  swapped : ∀ cells, db.cdoCells = some cells → cells.rows.Perm before.rows ∨ cells.rows.Perm (activeRows before)
  revived : ∀ cells, db.cdoCells = some cells → ∀ row ∈ cells.rows, row.active = some 1 →
    ∃ old ∈ before.rows, old.cellid = row.cellid ∧ old.active = some 1

/-- The rows that an earlier run left behind. -/
def leftover (db : Database) : List CdoCell := (db.cdoCellsTemp.map KeyedTable.rows).getD []

/-- The copy succeeds: there is a table to copy to, and it has none of the
    active cells. -/
def Copies (faults : Faults) (before : CellTable) (db : Database) : Prop :=
  (db.cdoCellsTemp.isSome = true ∨ faults.create = false) ∧ faults.copy = none ∧
    ∀ row ∈ before.rows, row.active = some 1 → ∀ old ∈ leftover db, old.cellid ≠ row.cellid

section
variable {faults : Faults} {before : CellTable} {db : Database}

theorem activeRows_keys : ((activeRows before).map CdoCell.cellid).Nodup := by
  have keys : (activeRows before).map CdoCell.cellid =
      (before.rows.filter fun row => row.active == some 1).map CdoCell.cellid := by
    simp [activeRows, copied]
  rw [keys]
  exact (List.filter_sublist.map _).nodup before.nodup

theorem allOrNothing_of_swapped {cells : CellTable} (isCells : db.cdoCells = some cells)
    (swapped : cells.rows.Perm before.rows ∨ cells.rows.Perm (activeRows before)) : AllOrNothing before db := by
  refine ⟨⟨cells, isCells⟩, ?_, ?_⟩
  · intro other isOther
    obtain rfl := Option.some.inj (isCells.symm.trans isOther)
    exact swapped
  · intro other isOther row member active
    obtain rfl := Option.some.inj (isCells.symm.trans isOther)
    rcases swapped with same | copies
    · exact ⟨row, same.mem_iff.mp member, rfl, active⟩
    · obtain ⟨old, isOld, rfl⟩ := List.mem_map.mp (copies.mem_iff.mp member)
      obtain ⟨oldMember, oldActive⟩ := List.mem_filter.mp isOld
      exact ⟨old, oldMember, rfl, by simpa using oldActive⟩

theorem createTemp_cdoCells : (createTemp faults db).cdoCells = db.cdoCells := by
  rw [createTemp]
  split <;> rfl

/-- There is a table to copy to if one was left behind or the create succeeds;
    it has what was left behind. -/
theorem createTemp_temp :
    (((createTemp faults db).cdoCellsTemp.isSome = true) ↔ db.cdoCellsTemp.isSome = true ∨ faults.create = false) ∧
      leftover (createTemp faults db) = leftover db := by
  rw [createTemp]
  cases db.cdoCellsTemp.isSome.eq_false_or_eq_true with
  | inl kept => simp [kept]
  | inr absent =>
    have none : db.cdoCellsTemp = none := by simpa using absent
    cases failed : faults.create with
    | true => simp [absent]
    | false => simp [leftover, none, KeyedTable.empty]

/-- The copy leaves the cells alone. It has no error exactly if it copies, and
    the copied rows then follow those that were left behind. -/
theorem copyActive_eq (isBefore : db.cdoCells = some before) :
    (copyActive faults (createTemp faults db)).1.cdoCells = some before ∧
      ((copyActive faults (createTemp faults db)).2 = false ↔ Copies faults before db) ∧
      ((copyActive faults (createTemp faults db)).2 = false →
        ∃ temp, (copyActive faults (createTemp faults db)).1.cdoCellsTemp = some temp ∧
          temp.rows = leftover db ++ activeRows before) := by
  have cells : (createTemp faults db).cdoCells = some before := createTemp_cdoCells.trans isBefore
  obtain ⟨exists_iff, kept⟩ := @createTemp_temp faults db
  rw [Copies, ← exists_iff, ← kept]
  generalize createTemp faults db = created at *
  cases isTemp : created.cdoCellsTemp with
  | none => simp [copyActive, cells, isTemp]
  | some temp =>
    have rows : leftover created = temp.rows := by simp [leftover, isTemp]
    rw [rows]
    cases stopped : faults.copy with
    | some number => simp [copyActive, cells, isTemp, stopped]
    | none =>
      have fits : (temp.insert (activeRows before)).2 = true ↔
          ∀ row ∈ before.rows, row.active = some 1 → ∀ old ∈ temp.rows, old.cellid ≠ row.cellid := by
        rw [KeyedTable.insert_all_iff activeRows_keys, activeRows, List.forall_mem_map]
        simp [copied, KeyedTable.has_iff]
      refine ⟨by simp [copyActive, cells, isTemp, stopped], ?_, ?_⟩
      · simpa [copyActive, cells, isTemp, stopped] using fits
      · intro copies
        have all : (temp.insert (activeRows before)).2 = true := by
          simpa [copyActive, cells, isTemp, stopped] using copies
        refine ⟨(temp.insert (activeRows before)).1, by simp [copyActive, cells, isTemp, stopped], ?_⟩
        obtain ⟨inserted, rest, split, areRows, stops, -⟩ := temp.insert_spec (activeRows before)
        rw [stops.mp all, List.append_nil] at split
        rw [areRows, ← split]

/-- The cells after the whole run: the copy replaces them if it was made, the
    drop went through and the rename did; without the rename there are none. -/
theorem updateNetwork_cells (isBefore : db.cdoCells = some before) :
    (¬ Copies faults before db ∨ faults.drop = true → (updateNetwork faults db).cdoCells = some before) ∧
      (Copies faults before db → faults.drop = false →
        (faults.rename = true → (updateNetwork faults db).cdoCells = none) ∧
          (faults.rename = false → ∃ temp, (updateNetwork faults db).cdoCells = some temp ∧
            temp.rows = leftover db ++ activeRows before)) := by
  obtain ⟨cells, copies_iff, copied⟩ := @copyActive_eq faults before db isBefore
  generalize isCopy : copyActive faults (createTemp faults db) = copy at *
  rw [← copies_iff]
  cases failed : copy.2 with
  | true => simp [updateNetwork, updateNetworkSteps, isCopy, failed, cells]
  | false =>
    obtain ⟨temp, isTemp, rows⟩ := copied failed
    cases undropped : faults.drop with
    | true => simp [updateNetwork, updateNetworkSteps, isCopy, failed, dropCells, undropped, renameTemp, cells]
    | false =>
      cases unnamed : faults.rename with
      | true => simp [updateNetwork, updateNetworkSteps, isCopy, failed, dropCells, undropped, renameTemp, isTemp, unnamed]
      | false =>
        simp [updateNetwork, updateNetworkSteps, isCopy, failed, dropCells, undropped, renameTemp, isTemp, unnamed, rows]

/-- The rows of the copy are the active ones only if nothing was left behind. -/
theorem leftover_eq_nil_of_perm (same : (leftover db ++ activeRows before).Perm (activeRows before)) :
    leftover db = [] := by
  have lengths := same.length_eq
  rw [List.length_append] at lengths
  exact List.length_eq_zero_iff.mp (by omega)

/-- A copy in place of the cells is all of the active ones, or all that there was,
    exactly if what was left behind is nothing or just what the copy leaves out. -/
theorem allOrNothing_copy_iff {temp : CellTable} (isTemp : (updateNetwork faults db).cdoCells = some temp)
    (rows : temp.rows = leftover db ++ activeRows before) :
    AllOrNothing before (updateNetwork faults db) ↔
      leftover db = [] ∨ (leftover db ++ activeRows before).Perm before.rows := by
  constructor
  · intro holds
    rcases holds.swapped temp isTemp with asBefore | active
    · exact .inr (rows ▸ asBefore)
    · exact .inl (leftover_eq_nil_of_perm (rows ▸ active))
  · intro leaves
    refine allOrNothing_of_swapped isTemp ?_
    rcases leaves with nothing | asBefore
    · exact .inr (by rw [rows, nothing, List.nil_append])
    · exact .inl (rows ▸ asBefore)

/-- Between the drop and the rename there are no cells. -/
theorem exists_throughout_iff (isBefore : db.cdoCells = some before) :
    (∀ state ∈ updateNetworkSteps faults db, state.cdoCells.isSome = true) ↔
      ¬ Copies faults before db ∨ faults.drop = true := by
  obtain ⟨cells, copies_iff, -⟩ := @copyActive_eq faults before db isBefore
  have created : (createTemp faults db).cdoCells = some before := createTemp_cdoCells.trans isBefore
  generalize isCopy : copyActive faults (createTemp faults db) = copy at *
  rw [← copies_iff]
  cases failed : copy.2 with
  | true => simp [updateNetworkSteps, isCopy, failed, cells, created]
  | false =>
    cases undropped : faults.drop with
    | true => simp [updateNetworkSteps, isCopy, failed, dropCells, undropped, renameTemp, cells, created]
    | false => simp [updateNetworkSteps, isCopy, failed, dropCells, undropped]

/-- The run ends with the cells as they were or with the active ones exactly if
    the copy is not made, the drop fails, or the rename does not fail and what was
    left behind is nothing or just what the copy leaves out. They exist throughout
    only in the first two cases. -/
theorem swap_all_or_nothing_iff (isBefore : db.cdoCells = some before) :
    (AllOrNothing before (updateNetwork faults db) ↔
      ¬ Copies faults before db ∨ faults.drop = true ∨ (faults.rename = false ∧
        (leftover db = [] ∨ (leftover db ++ activeRows before).Perm before.rows))) ∧
    ((AllOrNothing before (updateNetwork faults db) ∧
        ∀ state ∈ updateNetworkSteps faults db, state.cdoCells.isSome = true) ↔
      ¬ Copies faults before db ∨ faults.drop = true) := by
  obtain ⟨unchanged, replaced⟩ := @updateNetwork_cells faults before db isBefore
  have same : ¬ Copies faults before db ∨ faults.drop = true → AllOrNothing before (updateNetwork faults db) :=
    fun stays => allOrNothing_of_swapped (unchanged stays) (.inl (List.Perm.refl _))
  refine ⟨?_, ?_⟩
  · by_cases copies : Copies faults before db
    · cases undropped : faults.drop with
      | true => exact ⟨fun _ => .inr (.inl rfl), fun _ => same (.inr undropped)⟩
      | false =>
        obtain ⟨noCells, swapped⟩ := replaced copies undropped
        cases unnamed : faults.rename with
        | true =>
          refine iff_of_false (fun holds => ?_) (by simp [copies])
          obtain ⟨cells, isCells⟩ := holds.exists_cells
          rw [noCells unnamed] at isCells
          cases isCells
        | false =>
          obtain ⟨temp, isTemp, rows⟩ := swapped unnamed
          rw [allOrNothing_copy_iff isTemp rows]
          simp [copies]
    · exact ⟨fun _ => .inl copies, fun _ => same (.inl copies)⟩
  · rw [exists_throughout_iff isBefore]
    exact ⟨fun holds => holds.2, fun stays => ⟨same stays, stays⟩⟩

end

/-! ### Two cells -/

def noFaults : Faults := ⟨false, none, false, false⟩

/-- Cell 7 is inactive by now, cell 8 is active. -/
def twoCells : CellTable := ⟨[⟨7, 11, 20, 5, some 0, some 0⟩, ⟨8, 12, 20, 5, some 1, some 1⟩], by decide⟩

/-- What a run leaves whose copy broke off after a row. -/
def interrupted : Database :=
  updateNetwork ⟨false, some 1, false, false⟩ ⟨some ⟨[⟨7, 11, 20, 5, some 1, some 0⟩], List.nodup_singleton _⟩, none⟩

theorem swap_without_leftover : AllOrNothing twoCells (updateNetwork noFaults ⟨some twoCells, none⟩) :=
  (swap_all_or_nothing_iff rfl).1.mpr (.inr (.inr ⟨rfl, .inl rfl⟩))

/-- After an interrupted run the inactive cell comes back, and a rename that
    fails leaves no cells. -/
theorem inactive_cell_revived :
    (updateNetwork noFaults ⟨some twoCells, interrupted.cdoCellsTemp⟩).cdoCells.map KeyedTable.rows =
        some [⟨7, 11, 20, 5, some 1, some 0⟩, ⟨8, 12, 20, 5, some 1, some 0⟩] ∧
      ¬ AllOrNothing twoCells (updateNetwork noFaults ⟨some twoCells, interrupted.cdoCellsTemp⟩) ∧
      (updateNetwork ⟨false, none, false, true⟩ ⟨some twoCells, none⟩).cdoCells.map KeyedTable.rows = none := by
  have computed : (updateNetwork noFaults ⟨some twoCells, interrupted.cdoCellsTemp⟩).cdoCells.map KeyedTable.rows =
      some [⟨7, 11, 20, 5, some 1, some 0⟩, ⟨8, 12, 20, 5, some 1, some 0⟩] := by decide
  refine ⟨computed, fun holds => ?_, by decide⟩
  obtain ⟨cells, isCells⟩ := holds.exists_cells
  rw [isCells, Option.map_some, Option.some.injEq] at computed
  obtain ⟨old, member, same, active⟩ := holds.revived cells isCells ⟨7, 11, 20, 5, some 1, some 0⟩
    (by simp [computed]) rfl
  fin_cases member
  · simp at active
  · simp at same

end Cdo.NetworkSwap
