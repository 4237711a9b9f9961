import Cdo.BidCalc

/-!
The names of the variables, from the cell table to the bids (`LP_Obj` and
`BidCalc` of `CDO.pm`). `LP_Obj` names a variable by the columns of its cell and
writes `neg` for a minus sign into the segment column of the table itself;
`BidCalc` reads a name apart and later builds the names again from the table, as
`LP_Obj` has left it. A name decodes to the columns it was made of, and the name
that is built again is the same one (`variable_names_round_trip`).
-/
namespace Cdo.VariableNames
open Cdo.Text Cdo.Tables Cdo.Params Cdo.BidCalc

/-! ### The cell table as texts -/

/-- The columns of a cell that a name is made of, as the hash holds them. -/
structure CellFields where
  san : Str
  adid : Str
  siteid : Str
  segmentid : Str
  size : Str

def CellFields.ofCell (c : Cell) : CellFields :=
  ⟨c.san, intText c.adid, intText c.siteid, intText c.segmentid, c.size.text⟩

/-- Every minus sign of the segment column becomes `neg`. -/
def CellFields.rewrite (fields : CellFields) : CellFields :=
  { fields with segmentid := fields.segmentid.flatMap fun c => if c = '-' then "neg".toList else [c] }

/-- The columns joined, as both functions do. -/
def CellFields.lpVar (fields : CellFields) : Str :=
  joined '_' [fields.san, fields.adid, fields.siteid, fields.segmentid, fields.size]

def cellTable (cells : SortedMap Str Cell) : SortedMap Str CellFields :=
  SortedMap.ofRows Prod.fst (fun entry => CellFields.ofCell entry.2) cells.entries

/-- The table during the loop of `LP_Obj`, and the names that it has built. -/
structure Naming where
  cell : SortedMap Str CellFields
  lpVarMain : SortedMap Str Str

def nameCell (naming : Naming) (key : Str) : Naming :=
  match naming.cell.get? key with
  | none => naming
  | some fields => ⟨naming.cell.insert key fields.rewrite, naming.lpVarMain.insert key fields.rewrite.lpVar⟩

def nameCells (cell : SortedMap Str CellFields) : Naming := cell.keys.foldl nameCell ⟨cell, SortedMap.empty⟩

/-- The name that `BidCalc` builds for a cell of the table. -/
def bidName (cell : SortedMap Str CellFields) (key : Str) : Option Str := (cell.get? key).map CellFields.lpVar

/-! ### The loop -/

theorem get?_cellTable (cells : SortedMap Str Cell) (key : Str) :
    (cellTable cells).get? key = (cells.get? key).map CellFields.ofCell := by
  cases found : cells.get? key with
  | none =>
    refine SortedMap.get?_ofRows_none ?_
    rintro ⟨k, c⟩ member rfl
    rw [SortedMap.mem_entries.mp member] at found
    cases found
  | some c =>
    refine SortedMap.get?_ofRows_eq (SortedMap.mem_entries.mpr found) ?_
    rintro ⟨k, other⟩ member same
    have equal : k = key := same
    rw [equal, SortedMap.mem_entries, found, Option.some.injEq] at member
    exact congrArg CellFields.ofCell member.symm

/-- A turn of the loop rewrites and names one cell and leaves the others. -/
theorem nameCell_spec (naming : Naming) (key other : Str) :
    ((nameCell naming key).cell.get? other =
      if other = key then (naming.cell.get? other).map CellFields.rewrite else naming.cell.get? other) ∧
    (other ≠ key → (nameCell naming key).lpVarMain.get? other = naming.lpVarMain.get? other) ∧
    ∀ fields, naming.cell.get? key = some fields → (nameCell naming key).lpVarMain.get? key = some fields.rewrite.lpVar := by
  unfold nameCell
  cases found : naming.cell.get? key with
  | none =>
    refine ⟨?_, fun _ => rfl, fun fields present => by cases present⟩
    by_cases here : other = key
    · simp [here, found]
    · simp [here]
  | some fields =>
    refine ⟨?_, ?_, ?_⟩
    · by_cases here : other = key
      · simp [here, found]
      · simp [here]
    · intro away
      simp [away]
    · intro fields' present
      simp [Option.some.inj present]

theorem nameCells_foldl (keys : List Str) (nodup : keys.Nodup) (naming : Naming) (key : Str) (fields : CellFields)
    (present : naming.cell.get? key = some fields) :
    (key ∈ keys → (keys.foldl nameCell naming).cell.get? key = some fields.rewrite ∧
      (keys.foldl nameCell naming).lpVarMain.get? key = some fields.rewrite.lpVar) ∧
    (key ∉ keys → (keys.foldl nameCell naming).cell.get? key = some fields ∧
      (keys.foldl nameCell naming).lpVarMain.get? key = naming.lpVarMain.get? key) := by
  induction keys generalizing naming fields with
  | nil => exact ⟨fun member => absurd member List.not_mem_nil, fun _ => ⟨present, rfl⟩⟩
  | cons first rest ih =>
    obtain ⟨fresh, restNodup⟩ := List.nodup_cons.mp nodup
    obtain ⟨rewritten, others, named⟩ := nameCell_spec naming first key
    rw [List.foldl_cons]
    by_cases here : key = first
    · subst here
      rw [if_pos rfl, present, Option.map_some] at rewritten
      -- the cell is not visited again
      obtain ⟨-, kept⟩ := ih restNodup (nameCell naming key) fields.rewrite rewritten
      refine ⟨fun _ => ⟨(kept fresh).1, ?_⟩, fun absent => absurd List.mem_cons_self absent⟩
      rw [(kept fresh).2, named fields present]
    · rw [if_neg here, present] at rewritten
      obtain ⟨visited, kept⟩ := ih restNodup (nameCell naming first) fields rewritten
      constructor
      · intro member
        exact visited ((List.mem_cons.mp member).resolve_left here)
      · intro absent
        rw [List.mem_cons, not_or] at absent
        refine ⟨(kept absent.2).1, ?_⟩
        rw [(kept absent.2).2, others here]

/-- After the loop every cell is rewritten, and its name is that of the
    rewritten columns. -/
theorem nameCells_spec {cell : SortedMap Str CellFields} {key : Str} {fields : CellFields}
    (present : cell.get? key = some fields) :
    (nameCells cell).cell.get? key = some fields.rewrite ∧
      (nameCells cell).lpVarMain.get? key = some fields.rewrite.lpVar :=
  (nameCells_foldl cell.keys cell.nodup_keys ⟨cell, SortedMap.empty⟩ key fields present).1
    (SortedMap.mem_keys.mpr ⟨fields, present⟩)

theorem lpVar_rewrite (c : Cell) : (CellFields.ofCell c).rewrite.lpVar = lpVarMain c := rfl

/-- A name decodes to the account name, site, segment and size that it was made
    of; cells of one name agree in all columns of it; and the name that is built
    from the table after `LP_Obj` is the one that `LP_Obj` built. -/
theorem variable_names_round_trip :
    (∀ c : Cell, '_' ∉ c.san →
      field (lpVarMain c) 0 = c.san ∧ field (lpVarMain c) 2 = intText c.siteid ∧
        negBack (field (lpVarMain c) 3) = intText c.segmentid ∧ field (lpVarMain c) 4 = c.size.text) ∧
    (∀ c d : Cell, '_' ∉ c.san → '_' ∉ d.san → lpVarMain c = lpVarMain d →
      c.san = d.san ∧ c.adid = d.adid ∧ c.siteid = d.siteid ∧ c.segmentid = d.segmentid ∧ c.size = d.size) ∧
    ∀ (cells : SortedMap Str Cell) (key : Str) (c : Cell), cells.get? key = some c →
      (nameCells (cellTable cells)).lpVarMain.get? key = some (lpVarMain c) ∧
        bidName (nameCells (cellTable cells)).cell key = some (lpVarMain c) := by
  refine ⟨?_, fun c d _ _ same => lpVarMain_injective same, ?_⟩
  · intro c plain
    have pieces := splitOn_lpVarMain plain
    simp only [field, pieces]
    exact ⟨rfl, rfl, negBack_segText c.segmentid, rfl⟩
  · intro cells key c present
    have listed : (cellTable cells).get? key = some (CellFields.ofCell c) := by
      rw [get?_cellTable, present, Option.map_some]
    obtain ⟨rewritten, named⟩ := nameCells_spec listed
    rw [lpVar_rewrite] at named
    refine ⟨named, ?_⟩
    rw [bidName, rewritten, Option.map_some, lpVar_rewrite]

/-- A cell on segment -5. -/
theorem negative_segment_round_trip :
    negBack (field (lpVarMain (cellOn (-5))) 3) = "-5".toList ∧
      ∃ key, bidName (nameCells (cellTable (getCellData (onSegment (-5)) fun _ => none))).cell key =
        some "auo_11_20_neg5_300x250".toList := by
  have plain : '_' ∉ (cellOn (-5)).san := by decide
  refine ⟨(variable_names_round_trip.1 (cellOn (-5)) plain).2.2.1, intText 7, ?_⟩
  have present : (getCellData (onSegment (-5)) fun _ => none).get? (intText 7) = some (cellOn (-5)) := by decide +kernel
  exact (variable_names_round_trip.2.2 _ (intText 7) (cellOn (-5)) present).2

end Cdo.VariableNames
