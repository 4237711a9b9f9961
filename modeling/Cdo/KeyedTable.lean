import Mathlib

/-!
Tables of rows with a primary key. A statement that inserts several rows stops
at the first row whose key is taken and keeps the rows before it (`insert`,
`insert_spec`); rows are kept apart from their keys' duplicates by the type. A
load that passes over such rows (`insertIgnore`) keeps the first row of each key,
and an insertion can change the row of the key instead (`upsert`).
-/
namespace Cdo

/-- The rows of a table, no two of them with the same key. -/
structure KeyedTable {ρ κ : Type} (key : ρ → κ) where
  rows : List ρ
  nodup : (rows.map key).Nodup

namespace KeyedTable
variable {ρ κ : Type} {key : ρ → κ}

theorem ext {t t' : KeyedTable key} (rows : t.rows = t'.rows) : t = t' := by
  cases t
  cases t'
  cases rows
  rfl

def empty : KeyedTable key := ⟨[], List.nodup_nil⟩

/-- The key of a row is taken. -/
def Has (t : KeyedTable key) (k : κ) : Prop := k ∈ t.rows.map key

theorem has_iff {t : KeyedTable key} {k : κ} : t.Has k ↔ ∃ row ∈ t.rows, key row = k := List.mem_map

theorem eq_of_key (t : KeyedTable key) {row row' : ρ} (member : row ∈ t.rows) (member' : row' ∈ t.rows)
    (same : key row = key row') : row = row' :=
  List.inj_on_of_nodup_map t.nodup member member' same

def push (t : KeyedTable key) (row : ρ) (fresh : ¬ t.Has (key row)) : KeyedTable key where
  rows := t.rows ++ [row]
  nodup := by
    rw [List.map_append, List.map_singleton, List.nodup_append]
    refine ⟨t.nodup, List.nodup_singleton _, ?_⟩
    intro k member k' last same
    exact fresh (List.mem_singleton.mp last ▸ same ▸ member)

@[simp] theorem push_rows (t : KeyedTable key) (row : ρ) (fresh : ¬ t.Has (key row)) :
    (t.push row fresh).rows = t.rows ++ [row] := rfl

theorem has_push {t : KeyedTable key} {row : ρ} {fresh : ¬ t.Has (key row)} {k : κ} :
    (t.push row fresh).Has k ↔ t.Has k ∨ k = key row := by
  simp [Has]

def filter (t : KeyedTable key) (keep : ρ → Bool) : KeyedTable key :=
  ⟨t.rows.filter keep, (List.filter_sublist.map key).nodup t.nodup⟩

theorem filter_filter (t : KeyedTable key) {keep first : ρ → Bool}
    (implies : ∀ row ∈ t.rows, keep row = true → first row = true) : (t.filter first).filter keep = t.filter keep := by
  refine ext ?_
  show (t.rows.filter first).filter keep = t.rows.filter keep
  rw [List.filter_filter]
  refine List.filter_congr fun row member => ?_
  cases kept : keep row with
  | false => rfl
  | true => rw [implies row member kept, Bool.and_true]

/-- A key that only rows left out by a filter have is free afterwards. -/
theorem not_has_filter {t : KeyedTable key} {keep : ρ → Bool} {k : κ}
    (out : ∀ row ∈ t.rows, key row = k → keep row = false) : ¬ (t.filter keep).Has k := by
  intro taken
  obtain ⟨row, isKept, isKey⟩ := has_iff.mp taken
  obtain ⟨member, kept⟩ := List.mem_filter.mp isKept
  rw [out row member isKey] at kept
  exact absurd kept Bool.false_ne_true

/-- The table with every row changed in columns that are not of the key. -/
def modify (t : KeyedTable key) (change : ρ → ρ) (keeps : ∀ row, key (change row) = key row) : KeyedTable key where
  rows := t.rows.map change
  nodup := by
    rw [List.map_map, show key ∘ change = key from funext keeps]
    exact t.nodup

variable [DecidableEq κ]

instance (t : KeyedTable key) (k : κ) : Decidable (t.Has k) := inferInstanceAs (Decidable (k ∈ t.rows.map key))

/-! ### Lookups and updates -/

/-- The row of a key. -/
def get? (t : KeyedTable key) (k : κ) : Option ρ := t.rows.find? fun row => key row = k

theorem get?_eq_some {t : KeyedTable key} {k : κ} {row : ρ} : t.get? k = some row ↔ row ∈ t.rows ∧ key row = k := by
  constructor
  · intro found
    exact ⟨List.mem_of_find?_eq_some found, by simpa using List.find?_some found⟩
  · rintro ⟨member, rfl⟩
    cases found : t.get? (key row) with
    | none => exact absurd (List.find?_eq_none.mp found row member) (by simp)
    | some other =>
      have same : key other = key row := by simpa using List.find?_some found
      rw [t.eq_of_key (List.mem_of_find?_eq_some found) member same]

theorem get?_eq_none {t : KeyedTable key} {k : κ} : t.get? k = none ↔ ¬ t.Has k := by
  rw [has_iff, get?, List.find?_eq_none]
  simp

/-- The table after the row of a key, if there is one, is changed in columns that
    are not of the key. -/
def updateAt (t : KeyedTable key) (k : κ) (change : ρ → ρ) (keeps : ∀ row, key (change row) = key row) :
    KeyedTable key where
  rows := t.rows.map fun row => if key row = k then change row else row
  nodup := by
    have same : (key ∘ fun row => if key row = k then change row else row) = key := by
      funext row
      rw [Function.comp_apply]
      split
      · exact keeps row
      · rfl
    rw [List.map_map, same]
    exact t.nodup

theorem get?_updateAt {t : KeyedTable key} {k k' : κ} {change : ρ → ρ} {keeps : ∀ row, key (change row) = key row} :
    (t.updateAt k change keeps).get? k' = if k' = k then (t.get? k').map change else t.get? k' := by
  have same : ((fun row => decide (key row = k')) ∘ fun row => if key row = k then change row else row) =
      fun row => decide (key row = k') := by
    funext row
    rw [Function.comp_apply]
    split
    · rw [keeps row]
    · rfl
  rw [get?, updateAt, List.find?_map, same, ← get?]
  cases found : t.get? k' with
  | none => simp
  | some row =>
    obtain ⟨-, rfl⟩ := get?_eq_some.mp found
    by_cases isKey : key row = k
    · simp [isKey]
    · simp [isKey]

theorem get?_push {t : KeyedTable key} {row : ρ} {fresh : ¬ t.Has (key row)} {k : κ} :
    (t.push row fresh).get? k = if k = key row then some row else t.get? k := by
  by_cases isKey : k = key row
  · rw [if_pos isKey, get?_eq_some]
    simp [isKey]
  · rw [if_neg isKey, get?, push_rows, List.find?_append]
    simp [get?, Ne.symm isKey]

/-- A table of the changed rows that a filter keeps has the changed row of a key. -/
theorem get?_filter_map {t t' : KeyedTable key} {keep : ρ → Bool} {change : ρ → ρ}
    (keeps : ∀ row, key (change row) = key row) (rows : t'.rows = (t.rows.filter keep).map change) (k : κ) :
    t'.get? k = ((t.get? k).filter keep).map change := by
  refine Option.ext fun row => ?_
  rw [get?_eq_some, rows, List.mem_map, Option.map_eq_some_iff]
  constructor
  · rintro ⟨⟨old, member, rfl⟩, rfl⟩
    obtain ⟨inside, kept⟩ := List.mem_filter.mp member
    exact ⟨old, Option.filter_eq_some_iff.mpr ⟨get?_eq_some.mpr ⟨inside, (keeps old).symm⟩, kept⟩, rfl⟩
  · rintro ⟨old, found, rfl⟩
    obtain ⟨isOld, kept⟩ := Option.filter_eq_some_iff.mp found
    obtain ⟨inside, rfl⟩ := get?_eq_some.mp isOld
    exact ⟨⟨old, List.mem_filter.mpr ⟨inside, kept⟩, rfl⟩, keeps old⟩

theorem get?_modify (t : KeyedTable key) (change : ρ → ρ) (keeps : ∀ row, key (change row) = key row) (k : κ) :
    (t.modify change keeps).get? k = (t.get? k).map change := by
  have all : t.rows.filter (fun _ => true) = t.rows := List.filter_eq_self.mpr fun _ _ => rfl
  rw [get?_filter_map (t := t) keeps (by rw [all]; rfl) k]
  cases t.get? k <;> rfl

/-- The table after a row is inserted or, if its key is taken, the row of that
    key is changed. -/
def upsert (t : KeyedTable key) (row : ρ) (change : ρ → ρ) (keeps : ∀ row, key (change row) = key row) :
    KeyedTable key :=
  if taken : t.Has (key row) then t.updateAt (key row) change keeps else t.push row taken

theorem get?_upsert {t : KeyedTable key} {row : ρ} {change : ρ → ρ} {keeps : ∀ row, key (change row) = key row} {k : κ} :
    (t.upsert row change keeps).get? k =
      if k = key row then some ((t.get? k).elim row change) else t.get? k := by
  rw [upsert]
  by_cases taken : t.Has (key row)
  · rw [dif_pos taken, get?_updateAt]
    by_cases isKey : k = key row
    · subst isKey
      obtain ⟨old, member, same⟩ := has_iff.mp taken
      simp [get?_eq_some.mpr ⟨member, same⟩]
    · rw [if_neg isKey, if_neg isKey]
  · rw [dif_neg taken, get?_push]
    by_cases isKey : k = key row
    · subst isKey
      simp [get?_eq_none.mpr taken]
    · rw [if_neg isKey, if_neg isKey]

/-! ### Insertions that stop -/

/-- The table after rows are inserted in order, up to the first one whose key is
    taken, and whether all were. -/
def insert (t : KeyedTable key) : List ρ → KeyedTable key × Bool
  | [] => (t, true)
  | row :: rest => if taken : t.Has (key row) then (t, false) else (t.push row taken).insert rest

/-- What gets in is a first part of the rows; the insertion stopped at a row
    whose key was taken by then. -/
theorem insert_spec (t : KeyedTable key) (rows : List ρ) :
    ∃ inserted rest, rows = inserted ++ rest ∧ (t.insert rows).1.rows = t.rows ++ inserted ∧
      ((t.insert rows).2 = true ↔ rest = []) ∧ ∀ row ∈ rest.head?, (t.insert rows).1.Has (key row) := by
  induction rows generalizing t with
  | nil => exact ⟨[], [], rfl, by simp [insert], by simp [insert], by simp⟩
  | cons row rows ih =>
    by_cases taken : t.Has (key row)
    · refine ⟨[], row :: rows, rfl, by simp [insert, taken], by simp [insert, taken], ?_⟩
      intro first isFirst
      obtain rfl : row = first := by simpa using isFirst
      simp [insert, taken]
    · obtain ⟨inserted, rest, split, rowsAre, all, stopped⟩ := ih (t.push row taken)
      refine ⟨row :: inserted, rest, by rw [split, List.cons_append], ?_, ?_, ?_⟩
      · simp [insert, taken, rowsAre]
      · simpa [insert, taken] using all
      · simpa [insert, taken] using stopped

/-- A key has the row it had, or it was free and has one of the inserted rows. -/
theorem get?_insert (t : KeyedTable key) (rows : List ρ) (k : κ) :
    (t.insert rows).1.get? k = t.get? k ∨
      t.get? k = none ∧ ∃ row ∈ rows, key row = k ∧ (t.insert rows).1.get? k = some row := by
  obtain ⟨inserted, rest, split, rowsAre, -⟩ := t.insert_spec rows
  cases found : t.get? k with
  | some row =>
    obtain ⟨member, same⟩ := get?_eq_some.mp found
    exact .inl (get?_eq_some.mpr ⟨by rw [rowsAre]; exact List.mem_append_left _ member, same⟩)
  | none =>
    cases after : (t.insert rows).1.get? k with
    | none => exact .inl rfl
    | some row =>
      obtain ⟨member, same⟩ := get?_eq_some.mp after
      rw [rowsAre] at member
      rcases List.mem_append.mp member with old | new
      · exact absurd (has_iff.mpr ⟨row, old, same⟩) (get?_eq_none.mp found)
      · exact .inr ⟨rfl, row, split ▸ List.mem_append_left _ new, same, rfl⟩

theorem mem_insert_of_mem {t : KeyedTable key} {rows : List ρ} {row : ρ} (member : row ∈ t.rows) :
    row ∈ (t.insert rows).1.rows := by
  obtain ⟨inserted, rest, -, rowsAre, -⟩ := t.insert_spec rows
  rw [rowsAre]
  exact List.mem_append_left _ member

omit [DecidableEq κ] in
theorem takeWhile_congr {p q : ρ → Bool} {rows : List ρ} (same : ∀ row ∈ rows, p row = q row) :
    rows.takeWhile p = rows.takeWhile q := by
  induction rows with
  | nil => rfl
  | cons row rest ih =>
    rw [List.takeWhile_cons, List.takeWhile_cons, same row List.mem_cons_self,
      ih fun other member => same other (List.mem_cons_of_mem _ member)]

/-- Of rows with keys of their own, those before the first taken key get in. -/
theorem insert_rows {t : KeyedTable key} {rows : List ρ} (own : (rows.map key).Nodup) :
    (t.insert rows).1.rows = t.rows ++ rows.takeWhile fun row => !decide (t.Has (key row)) := by
  induction rows generalizing t with
  | nil => simp [insert]
  | cons row rest ih =>
    rw [List.map_cons, List.nodup_cons] at own
    by_cases taken : t.Has (key row)
    · simp [insert, taken]
    · -- the key that was taken last is none of the later ones
      have same : rest.takeWhile (fun other => !decide ((t.push row taken).Has (key other))) =
          rest.takeWhile fun other => !decide (t.Has (key other)) := by
        refine takeWhile_congr fun other member => ?_
        have apart : key other ≠ key row := fun equal => own.1 (equal ▸ List.mem_map_of_mem member)
        simp [has_push, apart]
      simp [insert, taken, ih own.2, same]

/-- Rows with keys of their own that are all free get in. -/
theorem insert_rows_of_fresh {t : KeyedTable key} {rows : List ρ} (own : (rows.map key).Nodup)
    (fresh : ∀ row ∈ rows, ¬ t.Has (key row)) : (t.insert rows).1.rows = t.rows ++ rows := by
  rw [insert_rows own, List.takeWhile_eq_self_iff.mpr]
  intro row member
  simp [fresh row member]

theorem insert_all_iff {t : KeyedTable key} {rows : List ρ} (own : (rows.map key).Nodup) :
    (t.insert rows).2 = true ↔ ∀ row ∈ rows, ¬ t.Has (key row) := by
  induction rows generalizing t with
  | nil => simp [insert]
  | cons row rest ih =>
    rw [List.map_cons, List.nodup_cons] at own
    by_cases taken : t.Has (key row)
    · simp [insert, taken]
    · have apart : ∀ other ∈ rest, key other ≠ key row := fun other member equal =>
        own.1 (equal ▸ List.mem_map_of_mem member)
      simp only [insert, taken, dite_false, ih own.2, has_push, List.forall_mem_cons, not_false_eq_true, true_and, not_or]
      exact ⟨fun fresh other member => (fresh other member).1, fun fresh other member =>
        ⟨fresh other member, apart other member⟩⟩

/-- Rows that a filter keeps can be inserted before or after it, if it goes by the
    keys. -/
theorem filter_insert {t : KeyedTable key} {rows : List ρ} {keep : ρ → Bool} (kept : ∀ row ∈ rows, keep row = true)
    (byKey : ∀ row other, key row = key other → keep row = keep other) :
    (t.insert rows).1.filter keep = ((t.filter keep).insert rows).1 := by
  induction rows generalizing t with
  | nil => rfl
  | cons row rest ih =>
    have isKept := kept row List.mem_cons_self
    have same : (t.filter keep).Has (key row) ↔ t.Has (key row) := by
      constructor
      · intro taken
        obtain ⟨other, member, isKey⟩ := has_iff.mp taken
        exact has_iff.mpr ⟨other, List.mem_of_mem_filter member, isKey⟩
      · intro taken
        obtain ⟨other, member, isKey⟩ := has_iff.mp taken
        exact has_iff.mpr ⟨other, List.mem_filter.mpr ⟨member, (byKey other row isKey).trans isKept⟩, isKey⟩
    by_cases taken : t.Has (key row)
    · simp [insert, taken, same.mpr taken]
    · have pushed : (t.push row taken).filter keep = (t.filter keep).push row (same.not.mpr taken) := by
        refine ext ?_
        show (t.rows ++ [row]).filter keep = t.rows.filter keep ++ [row]
        rw [List.filter_append, List.filter_singleton, isKept]
        rfl
      simp only [insert, taken, same.not.mpr taken, dite_false]
      rw [ih fun other member => kept other (List.mem_cons_of_mem _ member), pushed]

/-- Insertions one after the other of rows with keys of their own that are all
    free. -/
theorem insert_blocks {t : KeyedTable key} {blocks : List (List ρ)} (own : (blocks.flatten.map key).Nodup)
    (fresh : ∀ row ∈ blocks.flatten, ¬ t.Has (key row)) :
    (blocks.foldl (fun t rows => (t.insert rows).1) t).rows = t.rows ++ blocks.flatten := by
  induction blocks generalizing t with
  | nil => simp
  | cons rows rest ih =>
    rw [List.flatten_cons, List.map_append, List.nodup_append'] at own
    obtain ⟨first, later, apart⟩ := own
    have rowsAre : (t.insert rows).1.rows = t.rows ++ rows :=
      insert_rows_of_fresh first fun row member => fresh row (List.mem_append_left _ member)
    rw [List.foldl_cons, ih later, rowsAre, List.flatten_cons, List.append_assoc]
    intro row member taken
    obtain ⟨old, isOld, same⟩ := has_iff.mp taken
    rw [rowsAre] at isOld
    rcases List.mem_append.mp isOld with before | inserted
    · exact fresh row (List.mem_append_right _ member) (has_iff.mpr ⟨old, before, same⟩)
    · exact apart (List.mem_map_of_mem inserted) (same ▸ List.mem_map_of_mem member)

/-! ### Insertions that pass over -/

/-- The table after rows are inserted in order, those with a taken key left out. -/
def insertIgnore (t : KeyedTable key) : List ρ → KeyedTable key
  | [] => t
  | row :: rest => if taken : t.Has (key row) then t.insertIgnore rest else (t.push row taken).insertIgnore rest

theorem insertIgnore_append (t : KeyedTable key) (rows more : List ρ) :
    t.insertIgnore (rows ++ more) = (t.insertIgnore rows).insertIgnore more := by
  induction rows generalizing t with
  | nil => rfl
  | cons row rest ih =>
    by_cases taken : t.Has (key row)
    · simp [insertIgnore, taken, ih]
    · simp [insertIgnore, taken, ih]

theorem mem_insertIgnore {t : KeyedTable key} {rows : List ρ} {row : ρ} (member : row ∈ (t.insertIgnore rows).rows) :
    row ∈ t.rows ∨ row ∈ rows := by
  induction rows generalizing t with
  | nil => exact .inl member
  | cons first rest ih =>
    by_cases taken : t.Has (key first)
    · rw [insertIgnore, dif_pos taken] at member
      exact (ih member).imp_right (List.mem_cons_of_mem _)
    · rw [insertIgnore, dif_neg taken] at member
      rcases ih member with pushed | later
      · rcases List.mem_append.mp pushed with old | new
        · exact .inl old
        · exact .inr (List.mem_singleton.mp new ▸ List.mem_cons_self)
      · exact .inr (List.mem_cons_of_mem _ later)

/-- A key has the row it had, or the first of the rows with it. -/
theorem get?_insertIgnore (t : KeyedTable key) (rows : List ρ) (k : κ) :
    (t.insertIgnore rows).get? k = (t.get? k).or (rows.find? fun row => key row = k) := by
  induction rows generalizing t with
  | nil => simp [insertIgnore]
  | cons row rest ih =>
    by_cases taken : t.Has (key row)
    · rw [insertIgnore, dif_pos taken, ih, List.find?_cons]
      by_cases isKey : key row = k
      · obtain ⟨old, member, same⟩ := has_iff.mp taken
        rw [get?_eq_some.mpr ⟨member, same.trans isKey⟩]
        rfl
      · simp [isKey]
    · rw [insertIgnore, dif_neg taken, ih, get?_push, List.find?_cons]
      by_cases isKey : key row = k
      · rw [if_pos isKey.symm, ← isKey, get?_eq_none.mpr taken]
        simp
      · rw [if_neg (Ne.symm isKey)]
        simp [isKey]

theorem mem_insertIgnore_of_mem {t : KeyedTable key} {rows : List ρ} {row : ρ} (member : row ∈ t.rows) :
    row ∈ (t.insertIgnore rows).rows := by
  have kept : (t.insertIgnore rows).get? (key row) = some row := by
    rw [get?_insertIgnore, get?_eq_some.mpr ⟨member, rfl⟩]
    rfl
  exact (get?_eq_some.mp kept).1

/-- Every key of the rows is taken afterwards. -/
theorem has_insertIgnore {t : KeyedTable key} {rows : List ρ} {k : κ} :
    (t.insertIgnore rows).Has k ↔ t.Has k ∨ ∃ row ∈ rows, key row = k := by
  induction rows generalizing t with
  | nil => simp [insertIgnore]
  | cons first rest ih =>
    by_cases taken : t.Has (key first)
    · rw [insertIgnore, dif_pos taken, ih]
      constructor
      · rintro (old | ⟨row, member, same⟩)
        · exact .inl old
        · exact .inr ⟨row, List.mem_cons_of_mem _ member, same⟩
      · rintro (old | ⟨row, member, same⟩)
        · exact .inl old
        · rcases List.mem_cons.mp member with rfl | later
          · exact .inl (same ▸ taken)
          · exact .inr ⟨row, later, same⟩
    · rw [insertIgnore, dif_neg taken, ih, has_push, or_assoc]
      simp only [List.mem_cons, exists_eq_or_imp]
      rw [eq_comm (a := k)]

end KeyedTable
end Cdo
