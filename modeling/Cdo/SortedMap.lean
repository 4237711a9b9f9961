import Mathlib

/-!
Finite maps kept as lists of entries with strictly increasing keys, the
contents of a hash as a loop over its sorted keys sees them. A map is built by
insertions, a later one replacing an earlier one under the same key
(`get?_insert`), and every entry is listed once (`mem_entries`, `nodup_keys`).
`ofRows` loads rows under keys computed from them, the last row of a key
winning; `insertAt` writes through two levels of maps.
-/
namespace Cdo

/-- A finite map as its entries in increasing order of their keys. -/
structure SortedMap (κ : Type) (α : Type) [LinearOrder κ] where
  entries : List (κ × α)
  sorted : entries.Pairwise (fun earlier later => earlier.1 < later.1)

namespace SortedMap
variable {κ α ρ : Type} [LinearOrder κ]

/-! ### Entries -/

/-- Insertion into a sorted list of entries, replacing an entry of the same key. -/
def insertEntry (k : κ) (v : α) : List (κ × α) → List (κ × α)
  | [] => [(k, v)]
  | entry :: rest =>
    if k < entry.1 then (k, v) :: entry :: rest
    else if k = entry.1 then (k, v) :: rest
    else entry :: insertEntry k v rest

def findEntry (k : κ) : List (κ × α) → Option α
  | [] => none
  | entry :: rest => if k = entry.1 then some entry.2 else findEntry k rest

theorem mem_insertEntry {k : κ} {v : α} {entry : κ × α} {entries : List (κ × α)}
    (member : entry ∈ insertEntry k v entries) : entry = (k, v) ∨ entry ∈ entries := by
  induction entries with
  | nil => simpa [insertEntry] using member
  | cons first rest ih =>
    simp only [insertEntry] at member
    split_ifs at member with before same
    · simpa using member
    · rcases List.mem_cons.mp member with new | old
      · exact .inl new
      · exact .inr (List.mem_cons_of_mem _ old)
    · rcases List.mem_cons.mp member with head | later
      · exact .inr (by simp [head])
      · rcases ih later with new | old
        · exact .inl new
        · exact .inr (List.mem_cons_of_mem _ old)

theorem insertEntry_sorted (k : κ) (v : α) {entries : List (κ × α)}
    (sorted : entries.Pairwise (fun earlier later => earlier.1 < later.1)) :
    (insertEntry k v entries).Pairwise (fun earlier later => earlier.1 < later.1) := by
  induction entries with
  | nil => simp [insertEntry]
  | cons first rest ih =>
    obtain ⟨above, tail⟩ := List.pairwise_cons.mp sorted
    simp only [insertEntry]
    split_ifs with before same
    · refine List.pairwise_cons.mpr ⟨fun entry member => ?_, sorted⟩
      rcases List.mem_cons.mp member with head | later
      · rw [head]; exact before
      · exact before.trans (above entry later)
    · refine List.pairwise_cons.mpr ⟨fun entry member => ?_, tail⟩
      rw [same]; exact above entry member
    · refine List.pairwise_cons.mpr ⟨fun entry member => ?_, ih tail⟩
      rcases mem_insertEntry member with new | old
      · rw [new]; exact lt_of_le_of_ne (not_lt.mp before) (Ne.symm same)
      · exact above entry old

theorem findEntry_insertEntry (k k' : κ) (v : α) (entries : List (κ × α)) :
    findEntry k' (insertEntry k v entries) = if k' = k then some v else findEntry k' entries := by
  induction entries with
  | nil => simp [insertEntry, findEntry]
  | cons first rest ih =>
    simp only [insertEntry]
    by_cases before : k < first.1
    · simp only [before, ↓reduceIte, findEntry]
    · by_cases same : k = first.1
      · subst same
        simp only [lt_irrefl, ↓reduceIte, findEntry]
        split_ifs <;> rfl
      · simp only [before, same, ↓reduceIte, findEntry, ih]
        by_cases here : k' = first.1
        · have other : k' ≠ k := fun equal => same (equal ▸ here)
          simp only [here, ↓reduceIte, here ▸ other]
        · simp only [here, ↓reduceIte]

/-- To change all values and to insert a changed one is the same in either order. -/
theorem insertEntry_map {β : Type} (change : α → β) (k : κ) (v : α) (entries : List (κ × α)) :
    insertEntry k (change v) (entries.map fun entry => (entry.1, change entry.2)) =
      (insertEntry k v entries).map fun entry => (entry.1, change entry.2) := by
  induction entries with
  | nil => rfl
  | cons entry rest ih =>
    rw [List.map_cons, insertEntry, insertEntry]
    split_ifs
    · rfl
    · rfl
    · rw [ih, List.map_cons]

theorem findEntry_eq_some {k : κ} {v : α} {entries : List (κ × α)}
    (sorted : entries.Pairwise (fun earlier later => earlier.1 < later.1)) :
    findEntry k entries = some v ↔ (k, v) ∈ entries := by
  induction entries with
  | nil => simp [findEntry]
  | cons first rest ih =>
    obtain ⟨above, tail⟩ := List.pairwise_cons.mp sorted
    by_cases same : k = first.1
    · have later : (k, v) ∉ rest := fun member => absurd (above _ member) (by simp [same])
      simp [findEntry, same, List.mem_cons, Prod.ext_iff]
      constructor
      · intro value; exact .inl value.symm
      · rintro (value | member)
        · exact value.symm
        · exact absurd (same ▸ member) later
    · simp [findEntry, same, ih tail, Prod.ext_iff]

/-! ### Maps -/

def empty : SortedMap κ α := ⟨[], List.Pairwise.nil⟩

def get? (m : SortedMap κ α) (k : κ) : Option α := findEntry k m.entries

def insert (m : SortedMap κ α) (k : κ) (v : α) : SortedMap κ α :=
  ⟨insertEntry k v m.entries, insertEntry_sorted k v m.sorted⟩

def keys (m : SortedMap κ α) : List κ := m.entries.map Prod.fst

@[simp] theorem get?_empty (k : κ) : (empty : SortedMap κ α).get? k = none := rfl

@[simp] theorem get?_insert (m : SortedMap κ α) (k k' : κ) (v : α) :
    (m.insert k v).get? k' = if k' = k then some v else m.get? k' :=
  findEntry_insertEntry k k' v m.entries

theorem mem_entries {m : SortedMap κ α} {k : κ} {v : α} : (k, v) ∈ m.entries ↔ m.get? k = some v :=
  (findEntry_eq_some m.sorted).symm

theorem mem_keys {m : SortedMap κ α} {k : κ} : k ∈ m.keys ↔ ∃ v, m.get? k = some v := by
  simp [keys, ← mem_entries]

theorem nodup_keys (m : SortedMap κ α) : m.keys.Nodup :=
  List.Pairwise.map Prod.fst (fun _ _ before => ne_of_lt before) m.sorted

/-- The keys of a map in the order in which a hash happens to list them. -/
structure Listing (m : SortedMap κ α) where
  keys : List κ
  perm : keys.Perm m.keys

theorem perm_keys (m : SortedMap κ α) : m.keys.Perm m.keys := List.Perm.refl _

/-- The order of a loop over the sorted keys. -/
def Listing.sorted (m : SortedMap κ α) : m.Listing := ⟨m.keys, perm_keys m⟩

theorem Listing.mem_keys {m : SortedMap κ α} (order : m.Listing) {k : κ} : k ∈ order.keys ↔ ∃ v, m.get? k = some v :=
  order.perm.mem_iff.trans SortedMap.mem_keys

theorem Listing.nodup (m : SortedMap κ α) (order : m.Listing) : order.keys.Nodup := order.perm.nodup_iff.mpr m.nodup_keys

/-! ### Rows loaded under their keys -/

/-- The rows in order, each put under its key. -/
def ofRows (key : ρ → κ) (value : ρ → α) (rows : List ρ) : SortedMap κ α :=
  rows.foldl (fun m row => m.insert (key row) (value row)) empty

theorem ofRows_snoc (key : ρ → κ) (value : ρ → α) (rows : List ρ) (row : ρ) :
    ofRows key value (rows ++ [row]) = (ofRows key value rows).insert (key row) (value row) := by
  simp [ofRows]

theorem get?_ofRows_some {key : ρ → κ} {value : ρ → α} {rows : List ρ} {k : κ} {v : α}
    (found : (ofRows key value rows).get? k = some v) : ∃ row ∈ rows, key row = k ∧ value row = v := by
  induction rows using List.reverseRecOn with
  | nil => simp [ofRows] at found
  | append_singleton rows last ih =>
    rw [ofRows_snoc, get?_insert] at found
    split_ifs at found with here
    · exact ⟨last, by simp, here.symm, Option.some.inj found⟩
    · obtain ⟨row, member, same, read⟩ := ih found
      exact ⟨row, by simp [member], same, read⟩

theorem get?_ofRows_mem (key : ρ → κ) (value : ρ → α) {rows : List ρ} {row : ρ} (member : row ∈ rows) :
    ∃ v, (ofRows key value rows).get? (key row) = some v := by
  induction rows using List.reverseRecOn with
  | nil => simp at member
  | append_singleton rows last ih =>
    rw [ofRows_snoc, get?_insert]
    split_ifs with here
    · exact ⟨_, rfl⟩
    · rcases List.mem_append.mp member with earlier | new
      · exact ih earlier
      · exact absurd (congrArg key (List.mem_singleton.mp new)) here

theorem get?_ofRows_none {key : ρ → κ} {value : ρ → α} {rows : List ρ} {k : κ} (absent : ∀ row ∈ rows, key row ≠ k) :
    (ofRows key value rows).get? k = none := by
  cases found : (ofRows key value rows).get? k with
  | none => rfl
  | some v =>
    obtain ⟨row, member, same, _⟩ := get?_ofRows_some found
    exact absurd same (absent row member)

/-- The last of the rows of a key is the one that the map holds. -/
theorem get?_ofRows_last (key : ρ → κ) (value : ρ → α) (rows : List ρ) (k : κ) [∀ row, Decidable (key row = k)] :
    (ofRows key value rows).get? k = (rows.reverse.find? fun row => key row = k).map value := by
  induction rows using List.reverseRecOn with
  | nil => rfl
  | append_singleton rows last ih =>
    rw [ofRows_snoc, get?_insert, List.reverse_append, List.reverse_singleton, List.singleton_append, List.find?_cons]
    by_cases here : key last = k
    · simp [here]
    · simp [here, ih, Ne.symm here]

/-- Where the rows of a key all carry one value, the map holds that value. -/
theorem get?_ofRows_eq {key : ρ → κ} {value : ρ → α} {rows : List ρ} {row : ρ} (member : row ∈ rows)
    (only : ∀ other ∈ rows, key other = key row → value other = value row) :
    (ofRows key value rows).get? (key row) = some (value row) := by
  obtain ⟨v, found⟩ := get?_ofRows_mem key value member
  obtain ⟨other, otherMember, same, read⟩ := get?_ofRows_some found
  rw [found, ← read, only other otherMember same]

/-- A lookup in a map of rows is a search for the row of the key, where the rows
    of the key all carry one value. -/
theorem get?_ofRows_find? {key : ρ → κ} {value : ρ → α} {rows : List ρ} {k : κ} (search : ρ → Bool)
    (finds : ∀ row ∈ rows, search row = true ↔ key row = k)
    (only : ∀ row ∈ rows, ∀ other ∈ rows, key row = k → key other = k → value other = value row) :
    (ofRows key value rows).get? k = (rows.find? search).map value := by
  cases found : rows.find? search with
  | none =>
    refine get?_ofRows_none ?_
    intro row member same
    exact List.find?_eq_none.mp found row member ((finds row member).mpr same)
  | some row =>
    have member := List.mem_of_find?_eq_some found
    have same := (finds row member).mp (List.find?_some found)
    rw [← same, Option.map_some]
    exact get?_ofRows_eq member fun other otherMember equal => only row member other otherMember same (equal.trans same)

/-- Rows that are loaded under their keys have their values in the same places as
    the rows themselves. -/
theorem entries_ofRows (key : ρ → κ) (value : ρ → α) (rows : List ρ) :
    (ofRows key value rows).entries = (ofRows key id rows).entries.map fun entry => (entry.1, value entry.2) := by
  induction rows using List.reverseRecOn with
  | nil => rfl
  | append_singleton rows last ih =>
    rw [ofRows_snoc, ofRows_snoc]
    exact (congrArg (insertEntry (key last) (value last)) ih).trans (insertEntry_map value (key last) last _)

/-! ### Two levels -/

variable {κ' : Type} [LinearOrder κ']

def getAt? (m : SortedMap κ (SortedMap κ' α)) (a : κ) (b : κ') : Option α := (m.get? a).bind fun inner => inner.get? b

def insertAt (m : SortedMap κ (SortedMap κ' α)) (a : κ) (b : κ') (v : α) : SortedMap κ (SortedMap κ' α) :=
  m.insert a (((m.get? a).getD empty).insert b v)

@[simp] theorem getAt?_empty (a : κ) (b : κ') : (empty : SortedMap κ (SortedMap κ' α)).getAt? a b = none := rfl

@[simp] theorem getAt?_insertAt (m : SortedMap κ (SortedMap κ' α)) (a a' : κ) (b b' : κ') (v : α) :
    (m.insertAt a b v).getAt? a' b' = if a' = a ∧ b' = b then some v else m.getAt? a' b' := by
  by_cases outer : a' = a
  · subst outer
    by_cases inner : b' = b
    · simp [getAt?, insertAt, inner]
    · cases found : m.get? a' <;> simp [getAt?, insertAt, inner, found]
  · simp [getAt?, insertAt, outer]

theorem getAt?_eq_some {m : SortedMap κ (SortedMap κ' α)} {a : κ} {b : κ'} {v : α} :
    m.getAt? a b = some v ↔ ∃ inner, m.get? a = some inner ∧ inner.get? b = some v := by
  simp [getAt?, Option.bind_eq_some_iff]

/-- The rows in order, each put under its two keys. -/
def ofRowsAt (outer : ρ → κ) (inner : ρ → κ') (value : ρ → α) (rows : List ρ) : SortedMap κ (SortedMap κ' α) :=
  rows.foldl (fun m row => m.insertAt (outer row) (inner row) (value row)) empty

theorem ofRowsAt_snoc (outer : ρ → κ) (inner : ρ → κ') (value : ρ → α) (rows : List ρ) (row : ρ) :
    ofRowsAt outer inner value (rows ++ [row]) =
      (ofRowsAt outer inner value rows).insertAt (outer row) (inner row) (value row) := by
  simp [ofRowsAt]

theorem getAt?_ofRowsAt_some {outer : ρ → κ} {inner : ρ → κ'} {value : ρ → α} {rows : List ρ} {a : κ} {b : κ'} {v : α}
    (found : (ofRowsAt outer inner value rows).getAt? a b = some v) :
    ∃ row ∈ rows, outer row = a ∧ inner row = b ∧ value row = v := by
  induction rows using List.reverseRecOn with
  | nil => simp [ofRowsAt] at found
  | append_singleton rows last ih =>
    rw [ofRowsAt_snoc, getAt?_insertAt] at found
    split_ifs at found with here
    · exact ⟨last, by simp, here.1.symm, here.2.symm, Option.some.inj found⟩
    · obtain ⟨row, member, sameOuter, sameInner, read⟩ := ih found
      exact ⟨row, by simp [member], sameOuter, sameInner, read⟩

theorem getAt?_ofRowsAt_mem (outer : ρ → κ) (inner : ρ → κ') (value : ρ → α) {rows : List ρ} {row : ρ}
    (member : row ∈ rows) : ∃ v, (ofRowsAt outer inner value rows).getAt? (outer row) (inner row) = some v := by
  induction rows using List.reverseRecOn with
  | nil => simp at member
  | append_singleton rows last ih =>
    rw [ofRowsAt_snoc, getAt?_insertAt]
    split_ifs with here
    · exact ⟨_, rfl⟩
    · rcases List.mem_append.mp member with earlier | new
      · exact ih earlier
      · have same := List.mem_singleton.mp new
        exact absurd ⟨congrArg outer same, congrArg inner same⟩ here

/-- The inner entries of all maps, in the order of both keys. -/
def inners (m : SortedMap κ (SortedMap κ' α)) : List (κ' × α) := m.entries.flatMap fun entry => entry.2.entries

theorem mem_inners {m : SortedMap κ (SortedMap κ' α)} {b : κ'} {v : α} :
    (b, v) ∈ m.inners ↔ ∃ a, m.getAt? a b = some v := by
  simp only [inners, List.mem_flatMap, getAt?_eq_some]
  constructor
  · rintro ⟨⟨a, inner⟩, member, innerMember⟩
    exact ⟨a, inner, mem_entries.mp member, mem_entries.mp innerMember⟩
  · rintro ⟨a, inner, found, innerFound⟩
    exact ⟨(a, inner), mem_entries.mpr found, mem_entries.mpr innerFound⟩

/-- Inner keys that determine their outer key are listed once. -/
theorem nodup_inners {m : SortedMap κ (SortedMap κ' α)}
    (determined : ∀ a a' b v v', m.getAt? a b = some v → m.getAt? a' b = some v' → a = a') :
    (m.inners.map Prod.fst).Nodup := by
  rw [inners, List.map_flatMap, List.nodup_flatMap]
  refine ⟨fun entry _ => entry.2.nodup_keys, ?_⟩
  refine List.Pairwise.imp_of_mem ?_ m.sorted
  rintro ⟨a, inner⟩ ⟨a', inner'⟩ member member' before b here there
  obtain ⟨v, found⟩ := mem_keys.mp here
  obtain ⟨v', found'⟩ := mem_keys.mp there
  refine before.ne (determined a a' b v v' ?_ ?_)
  · exact getAt?_eq_some.mpr ⟨inner, mem_entries.mp member, found⟩
  · exact getAt?_eq_some.mpr ⟨inner', mem_entries.mp member', found'⟩

end SortedMap
end Cdo
