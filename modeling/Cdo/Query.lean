import Cdo.SortedMap

/-!
The parts of SQL that the queries use: nullable integer columns and their sums
(`sumColumn`), the rows of two tables that meet a join condition (`join`) and
the rows of a table grouped by a key (`groupRows`), loaded into a map under the
keys of the groups (`groupMap`). Reading a sum out of such a map gives the sum
over the rows of that key, and 0 where there is none (`num_groupSum`); adding up
the groups gives the sum over all rows (`sum_fibers`).
-/
namespace Cdo.Query
variable {ρ σ κ : Type} [LinearOrder κ] [DecidableEq κ]

/-- The numeric value of a nullable integer: a missing value counts as 0. -/
def num (value : Option Int) : Int := value.getD 0

@[simp] theorem num_none : num none = 0 := rfl
@[simp] theorem num_some (i : Int) : num (some i) = i := rfl

/-- The sum of a column over rows: missing values are passed over, and a column
    without any value has no sum. -/
def sumColumn (column : ρ → Option Int) (rows : List ρ) : Option Int :=
  if rows.all (fun row => (column row).isNone) then none else some ((rows.map (fun row => num (column row))).sum)

theorem num_sumColumn (column : ρ → Option Int) (rows : List ρ) :
    num (sumColumn column rows) = (rows.map (fun row => num (column row))).sum := by
  unfold sumColumn
  split_ifs with missing
  · have zero : ∀ entry ∈ rows.map (fun row => num (column row)), entry = 0 := by
      intro entry member
      obtain ⟨row, rowMember, rfl⟩ := List.mem_map.mp member
      have none : column row = none := by simpa using List.all_eq_true.mp missing row rowMember
      simp [none]
    rw [List.sum_eq_zero zero, num_none]
  · rfl

def join (on : ρ → σ → Bool) (rows : List ρ) (others : List σ) : List (ρ × σ) :=
  rows.flatMap fun row => (others.filter (on row)).map fun other => (row, other)

theorem mem_join {on : ρ → σ → Bool} {rows : List ρ} {others : List σ} {pair : ρ × σ} :
    pair ∈ join on rows others ↔ pair.1 ∈ rows ∧ pair.2 ∈ others ∧ on pair.1 pair.2 = true := by
  obtain ⟨row, other⟩ := pair
  simp only [join, List.mem_flatMap, List.mem_map, List.mem_filter, Prod.mk.injEq]
  constructor
  · rintro ⟨row', rowMember, other', ⟨otherMember, met⟩, rfl, rfl⟩
    exact ⟨rowMember, otherMember, met⟩
  · rintro ⟨rowMember, otherMember, met⟩
    exact ⟨row, rowMember, other, ⟨otherMember, met⟩, rfl, rfl⟩

theorem nodup_join {on : ρ → σ → Bool} {rows : List ρ} {others : List σ} (own : rows.Nodup) (othersOwn : others.Nodup) :
    (join on rows others).Nodup := by
  have product : join on rows others = (rows.product others).filter fun pair => on pair.1 pair.2 := by
    rw [List.product, List.filter_flatMap]
    refine List.flatMap_congr fun row _ => ?_
    rw [List.filter_map]
    rfl
  rw [product]
  exact (own.product othersOwn).filter _

/-- A sum over joined rows counts each row once for every row it is joined with. -/
theorem sum_join (on : ρ → σ → Bool) (rows : List ρ) (others : List σ) (keep : ρ × σ → Bool) (value : ρ → Int) :
    (((join on rows others).filter keep).map (fun pair => value pair.1)).sum =
      (rows.map (fun row => (others.countP (fun other => on row other && keep (row, other)) : Int) * value row)).sum := by
  induction rows with
  | nil => rfl
  | cons row rest ih =>
    have head : ((((others.filter (on row)).map fun other => (row, other)).filter keep).map
        (fun pair => value pair.1)).sum =
          (others.countP (fun other => on row other && keep (row, other)) : Int) * value row := by
      rw [List.filter_map, List.map_map, List.filter_filter, List.countP_eq_length_filter]
      simp [Function.comp_def, Bool.and_comm]
    have split : join on (row :: rest) others =
        ((others.filter (on row)).map fun other => (row, other)) ++ join on rest others := by
      simp [join]
    rw [split, List.filter_append, List.map_append, List.sum_append, head, ih, List.map_cons, List.sum_cons]

/-- A sum of values with weights 0 outside a condition is a sum over the rows
    that meet it. -/
theorem sum_weighted (rows : List ρ) (keep : ρ → Bool) (weight : ρ → Int) (value : ρ → Int) (w : Int)
    (inside : ∀ row ∈ rows, keep row = true → weight row = w) (outside : ∀ row ∈ rows, keep row = false → weight row = 0) :
    (rows.map (fun row => weight row * value row)).sum = w * ((rows.filter keep).map value).sum := by
  induction rows with
  | nil => simp
  | cons row rest ih =>
    have tail := ih (fun other member => inside other (by simp [member]))
      (fun other member => outside other (by simp [member]))
    cases kept : keep row with
    | true => simp [kept, tail, inside row (by simp) kept, mul_add]
    | false => simp [kept, tail, outside row (by simp) kept]

def groupRows (key : ρ → κ) (rows : List ρ) : List (κ × List ρ) :=
  ((rows.map key).dedup).map fun k => (k, rows.filter (fun row => key row = k))

/-- The groups of rows loaded into a map, each as a record computed from its rows. -/
def groupMap {α : Type} (key : ρ → κ) (record : List ρ → α) (rows : List ρ) : SortedMap κ α :=
  SortedMap.ofRows Prod.fst (fun group => record group.2) (groupRows key rows)

theorem get?_groupMap {α : Type} (key : ρ → κ) (record : List ρ → α) (rows : List ρ) (k : κ) :
    (groupMap key record rows).get? k =
      if k ∈ rows.map key then some (record (rows.filter (fun row => key row = k))) else none := by
  unfold groupMap
  split_ifs with present
  · have listed : (k, rows.filter (fun row => key row = k)) ∈ groupRows key rows :=
      List.mem_map.mpr ⟨k, List.mem_dedup.mpr present, rfl⟩
    refine SortedMap.get?_ofRows_eq listed ?_
    intro other member same
    obtain ⟨k', -, rfl⟩ := List.mem_map.mp member
    have equal : k' = k := same
    rw [equal]
  · refine SortedMap.get?_ofRows_none ?_
    intro group member same
    obtain ⟨k', dedupMember, rfl⟩ := List.mem_map.mp member
    exact present (same ▸ List.mem_dedup.mp dedupMember)

theorem get?_groupMap_eq_some {α : Type} {key : ρ → κ} {record : List ρ → α} {rows : List ρ} {k : κ} {value : α} :
    (groupMap key record rows).get? k = some value ↔
      (∃ row ∈ rows, key row = k) ∧ record (rows.filter fun row => key row = k) = value := by
  rw [get?_groupMap, ← List.mem_map]
  split_ifs with present
  · simp [present]
  · simp [present]

/-- A column summed in the group of a key is the sum over the rows of that key;
    a key without rows reads as 0. -/
theorem num_groupSum {α : Type} (key : ρ → κ) (record : List ρ → α) (read : α → Option Int) (column : ρ → Option Int)
    (reads : ∀ rows, read (record rows) = sumColumn column rows) (rows : List ρ) (k : κ) :
    num (((groupMap key record rows).get? k).bind read) =
      ((rows.filter (fun row => key row = k)).map (fun row => num (column row))).sum := by
  rw [get?_groupMap]
  split_ifs with present
  · rw [Option.bind_some, reads, num_sumColumn]
  · have none : rows.filter (fun row => key row = k) = [] := by
      refine List.filter_eq_nil_iff.mpr ?_
      intro row member
      simpa using fun same : key row = k => present (same ▸ List.mem_map_of_mem member)
    simp [none]

/-! ### Sums over groups -/

theorem sum_filter_congr {rows : List ρ} {p q : ρ → Bool} {value : ρ → Int} (same : ∀ row ∈ rows, p row = q row) :
    ((rows.filter p).map value).sum = ((rows.filter q).map value).sum := by
  rw [List.filter_congr same]

theorem sum_filter_or (rows : List ρ) (p q : ρ → Bool) (value : ρ → Int)
    (apart : ∀ row ∈ rows, p row = true → q row = false) :
    ((rows.filter fun row => p row || q row).map value).sum =
      ((rows.filter p).map value).sum + ((rows.filter q).map value).sum := by
  induction rows with
  | nil => simp
  | cons row rest ih =>
    have tail := ih fun other member => apart other (List.mem_cons_of_mem _ member)
    cases isP : p row with
    | true =>
      have notQ := apart row List.mem_cons_self isP
      simp only [List.filter_cons, isP, notQ, Bool.true_or, if_true, List.map_cons, List.sum_cons, tail]
      simp only [Bool.false_eq_true, if_false]
      omega
    | false =>
      cases isQ : q row with
      | true =>
        simp only [List.filter_cons, isP, isQ, Bool.or_true, if_true, List.map_cons, List.sum_cons, tail]
        simp only [Bool.false_eq_true, if_false]
        omega
      | false => simpa [List.filter_cons, isP, isQ] using tail

omit [LinearOrder κ] in
/-- Keys that are listed once share a sum out among the rows of each key. -/
theorem sum_fibers {keys : List κ} (once : keys.Nodup) (key : ρ → κ) (value : ρ → Int) {rows : List ρ}
    (covered : ∀ row ∈ rows, key row ∈ keys) :
    (keys.map fun k => ((rows.filter fun row => key row = k).map value).sum).sum = (rows.map value).sum := by
  induction rows with
  | nil => simp
  | cons row rest ih =>
    have tail := ih fun other member => covered other (List.mem_cons_of_mem _ member)
    have head : (keys.map fun k => if key row = k then value row else 0).sum = value row := by
      simp only [eq_comm (a := key row)]
      rw [List.sum_map_ite_eq, List.count_eq_one_of_mem once (covered row List.mem_cons_self)]
      simp
    have split : ∀ k, (((row :: rest).filter fun row => key row = k).map value).sum =
        (if key row = k then value row else 0) + ((rest.filter fun row => key row = k).map value).sum := by
      intro k
      by_cases same : key row = k
      · simp [same]
      · simp [same]
    simp only [split]
    rw [List.sum_map_add, head, tail, List.map_cons, List.sum_cons]

theorem keys_groupMap {α : Type} (key : ρ → κ) (record : List ρ → α) (rows : List ρ) {k : κ} :
    k ∈ (groupMap key record rows).keys ↔ ∃ row ∈ rows, key row = k := by
  rw [SortedMap.mem_keys]
  constructor
  · rintro ⟨value, found⟩
    exact (get?_groupMap_eq_some.mp found).1
  · exact fun present => ⟨_, get?_groupMap_eq_some.mpr ⟨present, rfl⟩⟩

/-- Every entry of a map of groups is the record of the rows of its key. -/
theorem entries_groupMap {α : Type} (key : ρ → κ) (record : List ρ → α) (rows : List ρ) :
    (groupMap key record rows).entries =
      (groupMap key record rows).keys.map fun k => (k, record (rows.filter fun row => key row = k)) := by
  rw [SortedMap.keys, List.map_map]
  refine (List.map_id _).symm.trans (List.map_congr_left fun entry member => ?_)
  have found := SortedMap.mem_entries.mp (show (entry.1, entry.2) ∈ (groupMap key record rows).entries from member)
  rw [Function.comp_apply, (get?_groupMap_eq_some.mp found).2]
  rfl

end Cdo.Query
