import Cdo.LogWindow
import Mathlib.Data.Finset.Basic

/-!
Any sequence of calls of `cdoAggregate` (`dataAggregation.pm`). The table
`DisplayLogsByDOWHour` is meant to hold the sums of the logs over a set of dates,
and a call to put one date into the set and to take another out of it. A row
with a NULL counter or an account name that ends its quotes is printed into a
text that is no statement, and such a row is passed over (`windows_exact_iff`).
-/
namespace Cdo.WindowMoves
open Cdo.Text Cdo.Query Cdo.Tables Cdo.Logs Cdo.LogWindow

/-! ### Sums over a set of dates -/

inductive Counter where
  | impressions | clicks | actions | conversions
deriving DecidableEq

def Counter.ofLog (counter : Counter) (row : LogRow) : Option Int :=
  match counter with
  | .impressions => row.impressions
  | .clicks => row.clicks
  | .actions => row.actions
  | .conversions => row.conversions

def Counter.ofWindow (counter : Counter) (row : WindowRow) : Option Int :=
  match counter with
  | .impressions => row.impressions
  | .clicks => row.clicks
  | .actions => row.actions
  | .conversions => row.conversions

/-- What a row adds to a sum; a NULL adds nothing. -/
def Counter.logged (counter : Counter) (row : LogRow) : Int := num (counter.ofLog row)

def Counter.sum (counter : Counter) (logs : LogTable) (dates : Finset Date) (k : WindowKey) : Int :=
  counted counter.logged logs (fun date => decide (date ∈ dates)) k

/-- The table has a row for every key that is logged on one of the dates, and the
    sums over the dates in all of its rows. -/
structure Sums (logs : LogTable) (dates : Finset Date) (table : WindowTable) : Prop where
  logged : ∀ row ∈ logs.rows, row.date ∈ dates → table.Has (windowKey row)
  shown : ∀ row ∈ table.rows, ∀ counter : Counter, counter.ofWindow row = some (counter.sum logs dates row.key)

/-! ### Calls -/

structure Call where
  order : HashOrder
  addDate : Date
  removeDate : Date

def Call.dates (call : Call) (dates : Finset Date) : Finset Date := (insert call.addDate dates).erase call.removeDate

def Call.table (reads : Literals) (logs : LogTable) (call : Call) (table : WindowTable) : WindowTable :=
  cdoAggregate reads call.order logs (some call.addDate) (some call.removeDate) table

def datesAfter (calls : Nat → Call) (dates : Finset Date) : Nat → Finset Date
  | 0 => dates
  | number + 1 => (calls number).dates (datesAfter calls dates number)

def windowAfter (reads : Literals) (logs : LogTable) (calls : Nat → Call) (table : WindowTable) : Nat → WindowTable
  | 0 => table
  | number + 1 => (calls number).table reads logs (windowAfter reads logs calls table number)

/-! ### Rows that are passed over -/

/-- The text for a row of the date to add is a statement. -/
def inserts (reads : Literals) (row : LogRow) : Bool := (counts row).isSome && (reads (row.san.getD [])).isSome

/-- The text for a row of the date to remove is a statement. -/
def subtracts (row : LogRow) : Bool := (counts row).isSome

def Counter.notInserted (counter : Counter) (reads : Literals) (row : LogRow) : Int :=
  if inserts reads row then 0 else counter.logged row

def Counter.notSubtracted (counter : Counter) (row : LogRow) : Int := if subtracts row then 0 else counter.logged row

/-- No key misses its row, and under every key as much is not inserted as is not
    subtracted. -/
structure Moves (reads : Literals) (logs : LogTable) (call : Call) (table : WindowTable) : Prop where
  known : ∀ row ∈ logs.rows, row.date = call.addDate → inserts reads row = true ∨ table.Has (windowKey row)
  balanced : ∀ (counter : Counter) (k : WindowKey),
    counted (counter.notInserted reads) logs (· == call.addDate) k =
      counted counter.notSubtracted logs (· == call.removeDate) k

/-! ### The rows that are listed -/

section
variable {logs : LogTable} {order : HashOrder}

theorem not_mem_idFields (row : LogRow) :
    ∀ field ∈ [intText row.adid, intText row.siteid, intText row.segmentid, natText row.hour], '_' ∉ field := by
  have plain : ∀ i : Int, '_' ∉ intText i := not_mem_intText (by decide) (by decide)
  have hour : '_' ∉ natText row.hour := not_mem_natText (by decide) row.hour
  simp [plain, hour]

/-- On a date and with an account name, no two rows are fetched under one text. -/
theorem eq_of_idText {row other : LogRow} (member : row ∈ logs.rows) (otherMember : other ∈ logs.rows)
    (dates : row.date = other.date) (san : row.san ≠ none) (otherSan : other.san ≠ none)
    (ids : idText row = idText other) : row = other := by
  obtain ⟨name, isSan⟩ := Option.ne_none_iff_exists'.mp san
  obtain ⟨otherName, isOtherSan⟩ := Option.ne_none_iff_exists'.mp otherSan
  simp only [idText, isSan, isOtherSan] at ids
  obtain ⟨-, fields⟩ := joined_tail_injective (by simp) (not_mem_idFields row) (not_mem_idFields other) ids
  simp only [List.cons.injEq, and_true] at fields
  obtain ⟨adid, siteid, segmentid, hour⟩ := fields
  refine logs.eq_of_key member otherMember ?_
  rw [LogRow.key, LogRow.key, dates, natText_injective hour, intText_injective adid, intText_injective siteid,
    intText_injective segmentid]

theorem mem_listed_date (nonNull : ∀ row ∈ logs.rows, row.san ≠ none) {date : Date} {row : LogRow} :
    row ∈ listed order (fetched (some date) logs) ↔ row ∈ logs.rows ∧ row.date = date := by
  rw [mem_listed]
  constructor
  · rintro ⟨id, found⟩
    obtain ⟨inLogs, isDate, -⟩ := fetched_some found
    exact ⟨inLogs, (Option.some.inj isDate).symm⟩
  · rintro ⟨inLogs, rfl⟩
    have isRow : row ∈ logs.rows.filter fun other => some row.date == some other.date :=
      List.mem_filter.mpr ⟨inLogs, by simp⟩
    refine ⟨idText row, SortedMap.get?_ofRows_eq isRow fun other otherMember ids => ?_⟩
    obtain ⟨otherIn, otherDate⟩ := List.mem_filter.mp otherMember
    have dates : other.date = row.date := (Option.some.inj (beq_iff_eq.mp otherDate)).symm
    exact eq_of_idText otherIn inLogs dates (nonNull other otherIn) (nonNull row inLogs) ids

/-- All rows of the date are listed, each once. -/
theorem listed_perm (nonNull : ∀ row ∈ logs.rows, row.san ≠ none) (date : Date) :
    (listed order (fetched (some date) logs)).Perm (logs.rows.filter fun row => row.date == date) := by
  refine (List.perm_ext_iff_of_nodup (listed_once (some date)).of_map (logs.nodup.of_map.filter _)).mpr fun row => ?_
  rw [mem_listed_date nonNull, List.mem_filter, beq_iff_eq]

/-- The sum of what the listed rows of a key come to. -/
theorem listed_sum (nonNull : ∀ row ∈ logs.rows, row.san ≠ none) (date : Date) (value : LogRow → Int) (k : WindowKey) :
    (((listed order (fetched (some date) logs)).filter fun row => windowKey row == k).map value).sum =
      counted value logs (· == date) k := by
  rw [(((listed_perm nonNull date).filter _).map value).sum_eq, List.filter_filter, counted]
  exact congrArg (fun rows => (rows.map value).sum) (List.filter_congr fun row _ => Bool.and_comm _ _)

end

/-! ### What the statements do -/

def Counter.inserted (counter : Counter) (reads : Literals) (row : LogRow) : Int :=
  if inserts reads row then counter.logged row else 0

def Counter.subtracted (counter : Counter) (row : LogRow) : Int := if subtracts row then counter.logged row else 0

/-- The table has these sums in all its rows, and there is none under other keys. -/
def Totals (table : WindowTable) (sums : Counter → WindowKey → Int) : Prop :=
  ∀ counter k,
    match table.get? k with
    | none => sums counter k = 0
    | some row => counter.ofWindow row = some (sums counter k)

theorem counts_logged {row : LogRow} {c : Counts} (printed : counts row = some c) (counter : Counter) :
    (∀ san, counter.ofWindow (newRow row san c) = some (counter.logged row)) ∧
      (∀ w, counter.ofWindow (w.add c) = (counter.ofWindow w).map (· + counter.logged row)) ∧
      ∀ w, counter.ofWindow (w.subtract c) = (counter.ofWindow w).map (· - counter.logged row) := by
  simp only [counts, Option.bind_eq_bind, Option.bind_eq_some_iff, Option.pure_def, Option.some.injEq] at printed
  obtain ⟨n, isN, k, isK, a, isA, conv, isConv, spend, -, rfl⟩ := printed
  cases counter with
  | impressions => simp [Counter.ofWindow, Counter.logged, Counter.ofLog, newRow, WindowRow.add, WindowRow.subtract, isN]
  | clicks => simp [Counter.ofWindow, Counter.logged, Counter.ofLog, newRow, WindowRow.add, WindowRow.subtract, isK]
  | actions => simp [Counter.ofWindow, Counter.logged, Counter.ofLog, newRow, WindowRow.add, WindowRow.subtract, isA]
  | conversions =>
    simp [Counter.ofWindow, Counter.logged, Counter.ofLog, newRow, WindowRow.add, WindowRow.subtract, isConv]

section
variable {reads : Literals} {table : WindowTable} {row : LogRow} {k : WindowKey}

/-- A row is inserted or added to the row of its key, or it is passed over. -/
theorem insertRow_cases (reads : Literals) (table : WindowTable) (row : LogRow) :
    (inserts reads row = false ∧ insertRow reads table row = table) ∨
      ∃ c san, inserts reads row = true ∧ counts row = some c ∧ ∀ k, (insertRow reads table row).get? k =
        if k = windowKey row then some ((table.get? k).elim (newRow row san c) (WindowRow.add c)) else table.get? k := by
  cases printed : counts row with
  | none => exact .inl ⟨by simp [inserts, printed], by simp [insertRow, printed]⟩
  | some c =>
    cases isRead : reads (row.san.getD []) with
    | none => exact .inl ⟨by simp [inserts, isRead], by simp [insertRow, printed, isRead]⟩
    | some san =>
      refine .inr ⟨c, san, by simp [inserts, printed, isRead], rfl, fun k => ?_⟩
      simp only [insertRow, printed, isRead]
      exact KeyedTable.get?_upsert

theorem has_insertRow : (insertRow reads table row).Has k ↔ table.Has k ∨ (inserts reads row = true ∧ windowKey row = k) := by
  rw [← not_iff_not, not_or, ← KeyedTable.get?_eq_none, ← KeyedTable.get?_eq_none]
  obtain ⟨passed, same⟩ | ⟨c, san, inserted, -, found⟩ := insertRow_cases reads table row
  · simp [passed, same]
  · rw [found k]
    by_cases isKey : k = windowKey row
    · simp [isKey, inserted]
    · simp [isKey, Ne.symm isKey]

theorem has_removeRow : (removeRow table row).Has k ↔ table.Has k := by
  rw [← not_iff_not, ← KeyedTable.get?_eq_none, ← KeyedTable.get?_eq_none, get?_removeRow]
  split_ifs
  · exact Option.map_eq_none_iff
  · exact Iff.rfl

theorem has_insertRows (rows : List LogRow) (table : WindowTable) :
    (rows.foldl (insertRow reads) table).Has k ↔
      table.Has k ∨ ∃ row ∈ rows, inserts reads row = true ∧ windowKey row = k := by
  induction rows generalizing table with
  | nil => simp
  | cons row rest ih => simp [ih, has_insertRow, or_assoc]

theorem has_removeRows (rows : List LogRow) (table : WindowTable) :
    (rows.foldl removeRow table).Has k ↔ table.Has k := by
  induction rows generalizing table with
  | nil => rfl
  | cons row rest ih => rw [List.foldl_cons, ih, has_removeRow]

end

section
variable {table : WindowTable} {sums : Counter → WindowKey → Int}

theorem totals_insertRow (reads : Literals) (totals : Totals table sums) (row : LogRow) :
    Totals (insertRow reads table row) fun counter k =>
      sums counter k + if windowKey row = k then counter.inserted reads row else 0 := by
  intro counter k
  have shown := totals counter k
  obtain ⟨passed, same⟩ | ⟨c, san, inserted, printed, found⟩ := insertRow_cases reads table row
  · rw [same]
    simpa [Counter.inserted, passed] using shown
  · obtain ⟨isNew, isAdded, -⟩ := counts_logged printed counter
    rw [found k]
    by_cases isKey : k = windowKey row
    · subst isKey
      cases old : table.get? (windowKey row) with
      | none =>
        rw [old] at shown
        simp [Counter.inserted, inserted, isNew, show sums counter (windowKey row) = 0 from shown]
      | some w =>
        rw [old] at shown
        simp [Counter.inserted, inserted, isAdded, show counter.ofWindow w = some (sums counter (windowKey row)) from shown]
    · simpa [isKey, Ne.symm isKey] using shown

theorem totals_removeRow (totals : Totals table sums) {row : LogRow} (has : table.Has (windowKey row)) :
    Totals (removeRow table row) fun counter k =>
      sums counter k - if windowKey row = k then counter.subtracted row else 0 := by
  intro counter k
  have shown := totals counter k
  rw [get?_removeRow]
  by_cases isKey : k = windowKey row
  · subst isKey
    cases old : table.get? (windowKey row) with
    | none => exact absurd has (KeyedTable.get?_eq_none.mp old)
    | some w =>
      rw [old] at shown
      have isSum : counter.ofWindow w = some (sums counter (windowKey row)) := shown
      cases printed : counts row with
      | none => simp [removed, printed, Counter.subtracted, subtracts, isSum]
      | some c => simp [removed, printed, Counter.subtracted, subtracts, (counts_logged printed counter).2.2, isSum]
  · simpa [isKey, Ne.symm isKey] using shown

/-- After rows were inserted the table has what it had and what was inserted. -/
theorem totals_insertRows (reads : Literals) (totals : Totals table sums) (rows : List LogRow) :
    Totals (rows.foldl (insertRow reads) table) fun counter k =>
      sums counter k + ((rows.filter fun row => windowKey row == k).map (counter.inserted reads)).sum := by
  induction rows generalizing table sums with
  | nil => simpa using totals
  | cons row rest ih =>
    have rest := ih (totals_insertRow reads totals row)
    rw [List.foldl_cons]
    convert rest using 3 with counter k
    by_cases isKey : windowKey row = k
    · simp [isKey, add_assoc]
    · simp [isKey]

theorem totals_removeRows (totals : Totals table sums) {rows : List LogRow}
    (has : ∀ row ∈ rows, table.Has (windowKey row)) :
    Totals (rows.foldl removeRow table) fun counter k =>
      sums counter k - ((rows.filter fun row => windowKey row == k).map counter.subtracted).sum := by
  induction rows generalizing table sums with
  | nil => simpa using totals
  | cons row rest ih =>
    have rest := ih (totals_removeRow totals (has row List.mem_cons_self)) fun other member =>
      has_removeRow.mpr (has other (List.mem_cons_of_mem _ member))
    rw [List.foldl_cons]
    convert rest using 3 with counter k
    by_cases isKey : windowKey row = k
    · simp [isKey, sub_sub]
    · simp [isKey]

end

/-! ### A call -/

section
variable {reads : Literals} {logs : LogTable} {dates : Finset Date} {table : WindowTable} {call : Call}

theorem totals_of_sums (sums : Sums logs dates table) : Totals table fun counter k => counter.sum logs dates k := by
  intro counter k
  cases found : table.get? k with
  | none =>
    refine counted_none fun row member inside isKey => ?_
    have has := sums.logged row member (of_decide_eq_true inside)
    exact KeyedTable.get?_eq_none.mp found (isKey ▸ has)
  | some row =>
    obtain ⟨member, rfl⟩ := KeyedTable.get?_eq_some.mp found
    exact sums.shown row member counter

theorem counted_add (first second : LogRow → Int) (dates : Date → Bool) (k : WindowKey) :
    counted (fun row => first row + second row) logs dates k = counted first logs dates k + counted second logs dates k :=
  List.sum_map_add

/-- What a date counts is what is inserted of it and what is not. -/
theorem counted_inserted (counter : Counter) (reads : Literals) (dates : Date → Bool) (k : WindowKey) :
    counted counter.logged logs dates k =
      counted (counter.inserted reads) logs dates k + counted (counter.notInserted reads) logs dates k := by
  rw [← counted_add]
  refine congrArg (fun value => counted value logs dates k) (funext fun row => ?_)
  cases isInserted : inserts reads row <;> simp [Counter.inserted, Counter.notInserted, isInserted]

theorem counted_subtracted (counter : Counter) (dates : Date → Bool) (k : WindowKey) :
    counted counter.logged logs dates k =
      counted counter.subtracted logs dates k + counted counter.notSubtracted logs dates k := by
  rw [← counted_add]
  refine congrArg (fun value => counted value logs dates k) (funext fun row => ?_)
  cases isSubtracted : subtracts row <;> simp [Counter.subtracted, Counter.notSubtracted, isSubtracted]

/-- The sums move with the set of dates. -/
theorem sum_dates (new : call.addDate ∉ dates) (old : call.removeDate ∈ dates) (counter : Counter) (k : WindowKey) :
    counter.sum logs (call.dates dates) k + counted counter.logged logs (· == call.removeDate) k =
      counter.sum logs dates k + counted counter.logged logs (· == call.addDate) k := by
  have apart : call.addDate ≠ call.removeDate := fun same => new (same ▸ old)
  rw [Counter.sum, Counter.sum, ← counted_or, ← counted_or]
  · refine congrArg (fun dates => counted _ logs dates k) (funext fun date => ?_)
    rw [Bool.eq_iff_iff]
    simp only [Call.dates, Finset.mem_erase, Finset.mem_insert, Bool.or_eq_true, decide_eq_true_eq, beq_iff_eq]
    constructor
    · rintro (⟨-, rfl | inside⟩ | rfl)
      · exact .inr rfl
      · exact .inl inside
      · exact .inl old
    · rintro (inside | rfl)
      · by_cases removed : date = call.removeDate
        · exact .inr removed
        · exact .inl ⟨removed, .inr inside⟩
      · exact .inl ⟨apart, .inl rfl⟩
  · intro date inside
    refine beq_eq_false_iff_ne.mpr fun same => new ?_
    exact same ▸ of_decide_eq_true inside
  · intro date inside
    refine beq_eq_false_iff_ne.mpr fun same => ?_
    exact (Finset.mem_erase.mp (of_decide_eq_true inside)).1 same

variable (nonNull : ∀ row ∈ logs.rows, row.san ≠ none)
include nonNull

theorem has_table {k : WindowKey} : (call.table reads logs table).Has k ↔
    table.Has k ∨ ∃ row ∈ logs.rows, row.date = call.addDate ∧ inserts reads row = true ∧ windowKey row = k := by
  rw [Call.table, cdoAggregate, has_removeRows, has_insertRows]
  simp only [mem_listed_date nonNull, and_assoc]

theorem totals_table (old : call.removeDate ∈ dates) (sums : Sums logs dates table) :
    Totals (call.table reads logs table) fun counter k =>
      counter.sum logs dates k + counted (counter.inserted reads) logs (· == call.addDate) k -
        counted counter.subtracted logs (· == call.removeDate) k := by
  have added := totals_insertRows reads (totals_of_sums sums) (listed call.order (fetched (some call.addDate) logs))
  have has : ∀ row ∈ listed call.order (fetched (some call.removeDate) logs),
      ((listed call.order (fetched (some call.addDate) logs)).foldl (insertRow reads) table).Has (windowKey row) := by
    intro row member
    obtain ⟨inLogs, isDate⟩ := (mem_listed_date nonNull).mp member
    exact (has_insertRows _ table).mpr (.inl (sums.logged row inLogs (isDate ▸ old)))
  have removed := totals_removeRows added has
  simp only [listed_sum nonNull] at removed
  exact removed

omit nonNull in
/-- The table's numbers are the moved sums where as much is not inserted as is not
    subtracted. -/
theorem sum_moved (new : call.addDate ∉ dates) (old : call.removeDate ∈ dates) (counter : Counter) (k : WindowKey) :
    counter.sum logs dates k + counted (counter.inserted reads) logs (· == call.addDate) k -
        counted counter.subtracted logs (· == call.removeDate) k = counter.sum logs (call.dates dates) k ↔
      counted (counter.notInserted reads) logs (· == call.addDate) k =
        counted counter.notSubtracted logs (· == call.removeDate) k := by
  have moved := @sum_dates logs dates call new old counter k
  have added := @counted_inserted logs counter reads (· == call.addDate) k
  have removed := @counted_subtracted logs counter (· == call.removeDate) k
  omega

/-- A table with the sums over some dates has those over the moved dates after a
    call exactly if the call moves them. -/
theorem sums_iff (new : call.addDate ∉ dates) (old : call.removeDate ∈ dates) (sums : Sums logs dates table) :
    Sums logs (call.dates dates) (call.table reads logs table) ↔ Moves reads logs call table := by
  have totals := @totals_table reads logs dates table call nonNull old sums
  constructor
  · intro after
    refine ⟨fun row member isDate => ?_, fun counter k => ?_⟩
    · have apart : call.addDate ≠ call.removeDate := fun same => new (same ▸ old)
      have inside : row.date ∈ call.dates dates :=
        Finset.mem_erase.mpr ⟨isDate ▸ apart, isDate ▸ Finset.mem_insert_self _ _⟩
      obtain known | ⟨other, otherMember, otherDate, inserted, isKey⟩ :=
        (has_table nonNull).mp (after.logged row member inside)
      · exact .inr known
      · exact .inl (eq_of_windowKey otherMember member (otherDate.trans isDate.symm) isKey ▸ inserted)
    · rw [← sum_moved new old]
      have shown := totals counter k
      have expected := totals_of_sums after counter k
      cases found : (call.table reads logs table).get? k with
      | none =>
        rw [found] at shown expected
        exact Eq.trans shown (Eq.symm expected)
      | some row =>
        rw [found] at shown expected
        exact Option.some.inj (shown.symm.trans expected)
  · intro moves
    refine ⟨fun row member inside => ?_, fun row member counter => ?_⟩
    · rw [has_table nonNull]
      obtain ⟨-, isDate⟩ := Finset.mem_erase.mp inside
      rcases Finset.mem_insert.mp isDate with added | kept
      · rcases moves.known row member added with inserted | known
        · exact .inr ⟨row, member, added, inserted, rfl⟩
        · exact .inl known
      · exact .inl (sums.logged row member kept)
    · have shown := totals counter row.key
      rw [KeyedTable.get?_eq_some.mpr ⟨member, rfl⟩] at shown
      exact shown.trans (congrArg some ((sum_moved new old counter row.key).mpr (moves.balanced counter row.key)))

end

/-! ### Sequences of calls -/

section
variable {reads : Literals} {logs : LogTable} {calls : Nat → Call} {dates : Finset Date} {table : WindowTable}

/-- After each of a number of calls the table has the sums over the dates that the
    calls have left in the set, exactly if each of the calls moves them. -/
theorem windows_exact_iff (nonNull : ∀ row ∈ logs.rows, row.san ≠ none) (start : Sums logs dates table) (length : Nat)
    (new : ∀ number < length, (calls number).addDate ∉ datesAfter calls dates number)
    (old : ∀ number < length, (calls number).removeDate ∈ datesAfter calls dates number) :
    (∀ number < length,
        Sums logs (datesAfter calls dates (number + 1)) (windowAfter reads logs calls table (number + 1))) ↔
      ∀ number < length, Moves reads logs (calls number) (windowAfter reads logs calls table number) := by
  have step : ∀ number < length, Sums logs (datesAfter calls dates number) (windowAfter reads logs calls table number) →
      (Sums logs (datesAfter calls dates (number + 1)) (windowAfter reads logs calls table (number + 1)) ↔
        Moves reads logs (calls number) (windowAfter reads logs calls table number)) := fun number bound before =>
    sums_iff nonNull (new number bound) (old number bound) before
  constructor
  · intro after number bound
    cases number with
    | zero => exact (step 0 bound start).mp (after 0 bound)
    | succ number => exact (step (number + 1) bound (after number (Nat.lt_of_succ_lt bound))).mp (after (number + 1) bound)
  · intro moves number
    induction number with
    | zero => exact fun bound => (step 0 bound start).mpr (moves 0 bound)
    | succ number ih =>
      intro bound
      exact (step (number + 1) bound (ih (Nat.lt_of_succ_lt bound))).mpr (moves (number + 1) bound)

/-- Rows without NULL counters are all moved if a text without a quote and a
    backslash is read as it is between quotes. -/
theorem moves_of_printable (plain : ∀ text, '\'' ∉ text → '\\' ∉ text → reads text = some text) (call : Call)
    (printable : ∀ row ∈ logs.rows, (counts row).isSome ∧ '\'' ∉ row.san.getD [] ∧ '\\' ∉ row.san.getD []) :
    Moves reads logs call table := by
  have inserted : ∀ row ∈ logs.rows, inserts reads row = true := fun row member => by
    obtain ⟨printed, noQuote, noBackslash⟩ := printable row member
    simp [inserts, printed, plain _ noQuote noBackslash]
  have nothing : ∀ (value : LogRow → Int) (date : Date) k, (∀ row ∈ logs.rows, value row = 0) →
      counted value logs (· == date) k = 0 := by
    intro value date k zero
    refine List.sum_eq_zero fun number isNumber => ?_
    obtain ⟨row, member, rfl⟩ := List.mem_map.mp isNumber
    exact zero row (List.mem_filter.mp member).1
  refine ⟨fun row member _ => .inl (inserted row member), fun counter k => ?_⟩
  rw [nothing, nothing]
  · exact fun row member => if_pos (printable row member).1
  · exact fun row member => if_pos (inserted row member)

end

/-! ### Calls over one log row -/

/-- The date of the row is added and removed again. -/
def twoCalls (number : Nat) : Call := ⟨sortedOrder, 14999 + number, if number = 0 then 14909 else 14999⟩

theorem windows_exact_two_calls :
    Sums (loggedOn 14999) {14999} (windowAfter some (loggedOn 14999) twoCalls KeyedTable.empty 1) ∧
      Sums (loggedOn 14999) {15000} (windowAfter some (loggedOn 14999) twoCalls KeyedTable.empty 2) := by
  have start : Sums (loggedOn 14999) {14909} KeyedTable.empty := by
    refine ⟨fun row member inside => ?_, fun row member => absurd member List.not_mem_nil⟩
    obtain rfl : row = _ := List.mem_singleton.mp member
    exact absurd inside (by decide)
  have printable : ∀ row ∈ (loggedOn 14999).rows,
      (counts row).isSome ∧ '\'' ∉ row.san.getD [] ∧ '\\' ∉ row.san.getD [] := by
    decide
  have after := (windows_exact_iff (by decide) start 2 (by decide) (by decide)).mpr fun number _ =>
    moves_of_printable (fun _ _ _ => rfl) (twoCalls number) printable
  have first : datesAfter twoCalls {14909} 1 = {14999} := by decide
  have second : datesAfter twoCalls {14909} 2 = {15000} := by decide
  exact ⟨first ▸ after 0 (by decide), second ▸ after 1 (by decide)⟩

def nullActions : LogTable :=
  ⟨[⟨14999, 3, some "auo".toList, 11, none, none, 20, 5, none, some 100, some 2, none, some 0, some 0⟩],
    List.nodup_singleton _⟩

theorem null_counter_not_added :
    Sums nullActions {14909} KeyedTable.empty ∧
      ¬ Sums nullActions ((twoCalls 0).dates {14909}) ((twoCalls 0).table some nullActions KeyedTable.empty) := by
  refine ⟨⟨fun row member inside => ?_, fun row member => absurd member List.not_mem_nil⟩, fun sums => ?_⟩
  · obtain rfl : row = _ := List.mem_singleton.mp member
    exact absurd inside (by decide)
  · have has := sums.logged _ (List.mem_singleton_self _) (by decide)
    exact absurd has (by decide)

end Cdo.WindowMoves
