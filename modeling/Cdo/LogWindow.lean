import Cdo.Logs

/-!
The moving window of the logs (`cdoAggregate` of `dataAggregation.pm`,
`twoDelayDates` of `DateFunctions.pm` and `cdoImport.pl`).
`DisplayLogsByDOWHour` is meant to hold the sums of the logs over the last 90
dates, by day of the week, hour and cell. It is never recomputed: a run adds the
rows of one date and subtracts those of another. The daily script hands on a
variable that is not set instead of the date to add, so that nothing is ever
added while old dates are subtracted (`window_kept_iff`).
-/
namespace Cdo.LogWindow
open Cdo.Text Cdo.Query Cdo.Tables Cdo.Logs

/-! ### The table -/

/-- A row of `DisplayLogsByDOWHour` with all its columns. -/
structure WindowRow extends DowHourRow where
  conversions : Option Int
  spend : Option Int
deriving DecidableEq

structure WindowKey where
  dow : Nat
  hour : Nat
  adid : Int
  siteid : Int
  segmentid : Int
deriving DecidableEq

def WindowRow.key (row : WindowRow) : WindowKey := ⟨row.dow, row.hour, row.adid, row.siteid, row.segmentid⟩

abbrev WindowTable := KeyedTable WindowRow.key

/-- The key that a log row is counted under. -/
def windowKey (row : LogRow) : WindowKey := ⟨dayofweek row.date, row.hour, row.adid, row.siteid, row.segmentid⟩

/-! ### The rows of a date -/

/-- The text that a row is fetched under; NULL is fetched under the empty text. -/
def idText (row : LogRow) : Str :=
  match row.san with
  | none => []
  | some san => joined '_' [san, intText row.adid, intText row.siteid, intText row.segmentid, natText row.hour]

/-- The rows of a date. An unset date is the empty text in the query, which is
    the date of no row. -/
def fetched (date : Option Date) (logs : LogTable) : SortedMap Str LogRow :=
  SortedMap.ofRows idText id (logs.rows.filter fun row => date == some row.date)

abbrev HashOrder := (rows : SortedMap Str LogRow) → rows.Listing

def listed (order : HashOrder) (rows : SortedMap Str LogRow) : List LogRow := (order rows).keys.filterMap rows.get?

/-! ### The statements -/

structure Counts where
  n : Int
  k : Int
  a : Int
  conv : Int
  spend : Int

/-- What the database reads where a text stands between quotes. There is no
    reading if the quoted text makes the text around it no statement. -/
abbrev Literals := Str → Option Str

/-- The numbers that are printed into a statement. If one of them is NULL, the
    text is no statement. -/
def counts (row : LogRow) : Option Counts := do
  return ⟨← row.impressions, ← row.clicks, ← row.actions, ← row.conversions, ← row.spend⟩

def WindowRow.add (c : Counts) (row : WindowRow) : WindowRow :=
  { row with
    impressions := row.impressions.map (· + c.n)
    clicks := row.clicks.map (· + c.k)
    actions := row.actions.map (· + c.a)
    conversions := row.conversions.map (· + c.conv)
    spend := row.spend.map (· + c.spend) }

def WindowRow.subtract (c : Counts) (row : WindowRow) : WindowRow :=
  { row with
    impressions := row.impressions.map (· - c.n)
    clicks := row.clicks.map (· - c.k)
    actions := row.actions.map (· - c.a)
    conversions := row.conversions.map (· - c.conv)
    spend := row.spend.map (· - c.spend) }

/-- The row that is inserted for a log row whose key is new. -/
def newRow (row : LogRow) (san : Str) (c : Counts) : WindowRow where
  dow := dayofweek row.date
  hour := row.hour
  san := san
  adid := row.adid
  siteid := row.siteid
  segmentid := row.segmentid
  impressions := some c.n
  clicks := some c.k
  actions := some c.a
  conversions := some c.conv
  spend := some c.spend

def insertRow (reads : Literals) (table : WindowTable) (row : LogRow) : WindowTable :=
  match counts row, reads (row.san.getD []) with
  | some c, some san => table.upsert (newRow row san c) (WindowRow.add c) fun _ => rfl
  | _, _ => table

def removeRow (table : WindowTable) (row : LogRow) : WindowTable :=
  match counts row with
  | none => table
  | some c => table.updateAt (windowKey row) (WindowRow.subtract c) fun _ => rfl

def cdoAggregate (reads : Literals) (order : HashOrder) (logs : LogTable) (addDate removeDate : Option Date)
    (table : WindowTable) : WindowTable :=
  let added := (listed order (fetched addDate logs)).foldl (insertRow reads) table
  (listed order (fetched removeDate logs)).foldl removeRow added

/-! ### The daily script -/

/-- The date of an instant, as `gmtime` gives it. -/
def day (epoch : Int) : Date := epoch / 86400

def hourOf (epoch : Int) : Int := epoch % 86400 / 3600

/-- The dates and hours of two instants, the first of them before now or at a
    given date, the second one before the first. -/
def twoDelayDates (now : Int) (seedDate : Option Date) (hourDelay1 hourDelay2 : Int) : Date × Int × Date × Int :=
  let delayEpoch1 := match seedDate with
    | none => now - hourDelay1 * 3600
    | some date => date * 86400
  let delayEpoch2 := delayEpoch1 - hourDelay2 * 3600
  (day delayEpoch1, hourOf delayEpoch1, day delayEpoch2, hourOf delayEpoch2)

/-- A daily run: when it is made, the logs once it has imported them, the
    order of its hashes and the reading of its statements. -/
structure ImportRun where
  now : Int
  logs : LogTable
  order : HashOrder
  reads : Literals

/-- The date whose files the run imports (`getGMTDateHour(0,0)`). -/
def ImportRun.yesterdayDate (run : ImportRun) : Date := day (run.now - 24 * 3600)

/-- The script's own `cdoAggregate`. It hands on `$appDate`, which is never set,
    and not the date that it is given. -/
def scriptAggregate (run : ImportRun) (_addDate removeDate : Date) (table : WindowTable) : WindowTable :=
  cdoAggregate run.reads run.order run.logs none (some removeDate) table

def cdoImport (run : ImportRun) (table : WindowTable) : WindowTable :=
  let dates := twoDelayDates run.now none 24 2160
  scriptAggregate run dates.1 dates.2.2.1 table

/-- The table after a number of daily runs. -/
def tableAfter (runs : Nat → ImportRun) (table : WindowTable) : Nat → WindowTable
  | 0 => table
  | number + 1 => cdoImport (runs number) (tableAfter runs table number)

/-! ### What the statements do -/

section
variable {logs : LogTable} {order : HashOrder}

theorem fetched_some {date : Option Date} {id : Str} {row : LogRow} (found : (fetched date logs).get? id = some row) :
    row ∈ logs.rows ∧ date = some row.date ∧ idText row = id := by
  obtain ⟨other, member, isId, rfl⟩ := SortedMap.get?_ofRows_some found
  obtain ⟨inLogs, isDate⟩ := List.mem_filter.mp member
  exact ⟨inLogs, by simpa using isDate, isId⟩

theorem mem_listed {rows : SortedMap Str LogRow} {row : LogRow} :
    row ∈ listed order rows ↔ ∃ id, rows.get? id = some row := by
  rw [listed, List.mem_filterMap]
  constructor
  · rintro ⟨id, -, found⟩
    exact ⟨id, found⟩
  · rintro ⟨id, found⟩
    exact ⟨id, (order rows).mem_keys.mpr ⟨row, found⟩, found⟩

/-- On a date, the key that a row is counted under is its own. -/
theorem eq_of_windowKey {row other : LogRow} (member : row ∈ logs.rows) (otherMember : other ∈ logs.rows)
    (dates : row.date = other.date) (keys : windowKey row = windowKey other) : row = other := by
  simp only [windowKey, WindowKey.mk.injEq] at keys
  obtain ⟨-, hour, adid, siteid, segmentid⟩ := keys
  refine logs.eq_of_key member otherMember ?_
  simp [LogRow.key, dates, hour, adid, siteid, segmentid]

theorem listed_once (date : Option Date) : ((listed order (fetched date logs)).map windowKey).Nodup := by
  have rowsOnce : (listed order (fetched date logs)).Nodup := by
    refine ((order (fetched date logs)).nodup).filterMap ?_
    intro id id' row found found'
    exact (fetched_some found).2.2.symm.trans (fetched_some found').2.2
  refine rowsOnce.map_on fun row member other otherMember keys => ?_
  obtain ⟨id, found⟩ := mem_listed.mp member
  obtain ⟨id', found'⟩ := mem_listed.mp otherMember
  obtain ⟨inLogs, isDate, -⟩ := fetched_some found
  obtain ⟨otherIn, otherDate, -⟩ := fetched_some found'
  exact eq_of_windowKey inLogs otherIn (Option.some.inj (isDate.symm.trans otherDate)) keys

/-- What a statement that subtracts a row makes of the row of its key. -/
def removed (row : LogRow) : WindowRow → WindowRow :=
  match counts row with
  | none => id
  | some c => WindowRow.subtract c

theorem get?_removeRow (table : WindowTable) (row : LogRow) (k : WindowKey) :
    (removeRow table row).get? k = if k = windowKey row then (table.get? k).map (removed row) else table.get? k := by
  cases printed : counts row with
  | none => simp [removeRow, removed, printed]
  | some c =>
    simp only [removeRow, removed, printed]
    exact KeyedTable.get?_updateAt

theorem removeRows_other {rows : List LogRow} {k : WindowKey} (other : ∀ row ∈ rows, windowKey row ≠ k)
    (table : WindowTable) : (rows.foldl removeRow table).get? k = table.get? k := by
  induction rows generalizing table with
  | nil => rfl
  | cons row rest ih =>
    have here : k ≠ windowKey row := fun same => other row List.mem_cons_self same.symm
    rw [List.foldl_cons, ih fun later member => other later (List.mem_cons_of_mem _ member), get?_removeRow, if_neg here]

/-- Of rows with keys of their own each changes the row of its key once. -/
theorem removeRows_at {rows : List LogRow} (once : (rows.map windowKey).Nodup) {row : LogRow} (member : row ∈ rows)
    (table : WindowTable) :
    (rows.foldl removeRow table).get? (windowKey row) = (table.get? (windowKey row)).map (removed row) := by
  induction rows generalizing table with
  | nil => exact absurd member List.not_mem_nil
  | cons first rest ih =>
    rw [List.map_cons, List.nodup_cons] at once
    rw [List.foldl_cons]
    rcases List.mem_cons.mp member with rfl | later
    · have apart : ∀ other ∈ rest, windowKey other ≠ windowKey row := fun other isOther same =>
        once.1 (same ▸ List.mem_map_of_mem isOther)
      rw [removeRows_other apart, get?_removeRow, if_pos rfl]
    · have apart : windowKey row ≠ windowKey first := fun same => once.1 (same ▸ List.mem_map_of_mem later)
      rw [ih once.2 later, get?_removeRow, if_neg apart]

end

/-! ### Sums over dates -/

/-- The counters that the window is kept for. -/
inductive Column where
  | impressions | clicks | actions
deriving DecidableEq

def Column.ofLog (column : Column) (row : LogRow) : Option Int :=
  match column with
  | .impressions => row.impressions
  | .clicks => row.clicks
  | .actions => row.actions

def Column.ofWindow (column : Column) (row : WindowRow) : Option Int :=
  match column with
  | .impressions => row.impressions
  | .clicks => row.clicks
  | .actions => row.actions

/-- The sum of a value over the log rows of some dates that are counted under a
    key. -/
def counted (value : LogRow → Int) (logs : LogTable) (dates : Date → Bool) (k : WindowKey) : Int :=
  ((logs.rows.filter fun row => dates row.date && windowKey row == k).map value).sum

/-- The sum of a counter over the log rows of some dates that are counted under
    a key. -/
def loggedSum (column : Column) (logs : LogTable) (dates : Date → Bool) (k : WindowKey) : Int :=
  ((logs.rows.filter fun row => dates row.date && windowKey row == k).map fun row => num (column.ofLog row)).sum

/-- The 90 dates that end with a date. -/
def window (last date : Date) : Bool := last - 89 ≤ date && date ≤ last

/-- The table has a sum under a key; a key without a row has none. -/
def Shows (column : Column) (table : WindowTable) (k : WindowKey) (sum : Int) : Prop :=
  match table.get? k with
  | none => sum = 0
  | some row => column.ofWindow row = some sum

instance (column : Column) (table : WindowTable) (k : WindowKey) (sum : Int) : Decidable (Shows column table k sum) :=
  match found : table.get? k with
  | none => decidable_of_iff (sum = 0) (by rw [Shows, found])
  | some row => decidable_of_iff (column.ofWindow row = some sum) (by rw [Shows, found])

/-- The table has the sums over the 90 dates that end with a date. -/
def Holds (logs : LogTable) (last : Date) (table : WindowTable) : Prop :=
  ∀ column k, Shows column table k (loggedSum column logs (window last) k)

section
variable {logs : LogTable} {value : LogRow → Int} {k : WindowKey}

theorem counted_or {p q : Date → Bool} (apart : ∀ date, p date = true → q date = false) :
    counted value logs (fun date => p date || q date) k = counted value logs p k + counted value logs q k := by
  rw [counted, counted, counted, ← sum_filter_or]
  · exact sum_filter_congr fun row _ => Bool.and_or_distrib_right _ _ _
  · intro row _ isP
    rw [apart row.date (Bool.and_eq_true_iff.mp isP).1, Bool.false_and]

/-- On its date a row is the only one that is counted under its key. -/
theorem counted_row {row : LogRow} {date : Date} (member : row ∈ logs.rows) (isDate : row.date = date) :
    counted value logs (· == date) (windowKey row) = value row := by
  subst isDate
  have only : (logs.rows.filter fun other => other.date == row.date && windowKey other == windowKey row) = [row] := by
    have once : (logs.rows.filter fun other => other.date == row.date && windowKey other == windowKey row).Nodup :=
      logs.nodup.of_map.filter _
    refine List.perm_singleton.mp ((List.perm_ext_iff_of_nodup once (List.nodup_singleton row)).mpr fun other => ?_)
    simp only [List.mem_filter, Bool.and_eq_true, beq_iff_eq, List.mem_singleton]
    constructor
    · rintro ⟨otherMember, dates, keys⟩
      exact eq_of_windowKey otherMember member dates keys
    · rintro rfl
      exact ⟨member, rfl, rfl⟩
  rw [counted, only]
  simp

theorem counted_none {dates : Date → Bool} (absent : ∀ row ∈ logs.rows, dates row.date = true → windowKey row ≠ k) :
    counted value logs dates k = 0 := by
  have none : (logs.rows.filter fun row => dates row.date && windowKey row == k) = [] := by
    refine List.filter_eq_nil_iff.mpr fun row member both => ?_
    simp only [Bool.and_eq_true, beq_iff_eq] at both
    exact absent row member both.1 both.2
  rw [counted, none]
  rfl

end

section
variable {logs : LogTable} {column : Column} {k : WindowKey}

theorem loggedSum_eq (column : Column) (logs : LogTable) (dates : Date → Bool) (k : WindowKey) :
    loggedSum column logs dates k = counted (fun row => num (column.ofLog row)) logs dates k := rfl

/-- Moving the window by a day adds one date and takes away another. -/
theorem loggedSum_move (last : Date) :
    loggedSum column logs (window last) k + loggedSum column logs (· == last - 90) k =
      loggedSum column logs (window (last - 1)) k + loggedSum column logs (· == last) k := by
  have outside : ∀ {first other : Date}, first < other ∨ other ≤ first - 90 →
      ∀ date, window first date = true → (date == other) = false := by
    intro first other away date inside
    simp only [window, Bool.and_eq_true, decide_eq_true_eq] at inside
    refine beq_eq_false_iff_ne.mpr ?_
    unfold Date at *
    omega
  simp only [loggedSum_eq]
  rw [← counted_or, ← counted_or]
  · refine congrArg (fun dates => counted _ logs dates k) (funext fun date => ?_)
    rw [Bool.eq_iff_iff]
    simp only [window, Bool.or_eq_true, Bool.and_eq_true, decide_eq_true_eq, beq_iff_eq]
    constructor <;> intro h <;> unfold Date at * <;> omega
  · exact outside (.inl (Int.sub_lt_self last one_pos))
  · exact outside (.inr le_rfl)

theorem loggedSum_row {row : LogRow} {date : Date} (member : row ∈ logs.rows) (isDate : row.date = date) :
    loggedSum column logs (· == date) (windowKey row) = num (column.ofLog row) :=
  counted_row member isDate

theorem loggedSum_none {date : Date} (absent : ∀ row ∈ logs.rows, row.date = date → windowKey row ≠ k) :
    loggedSum column logs (· == date) k = 0 := by
  rw [loggedSum_eq]
  exact counted_none fun row member isDate => absent row member (beq_iff_eq.mp isDate)

/-- The sums over dates depend on the rows of these dates only. -/
theorem loggedSum_congr {logs' : LogTable} {dates : Date → Bool}
    (same : ∀ row, dates row.date = true → (row ∈ logs'.rows ↔ row ∈ logs.rows)) :
    loggedSum column logs' dates k = loggedSum column logs dates k := by
  have rows : (logs'.rows.filter fun row => dates row.date && windowKey row == k).Perm
      (logs.rows.filter fun row => dates row.date && windowKey row == k) := by
    refine (List.perm_ext_iff_of_nodup (logs'.nodup.of_map.filter _) (logs.nodup.of_map.filter _)).mpr fun row => ?_
    simp only [List.mem_filter, Bool.and_eq_true]
    constructor
    · rintro ⟨member, inside, isKey⟩
      exact ⟨(same row inside).mp member, inside, isKey⟩
    · rintro ⟨member, inside, isKey⟩
      exact ⟨(same row inside).mpr member, inside, isKey⟩
  exact (rows.map _).sum_eq

theorem Shows.unique {table : WindowTable} {sum sum' : Int} (shows : Shows column table k sum)
    (shows' : Shows column table k sum') : sum = sum' := by
  unfold Shows at shows shows'
  cases found : table.get? k with
  | none =>
    rw [found] at shows shows'
    exact shows.trans shows'.symm
  | some row =>
    rw [found] at shows shows'
    exact Option.some.inj (shows.symm.trans shows')

theorem shows_congr {table table' : WindowTable} (same : table'.get? k = table.get? k) (sum : Int) :
    Shows column table' k sum ↔ Shows column table k sum := by
  rw [Shows, Shows, same]

theorem dayofweek_ne (date : Int) : dayofweek (date - 90) ≠ dayofweek date := by
  unfold dayofweek
  omega

/-- The date that is added and the one that is removed have no key in common. -/
theorem windowKey_ne {row other : LogRow} {last : Date} (isLast : row.date = last) (isFirst : other.date = last - 90) :
    windowKey other ≠ windowKey row := by
  intro same
  have days : dayofweek other.date = dayofweek row.date := congrArg WindowKey.dow same
  rw [isLast, isFirst] at days
  exact dayofweek_ne _ days

/-- A key of the date to add only gains what its row counts. -/
theorem loggedSum_added {row : LogRow} {last : Date} (member : row ∈ logs.rows) (isDate : row.date = last) :
    loggedSum column logs (window last) (windowKey row) =
      loggedSum column logs (window (last - 1)) (windowKey row) + num (column.ofLog row) := by
  have moved := @loggedSum_move logs column (windowKey row) last
  have gone : loggedSum column logs (· == last - 90) (windowKey row) = 0 :=
    loggedSum_none fun other _ otherDate => windowKey_ne isDate otherDate
  rw [loggedSum_row member isDate, gone] at moved
  omega

/-- A key of the date to remove only loses what its row counts. -/
theorem loggedSum_removed {row : LogRow} {last : Date} (member : row ∈ logs.rows) (isDate : row.date = last - 90) :
    loggedSum column logs (window last) (windowKey row) =
      loggedSum column logs (window (last - 1)) (windowKey row) - num (column.ofLog row) := by
  have moved := @loggedSum_move logs column (windowKey row) last
  have added : loggedSum column logs (· == last) (windowKey row) = 0 :=
    loggedSum_none fun other _ otherDate same => windowKey_ne otherDate isDate same.symm
  rw [loggedSum_row member isDate, added] at moved
  omega

/-- A key of neither date has the sums it had. -/
theorem loggedSum_kept {last : Date} (notAdded : ∀ row ∈ logs.rows, row.date = last → windowKey row ≠ k)
    (notRemoved : ∀ row ∈ logs.rows, row.date = last - 90 → windowKey row ≠ k) :
    loggedSum column logs (window last) k = loggedSum column logs (window (last - 1)) k := by
  have moved := @loggedSum_move logs column k last
  rw [loggedSum_none notAdded, loggedSum_none notRemoved] at moved
  omega

end

/-! ### A run -/

/-- The row does not count for anything in the window. -/
def NoCounts (row : LogRow) : Prop := ∀ column : Column, num (column.ofLog row) = 0

/-- A row is subtracted: all its numbers can be printed, it is the row that is
    fetched under its text, and the table has a row for it. -/
def Taken (run : ImportRun) (table : WindowTable) (row : LogRow) : Prop :=
  (∃ c, counts row = some c) ∧ (fetched (some row.date) run.logs).get? (idText row) = some row ∧
    table.Has (windowKey row)

/-- The rows of the date to add count for nothing, and those of the date to
    remove are subtracted or count for nothing. -/
structure Keeps (run : ImportRun) (table : WindowTable) : Prop where
  added : ∀ row ∈ run.logs.rows, row.date = run.yesterdayDate → NoCounts row
  removed : ∀ row ∈ run.logs.rows, row.date = run.yesterdayDate - 90 → NoCounts row ∨ Taken run table row

section
variable {run : ImportRun} {table : WindowTable} {k : WindowKey}

theorem removeDate_eq (now : Int) : (twoDelayDates now none 24 2160).2.2.1 = day (now - 24 * 3600) - 90 := by
  simp only [twoDelayDates, day]
  unfold Date
  omega

/-- Nothing is added, whatever the logs are. -/
theorem cdoImport_eq (run : ImportRun) (table : WindowTable) :
    cdoImport run table =
      (listed run.order (fetched (some (run.yesterdayDate - 90)) run.logs)).foldl removeRow table := by
  have nothing : listed run.order (fetched none run.logs) = [] := by
    refine List.eq_nil_iff_forall_not_mem.mpr fun row member => ?_
    obtain ⟨id, found⟩ := mem_listed.mp member
    exact absurd (fetched_some found).2.1 (by simp)
  simp only [cdoImport, scriptAggregate, cdoAggregate, nothing, List.foldl_nil, removeDate_eq, ImportRun.yesterdayDate]

theorem cdoImport_other (other : ∀ row ∈ run.logs.rows, row.date = run.yesterdayDate - 90 → windowKey row ≠ k) :
    (cdoImport run table).get? k = table.get? k := by
  rw [cdoImport_eq]
  refine removeRows_other (fun row member => ?_) table
  obtain ⟨id, found⟩ := mem_listed.mp member
  obtain ⟨inLogs, isDate, -⟩ := fetched_some found
  exact other row inLogs (Option.some.inj isDate).symm

theorem cdoImport_taken {row : LogRow} (isDate : row.date = run.yesterdayDate - 90) (taken : Taken run table row) :
    ∃ c, counts row = some c ∧
      (cdoImport run table).get? (windowKey row) = (table.get? (windowKey row)).map (WindowRow.subtract c) := by
  obtain ⟨⟨c, printed⟩, found, -⟩ := taken
  rw [isDate] at found
  refine ⟨c, printed, ?_⟩
  rw [cdoImport_eq, removeRows_at (listed_once _) (mem_listed.mpr ⟨_, found⟩)]
  simp only [removed, printed]

/-- A row that is not subtracted leaves its key alone. -/
theorem cdoImport_untaken {row : LogRow} (member : row ∈ run.logs.rows) (isDate : row.date = run.yesterdayDate - 90)
    (untaken : ¬ Taken run table row) : (cdoImport run table).get? (windowKey row) = table.get? (windowKey row) := by
  by_cases isListed : row ∈ listed run.order (fetched (some (run.yesterdayDate - 90)) run.logs)
  · obtain ⟨id, found⟩ := mem_listed.mp isListed
    obtain ⟨-, -, isId⟩ := fetched_some found
    rw [cdoImport_eq, removeRows_at (listed_once _) isListed]
    cases printed : counts row with
    | none => simp [removed, printed]
    | some c =>
      have absent : ¬ table.Has (windowKey row) := fun has =>
        untaken ⟨⟨c, printed⟩, by rw [isDate, isId]; exact found, has⟩
      rw [KeyedTable.get?_eq_none.mpr absent]
      rfl
  · rw [cdoImport_eq]
    refine removeRows_other (fun other isOther same => ?_) table
    obtain ⟨id, found⟩ := mem_listed.mp isOther
    obtain ⟨inLogs, otherDate, -⟩ := fetched_some found
    have dates : other.date = row.date := (Option.some.inj otherDate).symm.trans isDate.symm
    exact isListed (eq_of_windowKey inLogs member dates same ▸ isOther)

theorem counts_column {row : LogRow} {c : Counts} (printed : counts row = some c) (column : Column) (w : WindowRow) :
    column.ofWindow (w.subtract c) = (column.ofWindow w).map (· - num (column.ofLog row)) := by
  simp only [counts, Option.bind_eq_bind, Option.bind_eq_some_iff, Option.pure_def, Option.some.injEq] at printed
  obtain ⟨n, isN, k, isK, a, isA, conv, -, spend, -, rfl⟩ := printed
  cases column with
  | impressions => simp [Column.ofWindow, Column.ofLog, WindowRow.subtract, isN]
  | clicks => simp [Column.ofWindow, Column.ofLog, WindowRow.subtract, isK]
  | actions => simp [Column.ofWindow, Column.ofLog, WindowRow.subtract, isA]

theorem shows_taken {row : LogRow} (isDate : row.date = run.yesterdayDate - 90) (taken : Taken run table row)
    {column : Column} {sum : Int} (shows : Shows column table (windowKey row) sum) :
    Shows column (cdoImport run table) (windowKey row) (sum - num (column.ofLog row)) := by
  obtain ⟨c, printed, changed⟩ := cdoImport_taken isDate taken
  unfold Shows at shows ⊢
  rw [changed]
  cases found : table.get? (windowKey row) with
  | none => exact absurd taken.2.2 (KeyedTable.get?_eq_none.mp found)
  | some w =>
    rw [found] at shows
    rw [Option.map_some]
    have shown : column.ofWindow w = some sum := shows
    exact (counts_column printed column w).trans (by rw [shown, Option.map_some])

theorem keeps_of_holds (before : Holds run.logs (run.yesterdayDate - 1) table)
    (after : Holds run.logs run.yesterdayDate (cdoImport run table)) : Keeps run table := by
  -- a key that the run leaves alone must have the same sum before and after it
  have unmoved : ∀ {k : WindowKey}, (cdoImport run table).get? k = table.get? k → ∀ column,
      loggedSum column run.logs (window run.yesterdayDate) k =
        loggedSum column run.logs (window (run.yesterdayDate - 1)) k := fun kept column =>
    ((shows_congr kept _).mp (after column _)).unique (before column _)
  constructor
  · intro row member isDate column
    have same := unmoved (cdoImport_other fun other _ otherDate => windowKey_ne isDate otherDate) column
    rw [loggedSum_added member isDate] at same
    omega
  · intro row member isDate
    by_cases taken : Taken run table row
    · exact .inr taken
    · refine .inl fun column => ?_
      have same := unmoved (cdoImport_untaken member isDate taken) column
      rw [loggedSum_removed member isDate] at same
      omega

theorem holds_of_keeps (before : Holds run.logs (run.yesterdayDate - 1) table) (keeps : Keeps run table) :
    Holds run.logs run.yesterdayDate (cdoImport run table) := by
  intro column k
  by_cases new : ∃ row ∈ run.logs.rows, row.date = run.yesterdayDate ∧ windowKey row = k
  · obtain ⟨row, member, isDate, rfl⟩ := new
    rw [loggedSum_added member isDate, keeps.added row member isDate column, add_zero]
    exact (shows_congr (cdoImport_other fun other _ otherDate => windowKey_ne isDate otherDate) _).mpr (before column _)
  · by_cases old : ∃ row ∈ run.logs.rows, row.date = run.yesterdayDate - 90 ∧ windowKey row = k
    · obtain ⟨row, member, isDate, rfl⟩ := old
      rw [loggedSum_removed member isDate]
      by_cases taken : Taken run table row
      · exact shows_taken isDate taken (before column _)
      · have zero := (keeps.removed row member isDate).resolve_right taken column
        rw [zero, sub_zero]
        exact (shows_congr (cdoImport_untaken member isDate taken) _).mpr (before column _)
    · have notAdded : ∀ row ∈ run.logs.rows, row.date = run.yesterdayDate → windowKey row ≠ k :=
        fun row member isDate isKey => new ⟨row, member, isDate, isKey⟩
      have notRemoved : ∀ row ∈ run.logs.rows, row.date = run.yesterdayDate - 90 → windowKey row ≠ k :=
        fun row member isDate isKey => old ⟨row, member, isDate, isKey⟩
      rw [loggedSum_kept notAdded notRemoved]
      exact (shows_congr (cdoImport_other notRemoved) _).mpr (before column k)

/-- A table with the sums up to the day before has the sums up to the imported
    date after a run exactly if the run keeps them. -/
theorem holds_step (before : Holds run.logs (run.yesterdayDate - 1) table) :
    Holds run.logs run.yesterdayDate (cdoImport run table) ↔ Keeps run table :=
  ⟨keeps_of_holds before, holds_of_keeps before⟩

end

/-! ### Daily runs -/

/-- Runs on consecutive days, between which the logs of imported dates stay as
    they are. -/
structure Daily (runs : Nat → ImportRun) : Prop where
  consecutive : ∀ number, (runs (number + 1)).yesterdayDate = (runs number).yesterdayDate + 1
  unchanged : ∀ number row, row.date ≤ (runs number).yesterdayDate →
    (row ∈ (runs (number + 1)).logs.rows ↔ row ∈ (runs number).logs.rows)

/-- The table has the sums of the window, none of them negative if the logs hold
    nothing negative. -/
structure Kept (logs : LogTable) (last : Date) (table : WindowTable) : Prop where
  sums : Holds logs last table
  nonneg : (∀ row ∈ logs.rows, ∀ column : Column, 0 ≤ num (column.ofLog row)) →
    ∀ row ∈ table.rows, ∀ (column : Column) (value : Int), column.ofWindow row = some value → 0 ≤ value

theorem kept_iff_holds {logs : LogTable} {last : Date} {table : WindowTable} :
    Kept logs last table ↔ Holds logs last table := by
  refine ⟨Kept.sums, fun holds => ⟨holds, fun nonneg row member column value isValue => ?_⟩⟩
  have shown := holds column row.key
  rw [Shows, KeyedTable.get?_eq_some.mpr ⟨member, rfl⟩] at shown
  have sum : loggedSum column logs (window last) row.key = value := Option.some.inj (shown.symm.trans isValue)
  rw [← sum]
  refine List.sum_nonneg fun number isNumber => ?_
  obtain ⟨logged, isLogged, rfl⟩ := List.mem_map.mp isNumber
  exact nonneg logged (List.mem_filter.mp isLogged).1 column

section
variable {runs : Nat → ImportRun} {table : WindowTable}

/-- Sums up to an imported date are the same in the logs of the next run. -/
theorem holds_next (daily : Daily runs) {number : Nat}
    (holds : Holds (runs number).logs (runs number).yesterdayDate table) :
    Holds (runs (number + 1)).logs ((runs (number + 1)).yesterdayDate - 1) table := by
  intro column k
  have last : (runs (number + 1)).yesterdayDate - 1 = (runs number).yesterdayDate := by
    rw [daily.consecutive]
    exact add_sub_cancel_right _ _
  have same : loggedSum column (runs (number + 1)).logs (window (runs number).yesterdayDate) k =
      loggedSum column (runs number).logs (window (runs number).yesterdayDate) k := by
    refine loggedSum_congr fun row inside => daily.unchanged number row ?_
    simp only [window, Bool.and_eq_true, decide_eq_true_eq] at inside
    exact inside.2
  rw [last, same]
  exact holds column k

/-- The table has the sums of the window after each of the first daily runs
    exactly if each of these runs keeps them: the rows of the date that it imports
    count for nothing, and it subtracts what counts of the date it removes. -/
theorem window_kept_iff (daily : Daily runs)
    (start : Holds (runs 0).logs ((runs 0).yesterdayDate - 1) table) (last : Nat) :
    (∀ number ≤ last,
        Kept (runs number).logs (runs number).yesterdayDate (tableAfter runs table (number + 1))) ↔
      ∀ number ≤ last, Keeps (runs number) (tableAfter runs table number) := by
  simp only [kept_iff_holds]
  constructor
  · intro after number bound
    cases number with
    | zero => exact (holds_step start).mp (after 0 bound)
    | succ number =>
      have before := holds_next daily (after number (Nat.le_of_succ_le bound))
      exact (holds_step before).mp (after (number + 1) bound)
  · intro keeps number
    induction number with
    | zero => exact fun bound => (holds_step start).mpr (keeps 0 bound)
    | succ number ih =>
      intro bound
      have before := holds_next daily (ih (Nat.le_of_succ_le bound))
      exact (holds_step before).mpr (keeps (number + 1) bound)

end

/-! ### Runs over one log row -/

def sortedOrder : HashOrder := SortedMap.Listing.sorted

def dailyRuns (logs : LogTable) (number : Nat) : ImportRun := ⟨(15000 + number) * 86400, logs, sortedOrder, some⟩

theorem dailyRuns_date (logs : LogTable) (number : Nat) : (dailyRuns logs number).yesterdayDate = 14999 + number := by
  unfold ImportRun.yesterdayDate dailyRuns day Date
  dsimp only
  omega

theorem daily_dailyRuns (logs : LogTable) : Daily (dailyRuns logs) := by
  refine ⟨fun number => ?_, fun number row _ => Iff.rfl⟩
  rw [dailyRuns_date, dailyRuns_date]
  push_cast
  ring

def loggedOn (date : Date) : LogTable :=
  ⟨[⟨date, 3, some "auo".toList, 11, none, none, 20, 5, none, some 100, some 2, some 1, some 0, some 0⟩],
    List.nodup_singleton _⟩

/-- The window that has the row of 90 days before the first imported date. -/
def oldWindow : WindowTable :=
  ⟨[⟨⟨dayofweek 14909, 3, "auo".toList, 11, 20, 5, some 100, some 2, some 1⟩, some 0, some 0⟩], List.nodup_singleton _⟩

theorem window_kept_old_date :
    Holds (loggedOn 14909) 14998 oldWindow ∧
      Kept (loggedOn 14909) 14999 (tableAfter (dailyRuns (loggedOn 14909)) oldWindow 1) := by
  have start : Holds (loggedOn 14909) 14998 oldWindow := by
    intro column k
    by_cases isKey : (⟨dayofweek 14909, 3, 11, 20, 5⟩ : WindowKey) = k
    · subst isKey
      cases column <;> decide
    · have absent : oldWindow.get? k = none := by
        refine KeyedTable.get?_eq_none.mpr fun has => isKey ?_
        exact (List.mem_singleton.mp has).symm
      rw [Shows, absent]
      simp [loggedSum, loggedOn, windowKey, isKey]
  refine ⟨start, ?_⟩
  have kept := (window_kept_iff (daily_dailyRuns (loggedOn 14909)) start 0).mpr ?_ 0 le_rfl
  · exact kept
  · intro number bound
    obtain rfl : number = 0 := Nat.le_zero.mp bound
    refine ⟨fun row member isDate => ?_, fun row member _ => ?_⟩
    · obtain rfl : row = _ := List.mem_singleton.mp member
      exact absurd isDate (by decide)
    · obtain rfl : row = _ := List.mem_singleton.mp member
      exact .inr ⟨⟨_, rfl⟩, by decide, by decide⟩

/-- The row of the first imported date is not added. -/
theorem imported_date_not_added :
    Daily (dailyRuns (loggedOn 14999)) ∧ Holds (loggedOn 14999) 14998 KeyedTable.empty ∧
      ¬ Holds (loggedOn 14999) 14999 (tableAfter (dailyRuns (loggedOn 14999)) KeyedTable.empty 1) := by
  refine ⟨daily_dailyRuns _, fun column k => ?_, fun holds => ?_⟩
  · have outside : window 14998 14999 = false := by decide
    show loggedSum column (loggedOn 14999) (window 14998) k = 0
    simp [loggedSum, loggedOn, outside]
  · exact absurd (holds .impressions ⟨dayofweek 14999, 3, 11, 20, 5⟩) (by decide)

end Cdo.LogWindow
