import Cdo.PriceVolumeLoad
import Cdo.Batches

/-!
The two loaders of price and volume files (`priceVolume` and `priceVolumeTest` of
`fileToDb.pm`). One prints every row into a file, the other collects the rows
into statements of 1000. Both have the same rows in the same order, and no
statement is empty or too long. A line has a row for each of its columns but the
first three and the last two, unless it ends in an empty column, which `split`
leaves out: then the columns before it are taken for the volumes
(`loaders_exact_iff`).
-/
namespace Cdo.PriceVolumeLoaders
open Cdo.Text Cdo.PriceVolumeLoad Cdo.Batches

/-! ### The load file -/

def outLine (row : PvTuple) : Str :=
  joined ',' [row.san, row.siteid, row.segmentid, row.size, row.bid, row.allocation, row.volume, row.capped_volume] ++
    ['\n']

/-- The text that `priceVolume` writes. Without the file it writes nothing. -/
def outText (reader : Reader) (san : Str) (file : Option (List Str)) : Str :=
  match file with
  | none => []
  | some lines => (lines.foldl (afterFirst fun line => (pvTuples reader san line).map outLine) (0, [])).2.flatten

/-! ### The statements -/

def sqlRow (row : PvTuple) : Str :=
  "('".toList ++ row.san ++ "', ".toList ++ row.siteid ++ ", ".toList ++ row.segmentid ++ ", '".toList ++ row.size ++
    "', ".toList ++ row.bid ++ ", ".toList ++ row.allocation ++ ", ".toList ++ row.volume ++ ", ".toList ++
    row.capped_volume ++ ")".toList

def sqlIns : Str := "INSERT INTO PriceVolumeTemp VALUES \n".toList

def sqlMain (sqlVal : Str) : Str := sqlIns ++ sqlVal ++ ";\n".toList

/-- The variables of the loops. -/
structure Sql where
  row : Nat
  counter : Nat
  block : Nat
  sqlVal : Str
  sql : Str

/-- A turn of the loop over the columns. -/
def Sql.add (state : Sql) (row : PvTuple) : Sql :=
  let counter := state.counter + 1
  let block := state.block + 1
  let sqlVal := if 1 < block then state.sqlVal ++ ",".toList ++ sqlRow row else state.sqlVal ++ sqlRow row
  if block = 1000 then ⟨state.row, counter, 0, [], state.sql ++ sqlMain sqlVal⟩
  else ⟨state.row, counter, block, sqlVal, state.sql⟩

/-- A turn of the loop over the lines, which passes over the first one. -/
def Sql.line (reader : Reader) (san : Str) (state : Sql) (line : Str) : Sql :=
  let state := { state with row := state.row + 1 }
  if 1 < state.row then (pvTuples reader san line).foldl Sql.add state else state

/-- The text that `priceVolumeTest` executes, if it executes one. -/
def priceVolumeTest (reader : Reader) (san : Str) (file : Option (List Str)) : Option Str :=
  match file with
  | none => none
  | some lines =>
    let state := lines.foldl (Sql.line reader san) ⟨0, 0, 0, [], []⟩
    if 1 < state.row then
      some (if state.sqlVal ≠ [] then state.sql ++ sqlMain state.sqlVal else state.sql)
    else none

/-! ### What the loaders are for -/

/-- The text of statements with these rows. -/
def insertText (batches : List (List PvTuple)) : Str :=
  (batches.map fun batch => sqlMain (joined ',' (batch.map sqlRow))).flatten

def columns (line : Str) : List Str := line.splitOn ','

/-- A line of columns contributes a row for each but the first three and the last
    two, with the allocations 0.05, 0.1 and so on. -/
structure Contributes (reader : Reader) (san line : Str) (rows : List PvTuple) : Prop where
  number : rows.length = (columns line).length - 5
  values : ∀ j row, rows[j]? = some row →
    row.san = san ∧ row.siteid = (columns line).getD 0 [] ∧ row.segmentid = (columns line).getD 2 [] ∧
      row.size = (columns line).getD 1 [] ∧ row.bid = (columns line).getD (3 + j) [] ∧
      decimalValue row.allocation = (j + 1) / 20 ∧
      row.volume = reader.percentD ((columns line).getD ((columns line).length - 1) []) ∧
      row.capped_volume = reader.percentD ((columns line).getD ((columns line).length - 2) [])

/-- Both loaders have the same rows, which are those of the lines after the
    header, and no statement is empty or has more than 1000 of them. -/
structure Exact (reader : Reader) (san : Str) (lines : List Str) : Prop where
  agree : ∃ batches : List (List PvTuple),
    outText reader san (some lines) = (batches.flatten.map outLine).flatten ∧
      priceVolumeTest reader san (some lines) = (if 1 < lines.length then some (insertText batches) else none) ∧
      Fair 1000 batches ∧ batches.flatten = lines.tail.flatMap (pvTuples reader san)
  contributes : ∀ line ∈ lines.tail, 5 ≤ (columns line).length →
    Contributes reader san line (pvTuples reader san line)

/-! ### Statements and batches -/

/-- The variables are those of a loop that collects batches. -/
structure Sql.Shows (state : Sql) (block : Block PvTuple) : Prop where
  count : state.block = block.count
  values : state.sqlVal = joined ',' (block.body.map sqlRow)
  text : state.sql = insertText block.sent

theorem insertText_snoc (batches : List (List PvTuple)) (batch : List PvTuple) :
    insertText (batches ++ [batch]) = insertText batches ++ sqlMain (joined ',' (batch.map sqlRow)) := by
  simp [insertText]

theorem Sql.shows_add {state : Sql} {block : Block PvTuple} (shows : state.Shows block) (filled : block.Filled 1000)
    (row : PvTuple) : (state.add row).Shows (block.add 1000 row) := by
  obtain ⟨count, values, text⟩ := shows
  -- a comma stands before the row if there are others
  have sqlVal : (if 1 < state.block + 1 then state.sqlVal ++ ",".toList ++ sqlRow row else state.sqlVal ++ sqlRow row) =
      joined ',' ((block.body ++ [row]).map sqlRow) := by
    rw [values, count, filled.counted, List.map_append, List.map_singleton]
    by_cases empty : block.body = []
    · simp [empty, joined]
    · have some : 1 < block.body.length + 1 := Nat.succ_lt_succ (List.length_pos_iff.mpr empty)
      rw [if_pos some, joined_snoc _ _ _ (by simpa using empty)]
      simp
  rw [Sql.add, sqlVal, Block.add, count]
  by_cases full : block.count + 1 = 1000
  · rw [if_pos full, if_pos full]
    exact ⟨rfl, rfl, by rw [text, insertText_snoc]⟩
  · rw [if_neg full, if_neg full]
    exact ⟨rfl, rfl, text⟩

theorem Sql.shows_foldl (rows : List PvTuple) {state : Sql} {block : Block PvTuple} (shows : state.Shows block)
    (filled : block.Filled 1000) : (rows.foldl Sql.add state).Shows (rows.foldl (Block.add 1000) block) := by
  induction rows generalizing state block with
  | nil => exact shows
  | cons row rest ih => exact ih (Sql.shows_add shows filled row) (Block.filled_add filled row)

theorem Sql.add_row (rows : List PvTuple) (state : Sql) : (rows.foldl Sql.add state).row = state.row := by
  induction rows generalizing state with
  | nil => rfl
  | cons row rest ih =>
    rw [List.foldl_cons, ih, Sql.add]
    split <;> rfl

section
variable {reader : Reader} {san : Str}

/-- The number of a row does not matter to the statements. -/
theorem Sql.shows_row {state : Sql} {block : Block PvTuple} (shows : state.Shows block) (number : Nat) :
    Sql.Shows { state with row := number } block := ⟨shows.count, shows.values, shows.text⟩

theorem Sql.shows_lines (rest : List Str) {state : Sql} {block : Block PvTuple} (started : 1 ≤ state.row)
    (shows : state.Shows block) (filled : block.Filled 1000) :
    (rest.foldl (Sql.line reader san) state).row = state.row + rest.length ∧
      (rest.foldl (Sql.line reader san) state).Shows
        ((rest.flatMap (pvTuples reader san)).foldl (Block.add 1000) block) := by
  induction rest generalizing state block with
  | nil => exact ⟨rfl, shows⟩
  | cons line rest ih =>
    have next : Sql.line reader san state line =
        (pvTuples reader san line).foldl Sql.add { state with row := state.row + 1 } := if_pos (Nat.succ_lt_succ started)
    have rowIs : (Sql.line reader san state line).row = state.row + 1 := by
      rw [next, Sql.add_row]
    have shown := Sql.shows_foldl (pvTuples reader san line) (Sql.shows_row shows (state.row + 1)) filled
    rw [← next] at shown
    obtain ⟨row, all⟩ := ih (rowIs ▸ Nat.le_add_left 1 _) shown (Block.filled_foldl _ filled)
    rw [List.foldl_cons, List.flatMap_cons, List.foldl_append, row, rowIs, List.length_cons]
    exact ⟨by omega, all⟩

theorem closed_ne_nil (text : Str) : text ++ ")".toList ≠ [] := List.append_ne_nil_of_right_ne_nil text (by decide)

theorem sqlRow_ne_nil (row : PvTuple) : sqlRow row ≠ [] := closed_ne_nil _

theorem joined_sqlRow_eq_nil (rows : List PvTuple) : joined ',' (rows.map sqlRow) = [] ↔ rows = [] := by
  cases rows with
  | nil => simp [joined]
  | cons first rest =>
    cases rest with
    | nil => simp [joined, sqlRow_ne_nil]
    | cons second rest => simp [joined_cons_cons]

theorem priceVolumeTest_batches (reader : Reader) (san : Str) (lines : List Str) :
    ∃ batches : List (List PvTuple),
      priceVolumeTest reader san (some lines) = (if 1 < lines.length then some (insertText batches) else none) ∧
        Fair 1000 batches ∧ batches.flatten = lines.tail.flatMap (pvTuples reader san) := by
  cases lines with
  | nil => exact ⟨[], rfl, by simp [Fair], rfl⟩
  | cons header rest =>
    have start : Sql.Shows ⟨1, 0, 0, [], []⟩ (⟨0, [], []⟩ : Block PvTuple) := ⟨rfl, rfl, rfl⟩
    have empty : (⟨0, [], []⟩ : Block PvTuple).Filled 1000 := ⟨rfl, by norm_num, by simp⟩
    obtain ⟨row, shows⟩ := @Sql.shows_lines reader san rest _ _ le_rfl start empty
    have filled := Block.filled_foldl (rest.flatMap (pvTuples reader san)) empty
    have carried := flatten_batches 1000 (rest.flatMap (pvTuples reader san))
    rw [batches, Block.all] at carried
    generalize (rest.flatMap (pvTuples reader san)).foldl (Block.add 1000) ⟨0, [], []⟩ = block at shows filled carried
    have sentFair : Fair 1000 block.sent := fun batch member => by
      rw [filled.full batch member]
      norm_num
    have first : Sql.line reader san ⟨0, 0, 0, [], []⟩ header = ⟨1, 0, 0, [], []⟩ := rfl
    simp only [priceVolumeTest, List.foldl_cons, first, row, List.length_cons, List.tail_cons]
    rw [shows.values, shows.text]
    rw [Nat.add_comm 1]
    by_cases none : block.body = []
    · rw [none] at carried ⊢
      rw [List.flatten_append, List.flatten_singleton, List.append_nil] at carried
      exact ⟨block.sent, rfl, sentFair, carried⟩
    · refine ⟨block.sent ++ [block.body], ?_, fair_append.mpr ⟨sentFair, ?_⟩, carried⟩
      · rw [if_pos (fun nil => none ((joined_sqlRow_eq_nil _).mp nil)), insertText_snoc]
      · rw [Fair, List.forall_mem_singleton]
        exact ⟨List.length_pos_iff.mpr none, filled.less.le⟩

/-! ### Columns -/

theorem alpha_value {j : Nat} (inside : j < 20) : decimalValue (alpha.getD (3 + j) []) = (j + 1) / 20 := by
  have all : ∀ j : Fin 20, decimalValue (alpha.getD (3 + j) []) = ((j : ℕ) + 1) / 20 := by decide +kernel
  exact all ⟨j, inside⟩

/-- `split` leaves out nothing exactly if the last column has a text. -/
theorem length_fields_iff (line : Str) :
    (fields line).length = (columns line).length ↔ (columns line).getLast? ≠ some [] := by
  have isPrefix : fields line <+: columns line := List.rdropWhile_prefix _ _
  have filled : columns line ≠ [] := List.splitOn_ne_nil _ _
  have whole : (fields line).length = (columns line).length ↔ fields line = columns line :=
    ⟨isPrefix.eq_of_length, congrArg List.length⟩
  rw [whole, fields, ← columns, List.rdropWhile_eq_self_iff, List.getLast?_eq_some_getLast filled]
  simp [filled]

theorem contributes_of_fields (reader : Reader) (san : Str) {line : Str} (same : fields line = columns line)
    (most : (columns line).length ≤ 25) : Contributes reader san line (pvTuples reader san line) := by
  refine ⟨by simp [pvTuples, same], fun j row found => ?_⟩
  obtain ⟨inside, rfl⟩ := List.getElem?_eq_some_iff.mp found
  rw [pvTuples, same, List.length_map, List.length_range'] at inside
  simp only [pvTuples, same, List.getElem_map, List.getElem_range', Nat.one_mul, true_and, and_true]
  exact alpha_value (by omega)

theorem contributes_iff (reader : Reader) (san : Str) {line : Str} (five : 5 ≤ (columns line).length)
    (most : (columns line).length ≤ 25) :
    Contributes reader san line (pvTuples reader san line) ↔
      (6 ≤ (columns line).length → (columns line).getLast? ≠ some []) := by
  have isPrefix : fields line <+: columns line := List.rdropWhile_prefix _ _
  constructor
  · intro contributes six
    have number := contributes.number
    rw [pvTuples, List.length_map, List.length_range'] at number
    have less := isPrefix.length_le
    exact (length_fields_iff line).mp (by omega)
  · intro last
    by_cases six : 6 ≤ (columns line).length
    · exact contributes_of_fields reader san (isPrefix.eq_of_length ((length_fields_iff line).mpr (last six))) most
    · have less := isPrefix.length_le
      have none : pvTuples reader san line = [] := by
        rw [pvTuples, List.map_eq_nil_iff, List.range'_eq_nil_iff]
        omega
      rw [none]
      exact ⟨by rw [List.length_nil]; omega, fun j row found => by simp at found⟩

end

/-- The loaders agree and every line contributes its rows exactly if no line of
    six columns or more ends in an empty one. A line that ends in a newline does
    not. -/
theorem loaders_exact_iff (reader : Reader) (san : Str) (lines : List Str)
    (most : ∀ line ∈ lines, (columns line).length ≤ 25) :
    Exact reader san lines ↔
      ∀ line ∈ lines.tail, 6 ≤ (columns line).length → (columns line).getLast? ≠ some [] := by
  constructor
  · intro exactly line member six
    have few := most line (List.mem_of_mem_tail member)
    exact (contributes_iff reader san (Nat.le_of_succ_le six) few).mp
      (exactly.contributes line member (Nat.le_of_succ_le six)) six
  · intro last
    obtain ⟨batches, text, fair, all⟩ := priceVolumeTest_batches reader san lines
    refine ⟨⟨batches, ?_, text, fair, all⟩, fun line member five => ?_⟩
    · rw [all, outText, afterFirst_all, List.map_flatMap]
    · exact (contributes_iff reader san five (most line (List.mem_of_mem_tail member))).mpr (last line member)

/-- Three bids a line, a line that is too short for one, and a last line that does
    not end in a newline. -/
def severalPrices : List Str :=
  ["site,size,segment,b1,b2,b3,cv,v\n".toList, "20,300x250,5,1.25,1.5,2,900,1000\n".toList,
    "21,728x90,5,0.8,1,1.2,450,1000\n".toList, "22,300x250,7\n".toList, "23,300x250,-1,3,3.5,4,80,100".toList]

theorem loaders_exact_several_prices :
    Exact sampleReader "auo".toList severalPrices ∧
      (severalPrices.tail.flatMap (pvTuples sampleReader "auo".toList)).map
          (fun row => [row.siteid, row.bid, row.allocation, row.volume, row.capped_volume]) =
        [["20".toList, "1.25".toList, "0.05".toList, "1000".toList, "900".toList],
          ["20".toList, "1.5".toList, "0.1".toList, "1000".toList, "900".toList],
          ["20".toList, "2".toList, "0.15".toList, "1000".toList, "900".toList],
          ["21".toList, "0.8".toList, "0.05".toList, "1000".toList, "450".toList],
          ["21".toList, "1".toList, "0.1".toList, "1000".toList, "450".toList],
          ["21".toList, "1.2".toList, "0.15".toList, "1000".toList, "450".toList],
          ["23".toList, "3".toList, "0.05".toList, "100".toList, "80".toList],
          ["23".toList, "3.5".toList, "0.1".toList, "100".toList, "80".toList],
          ["23".toList, "4".toList, "0.15".toList, "100".toList, "80".toList]] := by
  refine ⟨?_, by decide +kernel⟩
  apply (loaders_exact_iff sampleReader "auo".toList severalPrices (by decide)).mpr
  decide

/-- A file whose last line ends in an empty column. -/
def cutOff : List Str := ["site,size,segment,b1,b2,cv,v\n".toList, "20,300x250,5,1.25,1.5,900,".toList]

/-- The price 1.5 is taken for the capped volume. -/
theorem empty_column_shifts :
    (∀ line ∈ cutOff, (columns line).length ≤ 25) ∧ ¬ Exact sampleReader "auo".toList cutOff ∧
      pvTuples sampleReader "auo".toList "20,300x250,5,1.25,1.5,900,".toList =
        [⟨"auo".toList, "20".toList, "5".toList, "300x250".toList, "1.25".toList, "0.05".toList, "900".toList,
          "1.5".toList⟩] := by
  refine ⟨by decide, fun exactly => ?_, by decide⟩
  have contributes := exactly.contributes "20,300x250,5,1.25,1.5,900,".toList (by decide) (by decide)
  exact absurd contributes.number (by decide)

end Cdo.PriceVolumeLoaders
