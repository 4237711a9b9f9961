import Cdo.BidCalc
import Cdo.DeltaSync

/-!
The files of bids and the ad server that is kept in step with them (the end of
`BidCalc` and `processBids` of `CDO.pm`, `bidOps.pm`). An hourly run writes every
cell with its bid to one of two files in the folder of its hour: `optBids.csv`
if the solution has the cell's variable, else `defBids.csv`. `getBids` compares
each file with the one of the same type in the folder of the hour before, which
may be missing, and prints the bids that are not the same text there. Applying
these to the server's bids gives every cell of the run the bid that was written
for it (`server_synchronised`), whatever cells come, go and change files and
whatever hours are skipped: the model simulates the publications of `DeltaSync`
(`published_hourlyRun`).
-/
namespace Cdo.BidFiles
open Cdo.Text Cdo.Query Cdo.Tables Cdo.Params Cdo.Objective Cdo.BidCalc Cdo.DeltaSync

/-! ### Bids as texts -/

/-- A bid as it is written: the minimum or a positive price. -/
def IsBid (text : Str) : Prop := text = minBid ∨ ∃ hundredths : Int, 0 < hundredths ∧ text = twoDecimals hundredths

/-- How a number is printed; only its commas and newlines would matter. -/
structure NumberText where
  text : ℚ → Str
  plain : ∀ x, ',' ∉ text x ∧ '\n' ∉ text x

def noNull (input output : Str) : Str := if isPositive input then input else output

def ifExists (input output : Str) : Str := if input ≠ [] then input else output

/-! ### Files -/

inductive BidType where
  | opt | dflt
deriving DecidableEq

def bidTypes : List BidType := [.opt, .dflt]

/-- The files of a folder, by the types that `getBidFile` knows: `OPT` and `DEF`,
    `U_OPT` and `U_DEF`, `DELTA_OPT` and `DELTA_DEF`. -/
inductive BidFile where
  | bids (type : BidType)
  | updated (type : BidType)
  | changed (type : BidType)
deriving DecidableEq

/-- The files of all folders. A folder's date and hour are counted in hours. -/
abbrev Disk := Int → BidFile → Option Str

/-- The text of a file; none is read if it cannot be opened. -/
def Disk.read (disk : Disk) (hour : Int) (file : BidFile) : Str := (disk hour file).getD []

def Disk.write (disk : Disk) (hour : Int) (file : BidFile) (text : Str) : Disk :=
  Function.update disk hour (Function.update (disk hour) file (some text))

def column (line : Str) (i : Nat) : Str := (line.splitOn ',').getD i []

/-! ### Writing the bids -/

def optHeader : Str := "Id,San,Cell,Bid,Allocation,EImps(total avail),EImps(capped),ESpend,BidType".toList

def defHeader : Str := "Id,San,Cell,Bid".toList

def optLine (numerals : NumberText) (id : Str) (c : Cell) (bid : OptBid) : Str :=
  joined ',' [id, c.san, lpVarMain c, bid.bid, twoDecimals bid.allocation, numerals.text bid.evolume,
    numerals.text bid.capped_evolume, numerals.text bid.espend, "CDO".toList]

def defLine (id : Str) (c : Cell) : Str := joined ',' [id, c.san, lpVarMain c, minBid]

/-- The line of a cell in the file of a type, if it is there. -/
def cellLine (numerals : NumberText) (optBids : SortedMap Str OptBid) (type : BidType) (entry : Str × Cell) :
    Option Str :=
  match type, optBids.get? (lpVarMain entry.2) with
  | .opt, some bid => some (optLine numerals entry.1 entry.2 bid)
  | .dflt, none => some (defLine entry.1 entry.2)
  | _, _ => none

def header : BidType → Str
  | .opt => optHeader
  | .dflt => defHeader

def bidLines (numerals : NumberText) (optBids : SortedMap Str OptBid) (cell : SortedMap Str Cell) (type : BidType) :
    List Str :=
  header type :: cell.entries.filterMap (cellLine numerals optBids type)

def writeBids (numerals : NumberText) (optBids : SortedMap Str OptBid) (cell : SortedMap Str Cell) (hour : Int)
    (disk : Disk) : Disk :=
  (disk.write hour (.bids .opt) (printed (bidLines numerals optBids cell .opt))).write hour (.bids .dflt)
    (printed (bidLines numerals optBids cell .dflt))

/-! ### Comparing with the hour before -/

structure FiledBid where
  bid : Str
  lp : Str
deriving DecidableEq

def readBids (text : Str) : SortedMap Str FiledBid :=
  SortedMap.ofRows (fun line => column line 0) (fun line => ⟨column line 3, column line 2⟩) (fileLines text)

/-- The bid of a cell, empty if there is none. -/
def bidIn (bids : SortedMap Str FiledBid) (cell : Str) : Str := ((bids.get? cell).map FiledBid.bid).getD []

def lpIn (bids : SortedMap Str FiledBid) (cell : Str) : Str := ((bids.get? cell).map FiledBid.lp).getD []

def lastBid (lastBids : SortedMap Str FiledBid) (cell : Str) : Str := ifExists (bidIn lastBids cell) "NONE".toList

def currentBid (currentBids : SortedMap Str FiledBid) (cell : Str) : Str := noNull (bidIn currentBids cell) "0".toList

/-- The cells whose bid is not the text that the last file has. -/
def changedCells (lastBids currentBids : SortedMap Str FiledBid) (order : currentBids.Listing) : List Str :=
  order.keys.filter fun cell => currentBid currentBids cell ≠ lastBid lastBids cell

abbrev HashOrder := (bids : SortedMap Str FiledBid) → bids.Listing

def getBids (order : HashOrder) (hour lastHour : Int) (disk : Disk) (type : BidType) : Disk :=
  let lastBids := readBids (disk.read lastHour (.bids type))
  let currentBids := readBids (disk.read hour (.bids type))
  let cells := changedCells lastBids currentBids (order currentBids)
  let updated := cells.map fun cell => joined ',' [cell, currentBid currentBids cell]
  let changes := cells.map fun cell =>
    joined ',' [cell, lpIn currentBids cell, lastBid lastBids cell, currentBid currentBids cell]
  (disk.write hour (.updated type) (printed updated)).write hour (.changed type) (printed changes)

def processBids (order : HashOrder) (hour lastHour : Int) (disk : Disk) : Disk :=
  bidTypes.foldl (getBids order hour lastHour) disk

/-! ### Hourly runs -/

/-- What an hourly run finds and computes up to its bids: the cells of the
    network and the bids of the solution, which are the minimum or positive. No
    variable holds a comma or a newline: the account names are stored without
    white space and are fields of comma-separated files themselves. -/
structure BidRun where
  clock : Int
  net : Network
  qhat : Cell → Option ℚ
  optBids : SortedMap Str OptBid
  order : HashOrder
  isBid : ∀ name bid, optBids.get? name = some bid → IsBid bid.bid
  plain : ∀ c ∈ cellRows net, ',' ∉ lpVarMain c ∧ '\n' ∉ lpVarMain c

def BidRun.cell (run : BidRun) : SortedMap Str Cell := getCellData run.net run.qhat

def cdoFactor : Int := 1

/-- The hour that the clock is taken to show (`getGMTDateHour` with a delay of one
    hour). -/
def cHour (clock : Int) : Int := clock - 1

def oHour (clock : Int) : Int := cHour clock + cdoFactor

structure System where
  disk : Disk
  server : Str → Option Str

def consume (server : Str → Option Str) (text : Str) : Str → Option Str :=
  applied server ((fileLines text).map fun line => (column line 0, column line 1))

/-- An hourly run, after which its updates are applied to the server. -/
def hourlyRun (numerals : NumberText) (system : System) (run : BidRun) : System :=
  let hour := oHour run.clock
  let disk := processBids run.order hour (cHour run.clock) (writeBids numerals run.optBids run.cell hour system.disk)
  ⟨disk, bidTypes.foldl (fun server type => consume server (disk.read hour (.updated type))) system.server⟩

/-- Before the first run there are no files; the server may have any bids. -/
def start (server : Str → Option Str) : System := ⟨fun _ _ => none, server⟩

/-! ### Texts of bids and lines -/

/-- A text that fits into a field of a line. -/
def Plain (text : Str) : Prop := ',' ∉ text ∧ '\n' ∉ text

theorem IsBid.noNull_eq {text : Str} (isBid : IsBid text) : noNull text "0".toList = text := by
  rcases isBid with rfl | ⟨hundredths, positive, rfl⟩
  · decide
  · rw [noNull, if_pos (isPositive_twoDecimals positive)]

theorem plain_twoDecimals (i : Int) : Plain (twoDecimals i) :=
  ⟨not_mem_twoDecimals (by decide) (by decide) (by decide) i, not_mem_twoDecimals (by decide) (by decide) (by decide) i⟩

theorem IsBid.plain {text : Str} (isBid : IsBid text) : Plain text := by
  rcases isBid with rfl | ⟨hundredths, -, rfl⟩
  · exact ⟨by decide, by decide⟩
  · exact plain_twoDecimals hundredths

theorem IsBid.ifExists_eq {text : Str} (isBid : IsBid text) (output : Str) : ifExists text output = text := by
  refine if_pos ?_
  rcases isBid with rfl | ⟨hundredths, -, rfl⟩
  · decide
  · exact twoDecimals_ne_nil hundredths

theorem IsBid.ne_none {text : Str} (isBid : IsBid text) : text ≠ "NONE".toList := by
  rcases isBid with rfl | ⟨hundredths, -, rfl⟩
  · decide
  · intro same
    have letter : 'N' ∈ twoDecimals hundredths := by
      rw [same]
      decide
    exact not_mem_twoDecimals (by decide) (by decide) (by decide) _ letter

theorem plain_intText (i : Int) : Plain (intText i) :=
  ⟨not_mem_intText (by decide) (by decide) i, not_mem_intText (by decide) (by decide) i⟩

theorem column_joined {fields : List Str} (some : fields ≠ []) (plain : ∀ field ∈ fields, Plain field) (i : Nat) :
    column (joined ',' fields) i = fields.getD i [] := by
  rw [column, splitOn_joined some fun field member => (plain field member).1]

theorem newline_joined {fields : List Str} (plain : ∀ field ∈ fields, Plain field) : '\n' ∉ joined ',' fields := by
  rw [mem_joined (by decide)]
  rintro ⟨field, member, inside⟩
  exact (plain field member).2 inside

theorem plain_column {text line : Str} (member : line ∈ fileLines text) (i : Nat) : Plain (column line i) := by
  unfold column
  rw [List.getD_eq_getElem?_getD]
  cases found : (line.splitOn ',')[i]? with
  | none => exact ⟨List.not_mem_nil, List.not_mem_nil⟩
  | some piece =>
    have isPiece := List.mem_of_getElem? found
    refine ⟨not_mem_splitOn isPiece, fun inside => newline_fileLines member ?_⟩
    have rejoined : joined ',' (line.splitOn ',') = line := List.intercalate_splitOn ','
    rw [← rejoined]
    exact (mem_joined (by decide)).mpr ⟨piece, isPiece, inside⟩

/-! ### Written bids -/

/-- The bid that a run writes for a cell id to the file of a type. -/
def writtenBid (run : BidRun) (type : BidType) (id : Str) : Option Str :=
  (run.cell.get? id).bind fun c =>
    match type, run.optBids.get? (lpVarMain c) with
    | .opt, some bid => some bid.bid
    | .dflt, none => some minBid
    | _, _ => none

def cellIds : Set Str := Set.range intText

theorem mem_cellIds {run : BidRun} {id : Str} {c : Cell} (found : run.cell.get? id = some c) : id ∈ cellIds := by
  obtain ⟨row, -, isId, -⟩ := getCellData_some found
  exact ⟨row.cellid, isId⟩

theorem plain_cell {run : BidRun} {id : Str} {c : Cell} (found : run.cell.get? id = some c) :
    Plain id ∧ Plain c.san ∧ Plain (lpVarMain c) := by
  obtain ⟨row, member, rfl, rfl⟩ := getCellData_some found
  have name := run.plain row member
  have inName : ∀ ch, ch ∈ row.san → ch ∈ lpVarMain row := by
    intro ch inside
    rw [lpVarMain, joined_cons_cons]
    exact List.mem_append_left _ inside
  exact ⟨plain_intText _, ⟨fun inside => name.1 (inName _ inside), fun inside => name.2 (inName _ inside)⟩, name⟩

theorem writtenBid_isBid {run : BidRun} {type : BidType} {id text : Str}
    (written : writtenBid run type id = some text) : IsBid text := by
  obtain ⟨c, -, isText⟩ := Option.bind_eq_some_iff.mp written
  cases recorded : run.optBids.get? (lpVarMain c) with
  | none =>
    rw [recorded] at isText
    cases type with
    | opt => exact absurd isText (by simp)
    | dflt =>
      obtain rfl := Option.some.inj isText
      exact .inl rfl
  | some bid =>
    rw [recorded] at isText
    cases type with
    | opt =>
      obtain rfl := Option.some.inj isText
      exact run.isBid _ bid recorded
    | dflt => exact absurd isText (by simp)

theorem writtenBid_exists {run : BidRun} {id : Str} {c : Cell} (found : run.cell.get? id = some c) :
    ∃ type text, writtenBid run type id = some text := by
  cases recorded : run.optBids.get? (lpVarMain c) with
  | none => exact ⟨.dflt, minBid, by simp [writtenBid, found, recorded]⟩
  | some bid => exact ⟨.opt, bid.bid, by simp [writtenBid, found, recorded]⟩

/-- No cell is written to both files. -/
theorem writtenBid_apart (run : BidRun) : Apart cellIds (writtenBid run) := by
  intro id _ i j v w first second
  obtain ⟨c, found, iIs⟩ := Option.bind_eq_some_iff.mp first
  obtain ⟨c', found', jIs⟩ := Option.bind_eq_some_iff.mp second
  obtain rfl := Option.some.inj (found.symm.trans found')
  cases recorded : run.optBids.get? (lpVarMain c) with
  | none => cases i <;> cases j <;> simp_all
  | some bid => cases i <;> cases j <;> simp_all

theorem cellLine_columns {numerals : NumberText} {run : BidRun} {type : BidType} {id line : Str} {c : Cell}
    (found : run.cell.get? id = some c) (isLine : cellLine numerals run.optBids type (id, c) = some line) :
    '\n' ∉ line ∧ column line 0 = id ∧ writtenBid run type id = some (column line 3) := by
  obtain ⟨idPlain, sanPlain, namePlain⟩ := plain_cell found
  unfold cellLine at isLine
  cases recorded : run.optBids.get? (lpVarMain c) with
  | none =>
    rw [recorded] at isLine
    cases type with
    | opt => exact absurd isLine (by simp)
    | dflt =>
      obtain rfl := Option.some.inj isLine
      have plain : ∀ field ∈ [id, c.san, lpVarMain c, minBid], Plain field := by
        simp only [List.forall_mem_cons]
        exact ⟨idPlain, sanPlain, namePlain, IsBid.plain (.inl rfl), fun _ none => absurd none List.not_mem_nil⟩
      refine ⟨newline_joined plain, column_joined (by simp) plain 0, ?_⟩
      rw [defLine, column_joined (by simp) plain 3]
      simp [writtenBid, found, recorded]
  | some bid =>
    rw [recorded] at isLine
    cases type with
    | opt =>
      obtain rfl := Option.some.inj isLine
      have plain : ∀ field ∈ [id, c.san, lpVarMain c, bid.bid, twoDecimals bid.allocation, numerals.text bid.evolume,
          numerals.text bid.capped_evolume, numerals.text bid.espend, "CDO".toList], Plain field := by
        have bidPlain := (run.isBid _ bid recorded).plain
        have fixed : Plain "CDO".toList := ⟨by decide, by decide⟩
        simp only [List.forall_mem_cons]
        exact ⟨idPlain, sanPlain, namePlain, bidPlain, plain_twoDecimals _, numerals.plain _, numerals.plain _,
          numerals.plain _, fixed, fun _ none => absurd none List.not_mem_nil⟩
      refine ⟨newline_joined plain, column_joined (by simp) plain 0, ?_⟩
      rw [optLine, column_joined (by simp) plain 3]
      simp [writtenBid, found, recorded]
    | dflt => exact absurd isLine (by simp)

theorem header_columns (type : BidType) : '\n' ∉ header type ∧ column (header type) 0 = "Id".toList := by
  cases type <;> exact ⟨by decide, by decide⟩

theorem bidLines_read (numerals : NumberText) (run : BidRun) (type : BidType) :
    fileLines (printed (bidLines numerals run.optBids run.cell type)) =
      bidLines numerals run.optBids run.cell type := by
  refine fileLines_printed ?_
  intro line member
  rcases List.mem_cons.mp member with rfl | later
  · exact (header_columns type).1
  · obtain ⟨⟨id, c⟩, isEntry, isLine⟩ := List.mem_filterMap.mp later
    exact (cellLine_columns (SortedMap.mem_entries.mp isEntry) isLine).1

/-- The lines of a file that have a cell's id hold the bid that is written for it. -/
theorem mem_bidLines {numerals : NumberText} {run : BidRun} {type : BidType} {id text : Str} (isId : id ∈ cellIds) :
    (∃ line ∈ bidLines numerals run.optBids run.cell type, column line 0 = id ∧ column line 3 = text) ↔
      writtenBid run type id = some text := by
  constructor
  · rintro ⟨line, member, first, fourth⟩
    rcases List.mem_cons.mp member with rfl | later
    · -- the header's first field is not the id of a cell
      obtain ⟨i, rfl⟩ := isId
      rw [(header_columns type).2] at first
      have letter : 'I' ∈ intText i := by rw [← first]; decide
      exact absurd letter (not_mem_intText (by decide) (by decide) i)
    · obtain ⟨⟨key, c⟩, isEntry, isLine⟩ := List.mem_filterMap.mp later
      obtain ⟨-, isKey, written⟩ := cellLine_columns (SortedMap.mem_entries.mp isEntry) isLine
      rw [← first, ← fourth, isKey, written]
  · intro written
    obtain ⟨c, found, isText⟩ := Option.bind_eq_some_iff.mp written
    have line : ∃ line, cellLine numerals run.optBids type (id, c) = some line := by
      cases recorded : run.optBids.get? (lpVarMain c) with
      | none => cases type <;> simp_all [cellLine]
      | some bid => cases type <;> simp_all [cellLine]
    obtain ⟨line, isLine⟩ := line
    obtain ⟨-, isKey, writtenIs⟩ := cellLine_columns found isLine
    refine ⟨line, List.mem_cons_of_mem _ ?_, isKey, ?_⟩
    · exact List.mem_filterMap.mpr ⟨(id, c), SortedMap.mem_entries.mpr found, isLine⟩
    · exact Option.some.inj (writtenIs.symm.trans written)

/-- The bids that are read from a run's files are those that it wrote. -/
theorem readBids_written (numerals : NumberText) (run : BidRun) (type : BidType) {id : Str} (isId : id ∈ cellIds) :
    ((readBids (printed (bidLines numerals run.optBids run.cell type))).get? id).map FiledBid.bid =
      writtenBid run type id := by
  unfold readBids
  rw [bidLines_read]
  cases written : writtenBid run type id with
  | none =>
    rw [SortedMap.get?_ofRows_none, Option.map_none]
    intro line member first
    exact absurd ((mem_bidLines isId).mp ⟨line, member, first, rfl⟩) (by rw [written]; simp)
  | some text =>
    obtain ⟨line, member, rfl, -⟩ := (mem_bidLines isId).mpr written
    obtain ⟨filed, found⟩ := SortedMap.get?_ofRows_mem (fun line => column line 0)
      (fun line => (⟨column line 3, column line 2⟩ : FiledBid)) member
    obtain ⟨other, otherMember, same, rfl⟩ := SortedMap.get?_ofRows_some found
    rw [found, Option.map_some, ← written]
    exact ((mem_bidLines isId).mp ⟨other, otherMember, same, rfl⟩).symm

/-! ### Folders -/

theorem Disk.read_write (disk : Disk) (hour hour' : Int) (file file' : BidFile) (text : Str) :
    (disk.write hour file text).read hour' file' =
      if hour' = hour ∧ file' = file then text else disk.read hour' file' := by
  by_cases sameHour : hour' = hour
  · by_cases sameFile : file' = file
    · simp [Disk.read, Disk.write, sameHour, sameFile]
    · simp [Disk.read, Disk.write, sameHour, sameFile]
  · simp [Disk.read, Disk.write, sameHour]

theorem getBids_bids (order : HashOrder) (hour lastHour other : Int) (disk : Disk) (type type' : BidType) :
    (getBids order hour lastHour disk type).read other (.bids type') = disk.read other (.bids type') := by
  simp [getBids, Disk.read_write]

theorem processBids_bids (order : HashOrder) (hour lastHour other : Int) (disk : Disk) (type : BidType) :
    (processBids order hour lastHour disk).read other (.bids type) = disk.read other (.bids type) := by
  simp [processBids, bidTypes, getBids_bids]

def sentBids (lastBids currentBids : SortedMap Str FiledBid) (order : currentBids.Listing) : List (Str × Str) :=
  (changedCells lastBids currentBids order).map fun cell => (cell, currentBid currentBids cell)

theorem getBids_updated (order : HashOrder) (hour lastHour : Int) (disk : Disk) (type type' : BidType) :
    (getBids order hour lastHour disk type).read hour (.updated type') =
      if type' = type then
        printed ((sentBids (readBids (disk.read lastHour (.bids type))) (readBids (disk.read hour (.bids type)))
          (order _)).map fun update => joined ',' [update.1, update.2])
      else disk.read hour (.updated type') := by
  simp [getBids, Disk.read_write, sentBids, Function.comp_def]

theorem processBids_updated (order : HashOrder) (hour lastHour : Int) (disk : Disk) (type : BidType) :
    (processBids order hour lastHour disk).read hour (.updated type) =
      printed ((sentBids (readBids (disk.read lastHour (.bids type))) (readBids (disk.read hour (.bids type)))
        (order _)).map fun update => joined ',' [update.1, update.2]) := by
  simp only [processBids, bidTypes, List.foldl_cons, List.foldl_nil]
  cases type with
  | opt => rw [getBids_updated, if_neg (by decide), getBids_updated, if_pos rfl]
  | dflt => rw [getBids_updated, if_pos rfl, getBids_bids, getBids_bids]

theorem plain_readBids {text id : Str} {filed : FiledBid} (found : (readBids text).get? id = some filed) :
    Plain id ∧ Plain filed.bid := by
  obtain ⟨line, member, rfl, rfl⟩ := SortedMap.get?_ofRows_some found
  exact ⟨plain_column member 0, plain_column member 3⟩

theorem plain_currentBid {text id : Str} {filed : FiledBid} (found : (readBids text).get? id = some filed) :
    Plain (currentBid (readBids text) id) := by
  simp only [currentBid, noNull, bidIn, found, Option.map_some, Option.getD_some]
  split_ifs
  · exact (plain_readBids found).2
  · exact ⟨by decide, by decide⟩

/-- The server applies the updates as they were sent. -/
theorem consume_printed (server : Str → Option Str) (lastBids : SortedMap Str FiledBid) (text : Str)
    (order : (readBids text).Listing) :
    consume server (printed ((sentBids lastBids (readBids text) order).map fun update =>
      joined ',' [update.1, update.2])) = applied server (sentBids lastBids (readBids text) order) := by
  have plain : ∀ update ∈ sentBids lastBids (readBids text) order, ∀ field ∈ [update.1, update.2], Plain field := by
    intro update member
    obtain ⟨cell, changed, rfl⟩ := List.mem_map.mp member
    obtain ⟨filed, found⟩ := order.mem_keys.mp (List.mem_of_mem_filter changed)
    simp only [List.forall_mem_cons]
    exact ⟨(plain_readBids found).1, plain_currentBid found, fun _ none => absurd none List.not_mem_nil⟩
  unfold consume
  rw [fileLines_printed]
  · rw [List.map_map, List.map_congr_left, List.map_id]
    intro update member
    simp [column_joined _ (plain update member)]
  · intro line member
    obtain ⟨update, sent, rfl⟩ := List.mem_map.mp member
    exact newline_joined (plain update sent)

/-! ### Publications -/

def archived (disk : Disk) (hour : Int) (type : BidType) (id : Str) : Option Str :=
  ((readBids (disk.read hour (.bids type))).get? id).map FiledBid.bid

/-- The folders and the server as the store of a publisher of bids. -/
def store (system : System) : Store BidType Str Str := ⟨archived system.disk, system.server⟩

/-- All bids of cells that stand in files are bids as they are written. -/
def Tidy (disk : Disk) : Prop :=
  ∀ hour type, ∀ id ∈ cellIds, ∀ text, archived disk hour type id = some text → IsBid text

section
variable {bids lastBids currentBids : SortedMap Str FiledBid} {id text : Str}

theorem currentBid_of_isBid (found : (bids.get? id).map FiledBid.bid = some text) (isBid : IsBid text) :
    currentBid bids id = text := by
  rw [currentBid, bidIn, found, Option.getD_some, isBid.noNull_eq]

/-- A bid is compared as equal exactly if the last file has it: what stands for a
    missing bid is not a bid. -/
theorem lastBid_eq_iff (tidy : ∀ old, (bids.get? id).map FiledBid.bid = some old → IsBid old) (isBid : IsBid text) :
    lastBid bids id = text ↔ (bids.get? id).map FiledBid.bid = some text := by
  unfold lastBid bidIn
  cases last : (bids.get? id).map FiledBid.bid with
  | none =>
    refine iff_of_false ?_ (by simp)
    exact fun same => isBid.ne_none same.symm
  | some old => rw [Option.getD_some, (tidy old last).ifExists_eq, Option.some.injEq]

/-- The updates that are sent are the differences of the two files. -/
theorem mem_sentBids_iff (lastTidy : ∀ old, (lastBids.get? id).map FiledBid.bid = some old → IsBid old)
    (currentTidy : ∀ new, (currentBids.get? id).map FiledBid.bid = some new → IsBid new) (order : currentBids.Listing) :
    (id, text) ∈ sentBids lastBids currentBids order ↔
      (currentBids.get? id).map FiledBid.bid = some text ∧ (lastBids.get? id).map FiledBid.bid ≠ some text := by
  constructor
  · intro member
    obtain ⟨cell, changed, same⟩ := List.mem_map.mp member
    obtain ⟨rfl, rfl⟩ := Prod.mk.inj same
    obtain ⟨listed, differs⟩ := List.mem_filter.mp changed
    obtain ⟨filed, found⟩ := order.mem_keys.mp listed
    have isCurrent : (currentBids.get? cell).map FiledBid.bid = some filed.bid := by rw [found, Option.map_some]
    have isBid := currentTidy filed.bid isCurrent
    rw [currentBid_of_isBid isCurrent isBid] at differs ⊢
    refine ⟨isCurrent, fun last => ?_⟩
    exact of_decide_eq_true differs ((lastBid_eq_iff lastTidy isBid).mpr last).symm
  · rintro ⟨isCurrent, differs⟩
    have isBid := currentTidy text isCurrent
    have value := currentBid_of_isBid isCurrent isBid
    obtain ⟨filed, found, -⟩ := Option.map_eq_some_iff.mp isCurrent
    refine List.mem_map.mpr ⟨id, List.mem_filter.mpr ⟨order.mem_keys.mpr ⟨filed, found⟩, ?_⟩, by rw [value]⟩
    rw [value, decide_eq_true_eq]
    exact fun same => differs ((lastBid_eq_iff lastTidy isBid).mp same.symm)

end

theorem sentBids_isDelta {disk : Disk} (tidy : Tidy disk) (order : HashOrder) (hour lastHour : Int) (type : BidType) :
    IsDelta cellIds (archived disk lastHour type) (archived disk hour type)
      (sentBids (readBids (disk.read lastHour (.bids type))) (readBids (disk.read hour (.bids type))) (order _)) :=
  fun id isId _ => mem_sentBids_iff (tidy lastHour type id isId) (tidy hour type id isId) (order _)

/-! ### Whole runs -/

theorem read_hourlyRun (numerals : NumberText) (system : System) (run : BidRun) (hour : Int) (type : BidType) :
    (hourlyRun numerals system run).disk.read hour (.bids type) =
      if hour = oHour run.clock then printed (bidLines numerals run.optBids run.cell type)
      else system.disk.read hour (.bids type) := by
  unfold hourlyRun
  rw [processBids_bids]
  cases type <;> simp [writeBids, Disk.read_write]

theorem archived_hourlyRun (numerals : NumberText) (system : System) (run : BidRun) (type : BidType) {id : Str}
    (isId : id ∈ cellIds) :
    archived (hourlyRun numerals system run).disk (oHour run.clock) type id = writtenBid run type id := by
  rw [archived, read_hourlyRun, if_pos rfl, readBids_written numerals run type isId]

theorem archived_hourlyRun_other (numerals : NumberText) (system : System) (run : BidRun) {hour : Int}
    (other : hour ≠ oHour run.clock) :
    archived (hourlyRun numerals system run).disk hour = archived system.disk hour := by
  funext type id
  rw [archived, read_hourlyRun, if_neg other, archived]

theorem tidy_hourlyRun (numerals : NumberText) {system : System} (tidy : Tidy system.disk) (run : BidRun) :
    Tidy (hourlyRun numerals system run).disk := by
  intro hour type id isId text found
  by_cases now : hour = oHour run.clock
  · subst now
    rw [archived_hourlyRun numerals system run type isId] at found
    exact writtenBid_isBid found
  · rw [archived_hourlyRun_other numerals system run now] at found
    exact tidy hour type id isId text found

/-- The updates of a run, which come from the files as `BidCalc` left them. -/
def runUpdates (numerals : NumberText) (system : System) (run : BidRun) (type : BidType) : List (Str × Str) :=
  let disk := writeBids numerals run.optBids run.cell (oHour run.clock) system.disk
  sentBids (readBids (disk.read (cHour run.clock) (.bids type))) (readBids (disk.read (oHour run.clock) (.bids type)))
    (run.order _)

theorem runUpdates_isDelta (numerals : NumberText) {system : System} (tidy : Tidy system.disk) (run : BidRun)
    (type : BidType) :
    IsDelta cellIds (archived system.disk (oHour run.clock - 1) type)
      (archived (hourlyRun numerals system run).disk (oHour run.clock) type) (runUpdates numerals system run type) := by
  have before : oHour run.clock - 1 = cHour run.clock := by
    unfold oHour cdoFactor
    omega
  have earlier : cHour run.clock ≠ oHour run.clock := by omega
  have afterWriting : archived (hourlyRun numerals system run).disk =
      archived (writeBids numerals run.optBids run.cell (oHour run.clock) system.disk) := by
    funext hour type id
    unfold archived hourlyRun
    rw [processBids_bids]
  have tidyNow := tidy_hourlyRun numerals tidy run
  rw [before, ← archived_hourlyRun_other numerals system run earlier]
  unfold Tidy at tidyNow
  rw [afterWriting] at tidyNow ⊢
  exact sentBids_isDelta tidyNow run.order (oHour run.clock) (cHour run.clock) type

theorem server_hourlyRun (numerals : NumberText) (system : System) (run : BidRun) :
    (hourlyRun numerals system run).server =
      applied system.server (bidTypes.flatMap (runUpdates numerals system run)) := by
  have sent : ∀ server type,
      consume server ((hourlyRun numerals system run).disk.read (oHour run.clock) (.updated type)) =
        applied server (runUpdates numerals system run type) := by
    intro server type
    unfold hourlyRun
    rw [processBids_updated]
    exact consume_printed server _ _ _
  show bidTypes.foldl (fun server type =>
    consume server ((hourlyRun numerals system run).disk.read (oHour run.clock) (.updated type))) system.server = _
  simp only [sent, bidTypes, List.foldl_cons, List.foldl_nil, List.flatMap_cons, List.flatMap_nil, List.append_nil,
    applied_append]

/-- An hourly run publishes its bids. -/
theorem published_hourlyRun (numerals : NumberText) {system : System} (tidy : Tidy system.disk) (run : BidRun) :
    Published cellIds (store system) (store (hourlyRun numerals system run)) (oHour run.clock) := by
  refine ⟨fun hour other => archived_hourlyRun_other numerals system run other, ?_, ?_⟩
  · intro id isId i j v w
    simp only [store, archived_hourlyRun numerals system run _ isId]
    exact writtenBid_apart run id isId i j v w
  · have all : ∀ type, type ∈ bidTypes := by
      intro type
      cases type <;> simp [bidTypes]
    exact ⟨bidTypes, runUpdates numerals system run, all, runUpdates_isDelta numerals tidy run,
      server_hourlyRun numerals system run⟩

/-- What holds between runs: the files are tidy, and before any hour that is
    still to come the server is in step with the latest files. -/
structure Synchronised (runs : List BidRun) (system : System) : Prop where
  tidy : Tidy system.disk
  inStep : ∀ time, (∀ run ∈ runs, oHour run.clock < time) → ∃ last < time, InStep cellIds (store system) last

theorem synchronised_start (server : Str → Option Str) : Synchronised [] (start server) := by
  have nothing : ∀ hour type id, archived (start server).disk hour type id = none := fun _ _ _ => rfl
  refine ⟨fun hour type id _ text found => ?_, fun time _ => ⟨time - 1, by omega, ?_, ?_⟩⟩
  · rw [nothing] at found
    exact absurd found (by simp)
  · exact fun later _ type id _ => nothing later type id
  · intro type id _ text found
    exact absurd ((nothing (time - 1) type id).symm.trans found) (by simp)

theorem inStep_hourlyRun (numerals : NumberText) {runs : List BidRun} {system : System}
    (synchronised : Synchronised runs system) {run : BidRun} (latest : ∀ other ∈ runs, other.clock < run.clock) :
    InStep cellIds (store (hourlyRun numerals system run)) (oHour run.clock) := by
  have hours : ∀ other ∈ runs, oHour other.clock < oHour run.clock := by
    intro other member
    have := latest other member
    unfold oHour cHour
    omega
  obtain ⟨last, before, inStep⟩ := synchronised.inStep (oHour run.clock) hours
  exact inStep_published inStep before (published_hourlyRun numerals synchronised.tidy run)

theorem synchronised_runs (numerals : NumberText) (server : Str → Option Str) (runs : List BidRun)
    (increasing : runs.Pairwise fun a b => a.clock < b.clock) :
    Synchronised runs (runs.foldl (hourlyRun numerals) (start server)) := by
  induction runs using List.reverseRecOn with
  | nil => exact synchronised_start server
  | append_singleton runs run ih =>
    obtain ⟨earlier, -, latest⟩ := List.pairwise_append.mp increasing
    have synchronised := ih earlier
    rw [List.foldl_append, List.foldl_cons, List.foldl_nil]
    refine ⟨tidy_hourlyRun numerals synchronised.tidy run, fun time later => ⟨oHour run.clock, later run (by simp), ?_⟩⟩
    exact inStep_hourlyRun numerals synchronised fun other member => latest other member run (by simp)

/-- A bid that stands for a cell in the file of a type. -/
def Wrote (system : System) (hour : Int) (type : BidType) (id text : Str) : Prop :=
  ∃ line ∈ fileLines (system.disk.read hour (.bids type)), column line 0 = id ∧ column line 3 = text

theorem wrote_hourlyRun {numerals : NumberText} {system : System} {run : BidRun} {type : BidType} {id text : Str}
    (isId : id ∈ cellIds) :
    Wrote (hourlyRun numerals system run) (oHour run.clock) type id text ↔ writtenBid run type id = some text := by
  unfold Wrote
  rw [read_hourlyRun, if_pos rfl, bidLines_read]
  exact mem_bidLines isId

/-- After each of any runs at increasing hours, the server has for every cell of
    that run the bid that the run wrote for it, and it wrote one. -/
theorem server_synchronised (numerals : NumberText) (server : Str → Option Str) (runs : List BidRun) (run : BidRun)
    (increasing : (runs ++ [run]).Pairwise fun a b => a.clock < b.clock) (id : Str) (c : Cell)
    (listed : (getCellData run.net run.qhat).get? id = some c) :
    let system := (runs ++ [run]).foldl (hourlyRun numerals) (start server)
    (∃ type text, Wrote system (oHour run.clock) type id text) ∧
      ∀ type text, Wrote system (oHour run.clock) type id text → system.server id = some text := by
  intro system
  have isId : id ∈ cellIds := mem_cellIds listed
  obtain ⟨earlier, -, latest⟩ := List.pairwise_append.mp increasing
  have synchronised := synchronised_runs numerals server runs earlier
  have systemIs : system = hourlyRun numerals (runs.foldl (hourlyRun numerals) (start server)) run := by
    simp only [system, List.foldl_append, List.foldl_cons, List.foldl_nil]
  rw [systemIs]
  constructor
  · obtain ⟨type, text, written⟩ := writtenBid_exists listed
    exact ⟨type, text, (wrote_hourlyRun isId).mpr written⟩
  · intro type text wrote
    have inStep := inStep_hourlyRun numerals synchronised fun other member => latest other member run (by simp)
    refine inStep.agrees type id isId text ?_
    exact (archived_hourlyRun numerals _ run type isId).trans ((wrote_hourlyRun isId).mp wrote)

/-! ### Runs of a solution -/

/-- `BidCalc` records the minimum or a positive price, where no price is negative. -/
theorem bidCalc_isBid {r : Rounding} {pv : PriceVolume} {d : RunData} {hour : Nat} {solution : Solution}
    {optBids : SortedMap Str OptBid} (run : bidCalc r (withPrices d pv) hour solution = some optBids)
    (nonneg : ∀ row ∈ pv.test, 0 ≤ num row.price.bid) (name : Str) (bid : OptBid)
    (recorded : optBids.get? name = some bid) : IsBid bid.bid := by
  obtain ⟨lines, others⟩ := bidCalc_records run
  have isLine : name ∈ solution.lines.map Prod.fst := by
    by_contra absent
    rw [others name absent] at recorded
    exact absurd recorded (by simp)
  obtain ⟨⟨name, ap⟩, member, rfl⟩ := List.mem_map.mp isLine
  obtain ⟨bid', isBid, found⟩ := lines name ap member
  obtain rfl := Option.some.inj (found.symm.trans recorded)
  rcases (gridAlloc_nonneg r ap).eq_or_lt with zero | positive
  · rw [lineBid, if_pos zero.symm] at isBid
    obtain rfl := Option.some.inj isBid
    exact .inl rfl
  · obtain ⟨factor, -, bidIs⟩ := lineBid_positive positive isBid
    rw [bidPrice_withPrices] at bidIs
    by_cases below : gridAlloc r ap < 95
    · rw [if_pos below] at bidIs
      cases isRow : pv.test.find? (decodesTo name (gridAlloc r ap)) with
      | none =>
        rw [isRow] at bidIs
        exact .inl (by rw [bidIs]; rfl)
      | some row =>
        rw [isRow] at bidIs
        by_cases zero : num row.price.bid = 0
        · exact .inl (by rw [bidIs]; simp [zero, defaultBid])
        · have least := nonneg row (List.mem_of_find?_eq_some isRow)
          exact .inr ⟨num row.price.bid, lt_of_le_of_ne least (Ne.symm zero), by rw [bidIs]; simp [zero]⟩
    · rw [if_neg below] at bidIs
      exact .inl (by rw [bidIs]; rfl)

def ofSolution (clock : Int) (net : Network) (qhat : Cell → Option ℚ) (order : HashOrder) (r : Rounding) (d : RunData)
    (pv : PriceVolume) (hour : Nat) (solution : Solution) (optBids : SortedMap Str OptBid)
    (run : bidCalc r (withPrices d pv) hour solution = some optBids) (nonneg : ∀ row ∈ pv.test, 0 ≤ num row.price.bid)
    (plain : ∀ c ∈ cellRows net, ',' ∉ lpVarMain c ∧ '\n' ∉ lpVarMain c) : BidRun where
  clock := clock
  net := net
  qhat := qhat
  optBids := optBids
  order := order
  isBid := bidCalc_isBid run nonneg
  plain := plain

/-- The numeral of a number of thousandths, without the zeros at its end. -/
def thousandthsText (n : Nat) : Str :=
  let decimals := ([n / 100, n / 10, n].map fun digits => Nat.digitChar (digits % 10)).rdropWhile (· == '0')
  natText (n / 1000) ++ if decimals = [] then [] else '.' :: decimals

theorem not_mem_thousandthsText {c : Char} (other : c.isDigit = false) (noPoint : c ≠ '.') (n : Nat) :
    c ∉ thousandthsText n := by
  intro member
  rcases List.mem_append.mp member with whole | later
  · exact not_mem_natText other _ whole
  · split_ifs at later
    · exact absurd later List.not_mem_nil
    · rcases List.mem_cons.mp later with point | decimal
      · exact noPoint point
      · obtain ⟨digits, -, rfl⟩ := List.mem_map.mp ((List.rdropWhile_prefix _ _).subset decimal)
        rw [digitChar_isDigit (by omega)] at other
        exact Bool.noConfusion other

def threeDecimals : NumberText where
  text x := thousandthsText (round (1000 * x)).toNat
  plain _ := ⟨not_mem_thousandthsText (by decide) (by decide) _, not_mem_thousandthsText (by decide) (by decide) _⟩

/-- A run for the cell of `onSegment 5` at a clock hour, with the bids of a
    solution. -/
def runAt (clock : Int) (solution : Solution)
    (solved : (bidCalc halfUp (withPrices cappedRun (pricesIn .test)) 3 solution).isSome = true) : BidRun :=
  ofSolution clock (onSegment 5) (fun _ => none) (fun bids => ⟨bids.keys, List.Perm.refl _⟩) halfUp cappedRun
    (pricesIn .test) 3 solution _ (Option.some_get solved).symm (by decide) (by decide +kernel)

/-- The cell is allocated 0.1, then not at all, and after two skipped hours 0.1
    again. -/
def threeRuns : List BidRun × BidRun :=
  ([runAt 5 tenth (by decide +kernel), runAt 6 ⟨[], by simp⟩ (by decide +kernel)], runAt 9 tenth (by decide +kernel))

theorem server_synchronised_three_runs :
    ((threeRuns.1 ++ [threeRuns.2]).foldl (hourlyRun threeDecimals) (start fun _ => none)).server "7".toList =
      some "1.20".toList := by
  have increasing : (threeRuns.1 ++ [threeRuns.2]).Pairwise fun a b => a.clock < b.clock := by decide +kernel
  obtain ⟨-, synchronised⟩ := server_synchronised threeDecimals (fun _ => none) threeRuns.1 threeRuns.2 increasing
    "7".toList (cellOn 5) (by decide +kernel)
  refine synchronised .opt "1.20".toList ?_
  unfold Wrote
  decide +kernel

end Cdo.BidFiles
