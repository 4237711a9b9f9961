import Cdo.BidFiles

/-!
The solver's output and what a run makes of it (the loop of `BidCalc` over
`lp_solution.txt`, its end, and the last steps of `cdo.pl`). The lines after the
fifth are decoded to a variable and an allocation. The test for a missing
solution counts the lines that were read, and it comes after both files of bids
were opened and filled. A file without any value for a variable therefore always
replaces the files of bids, by the bids of no solution; an empty one stops the
run afterwards, a message of the solver does not even do that
(`bids_without_solution`).
-/
namespace Cdo.SolutionFile
open Cdo.Text Cdo.Query Cdo.Tables Cdo.Params Cdo.Objective Cdo.BidCalc Cdo.BidFiles

/-! ### Lines -/

/-- The lines of a file as they are read, with their newlines. -/
def linesRead (line : Str) : Str → List Str
  | [] => if line = [] then [] else [line]
  | c :: rest => if c = '\n' then (line ++ [c]) :: linesRead [] rest else linesRead (line ++ [c]) rest

def isSpace (c : Char) : Bool := c.isWhitespace || c == Char.ofNat 12

/-- `0.` is somewhere in the text. -/
def hasZeroPoint : Str → Bool
  | '0' :: '.' :: _ => true
  | _ :: rest => hasZeroPoint rest
  | [] => false

def dashZeroPoint : Str → Str
  | '0' :: '.' :: rest => '-' :: dashZeroPoint rest
  | c :: rest => c :: dashZeroPoint rest
  | [] => []

/-- The text split at every twelve blanks in a row. -/
def splitTwelve (piece blanks : Str) : Str → List Str
  | [] => [piece ++ blanks]
  | c :: rest =>
    if isSpace c then
      if blanks.length = 11 then piece :: splitTwelve [] [] rest else splitTwelve piece (blanks ++ [c]) rest
    else splitTwelve (piece ++ blanks ++ [c]) [] rest

def sol (line : Str) : List Str :=
  if hasZeroPoint line then ((dashZeroPoint line).filter fun c => !isSpace c).splitOn '-'
  else splitTwelve [] [] line

/-! ### Numbers -/

/-- The power of ten that an exponent stands for; anything else ends the number. -/
def exponent (text : Str) : ℚ :=
  let power (digits : Str) : ℚ := 10 ^ Nat.ofDigitChars 10 (digits.takeWhile Char.isDigit) 0
  match text with
  | 'e' :: '-' :: digits | 'E' :: '-' :: digits => 1 / power digits
  | 'e' :: '+' :: digits | 'E' :: '+' :: digits => power digits
  | 'e' :: digits | 'E' :: digits => power digits
  | _ => 1

/-- The number that `0.` followed by a text is read as. -/
def fraction (text : Str) : ℚ :=
  let digits := text.takeWhile Char.isDigit
  (Nat.ofDigitChars 10 digits 0 : ℚ) / 10 ^ digits.length * exponent (text.dropWhile Char.isDigit)

/-- The variable and the allocation of a line. -/
def solutionLine (line : Str) : Str × ℚ := ((sol line).getD 0 [], fraction ((sol line).getD 1 []))

def solutionLines (text : Str) : List (Str × ℚ) := ((linesRead [] text).drop 5).map solutionLine

/-! ### The run -/

/-- The loop over the lines; a division by zero stops the program. -/
def readSolution (r : Rounding) (d : RunData) (hour : Nat) (lines : List (Str × ℚ)) : Option (SortedMap Str OptBid) :=
  lines.foldlM (fun optBids line => (lineBid r d hour line.1 line.2).map fun bid => optBids.insert line.1 bid)
    SortedMap.empty

/-- On the lines of a solution the loop is that of `bidCalc`. -/
theorem readSolution_lines (r : Rounding) (d : RunData) (hour : Nat) (solution : Solution) :
    readSolution r d hour solution.lines = bidCalc r d hour solution := rfl

/-- What a run does after the solver: it opens the files of bids anew and fills
    them, mails, exits, and calls `processBids`. -/
inductive Event where
  | wrote (type : BidType)
  | notified
  | exited
  | processed
deriving DecidableEq

/-- The hour a run is for: its number in the day, its folder and the folder of
    the hour before. -/
structure RunHour where
  hour : Nat
  folder : Int
  lastFolder : Int

def bidOps (numerals : NumberText) (order : HashOrder) (r : Rounding) (d : RunData) (time : RunHour)
    (cell : SortedMap Str Cell) (text : Str) (disk : Disk) : Option (List Event × Disk) :=
  (readSolution r d time.hour (solutionLines text)).map fun optBids =>
    let written := writeBids numerals optBids cell time.folder disk
    if (linesRead [] text).length = 0 then ([.wrote .opt, .wrote .dflt, .notified, .exited], written)
    else ([.wrote .opt, .wrote .dflt, .processed], processBids order time.folder time.lastFolder written)

/-- Neither file of bids was written and `processBids` was not called. -/
def WithoutBids (events : List Event) : Prop := (∀ type, Event.wrote type ∉ events) ∧ Event.processed ∉ events

/-- Nothing after the header of a solution reads as an allocation: so of an
    empty file and of a message. -/
def NoValue (text : Str) : Prop := ∀ line ∈ solutionLines text, line.2 = 0

/-! ### Without a value -/

theorem round_zero (r : Rounding) : r.round 0 = 0 := by
  have near := r.near 0
  rw [mul_zero, zero_sub, abs_neg, ← Int.cast_abs] at near
  have small : ((|r.round 0| : Int) : ℚ) < 1 := by linarith
  have zero : |r.round 0| < 1 := by exact_mod_cast small
  exact Int.abs_lt_one_iff.mp zero

theorem lineBid_zero (r : Rounding) (d : RunData) (hour : Nat) (name : Str) :
    lineBid r d hour name 0 = some (defaultBid 0) := by
  have grid : gridAlloc r 0 = 0 := by
    rw [gridAlloc, round_zero]
    rfl
  simp only [lineBid, grid, if_true]

/-- Lines without a value are recorded at the minimum, whatever the data are. -/
theorem readSolution_noValue (r : Rounding) (d : RunData) (hour : Nat) {lines : List (Str × ℚ)}
    (noValue : ∀ line ∈ lines, line.2 = 0) : ∃ optBids, readSolution r d hour lines = some optBids := by
  have loop : ∀ (lines : List (Str × ℚ)) (before : SortedMap Str OptBid), (∀ line ∈ lines, line.2 = 0) →
      ∃ after, lines.foldlM (fun optBids line => (lineBid r d hour line.1 line.2).map fun bid =>
        optBids.insert line.1 bid) before = some after := by
    intro lines
    induction lines with
    | nil => exact fun before _ => ⟨before, rfl⟩
    | cons line rest ih =>
      intro before zero
      obtain ⟨after, isAfter⟩ := ih (before.insert line.1 (defaultBid 0)) fun other member =>
        zero other (List.mem_cons_of_mem _ member)
      refine ⟨after, ?_⟩
      rw [List.foldlM_cons, zero line List.mem_cons_self, lineBid_zero]
      exact isAfter
  exact loop lines SortedMap.empty noValue

theorem linesRead_eq_nil {line text : Str} : linesRead line text = [] ↔ line = [] ∧ text = [] := by
  induction text generalizing line with
  | nil => by_cases none : line = [] <;> simp [linesRead, none]
  | cons c rest ih =>
    by_cases newline : c = '\n'
    · simp [linesRead, newline]
    · simp [linesRead, newline, ih]

theorem writeBids_read (numerals : NumberText) (optBids : SortedMap Str OptBid) (cell : SortedMap Str Cell) (hour : Int)
    (disk : Disk) (type : BidType) :
    (writeBids numerals optBids cell hour disk).read hour (.bids type) =
      printed (bidLines numerals optBids cell type) := by
  cases type <;> simp [writeBids, Disk.read_write]

/-- Whatever a solution without values looks like, the run replaces the files of
    bids of its hour, by the minimum for every cell if nothing follows the
    header; it calls `processBids` unless the file is empty. -/
theorem bids_without_solution (numerals : NumberText) (order : HashOrder) (r : Rounding) (d : RunData) (time : RunHour)
    (cell : SortedMap Str Cell) (text : Str) (disk : Disk) (noValue : NoValue text) :
    ∃ optBids events after, bidOps numerals order r d time cell text disk = some (events, after) ∧
      ¬ WithoutBids events ∧ (∀ type, Event.wrote type ∈ events) ∧
      (Event.processed ∈ events ↔ text ≠ []) ∧
      (∀ type, after.read time.folder (.bids type) = printed (bidLines numerals optBids cell type)) ∧
      ((linesRead [] text).length ≤ 5 → optBids = SortedMap.empty) := by
  obtain ⟨optBids, solved⟩ := readSolution_noValue r d time.hour noValue
  have empty : (linesRead [] text).length = 0 ↔ text = [] := by
    rw [List.length_eq_zero_iff, linesRead_eq_nil]
    simp
  have short : (linesRead [] text).length ≤ 5 → optBids = SortedMap.empty := by
    intro few
    have none : solutionLines text = [] := by
      rw [solutionLines, List.drop_eq_nil_of_le few, List.map_nil]
    rw [none] at solved
    exact (Option.some.inj solved).symm
  by_cases isEmpty : text = []
  · refine ⟨optBids, [.wrote .opt, .wrote .dflt, .notified, .exited],
      writeBids numerals optBids cell time.folder disk, ?_, ?_, ?_, ?_, ?_, short⟩
    · rw [bidOps, solved, Option.map_some, if_pos (empty.mpr isEmpty)]
    · exact fun without => without.1 .opt (by simp)
    · intro type
      cases type <;> simp
    · simp [isEmpty]
    · exact writeBids_read numerals optBids cell time.folder disk
  · refine ⟨optBids, [.wrote .opt, .wrote .dflt, .processed],
      processBids order time.folder time.lastFolder (writeBids numerals optBids cell time.folder disk),
      ?_, ?_, ?_, ?_, ?_, short⟩
    · rw [bidOps, solved, Option.map_some, if_neg (fun none => isEmpty (empty.mp none))]
    · exact fun without => without.1 .opt (by simp)
    · intro type
      cases type <;> simp
    · simp [isEmpty]
    · intro type
      rw [processBids_bids, writeBids_read]

/-! ### A message of the solver -/

def infeasible : Str := "\nThis problem is infeasible\n".toList

def listed : HashOrder := SortedMap.Listing.sorted

theorem infeasible_noValue : NoValue infeasible := by
  unfold NoValue
  decide

theorem bids_after_infeasible :
    ∃ optBids events after,
      bidOps threeDecimals listed halfUp cappedRun ⟨3, 6, 5⟩ (getCellData (onSegment 5) fun _ => none) infeasible
        (fun _ _ => none) = some (events, after) ∧
      ¬ WithoutBids events ∧ Event.processed ∈ events ∧
      after.read 6 (.bids .dflt) =
        printed (bidLines threeDecimals optBids (getCellData (onSegment 5) fun _ => none) .dflt) := by
  obtain ⟨optBids, events, after, run, wrote, -, processed, filed, -⟩ := bids_without_solution threeDecimals listed halfUp
    cappedRun ⟨3, 6, 5⟩ (getCellData (onSegment 5) fun _ => none) infeasible (fun _ _ => none) infeasible_noValue
  exact ⟨optBids, events, after, run, wrote, processed.mpr (by decide), filed .dflt⟩

/-- After an infeasible program the default bid of the cell is written, and
    `processBids` is called. -/
theorem infeasible_still_bids :
    NoValue infeasible ∧
      (bidOps threeDecimals listed halfUp cappedRun ⟨3, 6, 5⟩ (getCellData (onSegment 5) fun _ => none) infeasible
        (fun _ _ => none)).map (fun ended => (ended.1, ended.2.read 6 (.bids .dflt))) =
        some ([.wrote .opt, .wrote .dflt, .processed], "Id,San,Cell,Bid\n7,auo,auo_11_20_5_300x250,0\n".toList) ∧
      ¬ WithoutBids [.wrote .opt, .wrote .dflt, .processed] := by
  refine ⟨infeasible_noValue, by decide +kernel, ?_⟩
  exact fun without => without.1 .opt (by simp)

end Cdo.SolutionFile
