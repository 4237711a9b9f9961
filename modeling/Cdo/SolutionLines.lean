import Cdo.SolutionFile
import Cdo.SignificantDigits

/-!
The lines of a solution as the solver prints them (the loop of `BidCalc` over
`lp_solution.txt`): a name, a blank, the value with six significant digits in
twelve columns. A value that prints as `0.` and digits is decoded to itself, and 0
to 0. A value that prints as `1` is decoded to 0.1, and one that prints with an
exponent is filed under the whole line (`solution_line_decoded_iff`).
-/
namespace Cdo.SolutionLines
open Cdo.Text Cdo.Tables Cdo.Objective Cdo.BidCalc Cdo.SolutionFile Cdo.SignificantDigits

/-! ### Lines of the solver -/

def padLeft (width : Nat) (text : Str) : Str := List.replicate (width - text.length) ' ' ++ text

def solverLine (g : Nearest) (name : Str) (v : ℚ) : Str := name ++ ' ' :: padLeft 12 (gText g v) ++ ['\n']

/-- Letters, digits and underscores. -/
def Plain (name : Str) : Prop := ∀ c ∈ name, c.isAlphanum = true ∨ c = '_'

/-- A file of some lines and one more. -/
def solutionText (before : List Str) (line : Str) : Str := printed before ++ line

/-! ### Points and blanks -/

theorem hasZeroPoint_cons {c : Char} {rest : Str} (has : hasZeroPoint rest = true) : hasZeroPoint (c :: rest) = true := by
  unfold hasZeroPoint
  split
  · rfl
  · rename_i same
    rw [← (List.cons.inj same).2]
    exact has
  · rename_i same
    cases same

theorem hasZeroPoint_append (before rest : Str) : hasZeroPoint (before ++ '0' :: '.' :: rest) = true := by
  induction before with
  | nil => rfl
  | cons c before ih => exact hasZeroPoint_cons ih

theorem hasZeroPoint_step {c : Char} {rest : Str} (noPoint : c ≠ '0' ∨ rest.head? ≠ some '.') :
    hasZeroPoint (c :: rest) = hasZeroPoint rest := by
  conv_lhs => unfold hasZeroPoint
  split
  · rename_i same
    obtain ⟨rfl, rfl⟩ := List.cons.inj same
    rcases noPoint with other | other
    · exact absurd rfl other
    · exact absurd rfl other
  · rename_i same
    rw [(List.cons.inj same).2]
  · rename_i same
    cases same

theorem hasZeroPoint_of_not_mem {text : Str} (noPoint : '.' ∉ text) : hasZeroPoint text = false := by
  induction text with
  | nil => rfl
  | cons c rest ih =>
    rw [List.mem_cons, not_or] at noPoint
    rw [hasZeroPoint_step, ih noPoint.2]
    refine .inr fun head => noPoint.2 ?_
    exact List.mem_of_head? head

theorem hasZeroPoint_after {before after : Str} (noPoint : '.' ∉ before) (head : after.head? ≠ some '.') :
    hasZeroPoint (before ++ after) = hasZeroPoint after := by
  induction before with
  | nil => rfl
  | cons c before ih =>
    rw [List.mem_cons, not_or] at noPoint
    rw [List.cons_append, hasZeroPoint_step, ih noPoint.2]
    cases before with
    | nil => exact .inr head
    | cons c' before =>
      rw [List.mem_cons, not_or] at noPoint
      exact .inr (by simpa using Ne.symm noPoint.2.1)

theorem dashZeroPoint_step {c : Char} {rest : Str} (noPoint : c ≠ '0' ∨ rest.head? ≠ some '.') :
    dashZeroPoint (c :: rest) = c :: dashZeroPoint rest := by
  conv_lhs => unfold dashZeroPoint
  split
  · rename_i same
    obtain ⟨rfl, rfl⟩ := List.cons.inj same
    rcases noPoint with other | other
    · exact absurd rfl other
    · exact absurd rfl other
  · rename_i same
    rw [(List.cons.inj same).1, (List.cons.inj same).2]
  · rename_i same
    cases same

theorem dashZeroPoint_of_not_mem {text : Str} (noPoint : '.' ∉ text) : dashZeroPoint text = text := by
  induction text with
  | nil => rfl
  | cons c rest ih =>
    rw [List.mem_cons, not_or] at noPoint
    rw [dashZeroPoint_step, ih noPoint.2]
    exact .inr fun head => noPoint.2 (List.mem_of_head? head)

theorem dashZeroPoint_append {before : Str} (noPoint : '.' ∉ before) (rest : Str) :
    dashZeroPoint (before ++ '0' :: '.' :: rest) = before ++ '-' :: dashZeroPoint rest := by
  induction before with
  | nil => rfl
  | cons c before ih =>
    rw [List.mem_cons, not_or] at noPoint
    have next : (before ++ '0' :: '.' :: rest).head? ≠ some '.' := by
      cases before with
      | nil => simp
      | cons c' before =>
        rw [List.mem_cons, not_or] at noPoint
        simpa using Ne.symm noPoint.2.1
    rw [List.cons_append, dashZeroPoint_step (.inr next), ih noPoint.2]
    rfl

/-! ### Splitting at twelve blanks -/

theorem splitTwelve_word {word : Str} (solid : ∀ c ∈ word, isSpace c = false) (piece rest : Str) :
    splitTwelve piece [] (word ++ rest) = splitTwelve (piece ++ word) [] rest := by
  induction word generalizing piece with
  | nil => simp
  | cons c word ih =>
    have here := solid c List.mem_cons_self
    rw [List.cons_append, splitTwelve, here, if_neg Bool.false_ne_true,
      ih fun other member => solid other (List.mem_cons_of_mem _ member)]
    simp

theorem splitTwelve_blanks {k : Nat} {piece blanks rest : Str} (few : blanks.length + k ≤ 11) :
    splitTwelve piece blanks (List.replicate k ' ' ++ rest) = splitTwelve piece (blanks ++ List.replicate k ' ') rest := by
  induction k generalizing blanks with
  | zero => simp
  | succ k ih =>
    have blank : isSpace ' ' = true := by decide
    have short : blanks.length ≠ 11 := by omega
    rw [List.replicate_succ, List.cons_append, splitTwelve, if_pos blank, if_neg short, ih (by simp; omega)]
    simp

theorem splitTwelve_twelve (piece rest : Str) :
    splitTwelve piece [] (List.replicate 12 ' ' ++ rest) = piece :: splitTwelve [] [] rest := by
  have blank : isSpace ' ' = true := by decide
  have eleven : List.replicate 12 ' ' ++ rest = List.replicate 11 ' ' ++ ' ' :: rest := rfl
  rw [eleven, splitTwelve_blanks (by simp), splitTwelve, if_pos blank, if_pos (by simp)]

/-- Up to eleven blanks stay in their piece. -/
theorem splitTwelve_few {k : Nat} (few : k ≤ 11) {c : Char} (solid : isSpace c = false) (piece rest : Str) :
    splitTwelve piece [] (List.replicate k ' ' ++ c :: rest) =
      splitTwelve (piece ++ List.replicate k ' ' ++ [c]) [] rest := by
  rw [splitTwelve_blanks (by simpa using few), splitTwelve, solid, if_neg Bool.false_ne_true, List.nil_append]

theorem splitTwelve_newline (piece : Str) : splitTwelve piece [] ['\n'] = [piece ++ ['\n']] := by
  have blank : isSpace '\n' = true := by decide
  rw [splitTwelve, if_pos blank, if_neg (by simp), splitTwelve]
  rfl

/-! ### Decoded lines -/

/-- A letter, digit or underscore is no blank, point, minus sign or newline. -/
theorem solid_of_plain {c : Char} (plain : c.isAlphanum = true ∨ c = '_') :
    isSpace c = false ∧ c ≠ '.' ∧ c ≠ '-' ∧ c ≠ '\n' := by
  have other : ∀ d : Char, (d.isAlphanum || d == '_') = false → c ≠ d := by
    rintro d neither rfl
    rcases plain with isPlain | rfl
    · simp [isPlain] at neither
    · simp at neither
  refine ⟨?_, other '.' (by decide), other '-' (by decide), other '\n' (by decide)⟩
  simp [isSpace, Char.isWhitespace, other ' ' (by decide), other '\t' (by decide), other '\r' (by decide),
    other '\n' (by decide), other (Char.ofNat 12) (by decide)]

theorem not_space_of_digit {c : Char} (digit : c.isDigit = true) : isSpace c = false :=
  (solid_of_plain (.inl (by simp [Char.isAlphanum, digit]))).1

/-- No character after the point of a value with an exponent is a blank, a point or
    a newline. -/
theorem solid_of_exponent {c : Char} (isNumeric : c.isDigit = true ∨ c = 'e' ∨ c = '-' ∨ c = '+') :
    isSpace c = false ∧ c ≠ '.' ∧ c ≠ '\n' := by
  rcases isNumeric with digit | rfl | rfl | rfl
  · obtain ⟨noSpace, noPoint, -, noNewline⟩ := solid_of_plain (.inl (by simp [Char.isAlphanum, digit] : c.isAlphanum = true))
    exact ⟨noSpace, noPoint, noNewline⟩
  · decide
  · decide
  · decide

section
variable {name : Str}

theorem Plain.solid (plain : Plain name) {c : Char} (member : c ∈ name) :
    isSpace c = false ∧ c ≠ '.' ∧ c ≠ '-' ∧ c ≠ '\n' := solid_of_plain (plain c member)

theorem Plain.point_not_mem (plain : Plain name) (k : Nat) : '.' ∉ name ++ List.replicate k ' ' := by
  intro member
  rcases List.mem_append.mp member with inName | blank
  · exact (plain.solid inName).2.1 rfl
  · exact absurd (List.eq_of_mem_replicate blank) (by decide)

theorem blanks_solid {k : Nat} {text : Str} : (List.replicate k ' ' ++ text).filter (fun c => !isSpace c) =
    text.filter (fun c => !isSpace c) := by
  rw [List.filter_append, List.filter_replicate]
  simp [isSpace]

/-- A line with a value that prints as `0.` and digits. -/
theorem sol_fraction (plain : Plain name) {digits : Str} (areDigits : ∀ c ∈ digits, c.isDigit = true) (k : Nat) :
    sol (name ++ List.replicate k ' ' ++ '0' :: '.' :: digits ++ ['\n']) = [name, digits] := by
  have noPointAfter : '.' ∉ digits ++ ['\n'] := by
    intro member
    rcases List.mem_append.mp member with digit | newline
    · exact absurd (areDigits _ digit) (by decide)
    · exact absurd (List.mem_singleton.mp newline) (by decide)
  have line : name ++ List.replicate k ' ' ++ '0' :: '.' :: digits ++ ['\n'] =
      (name ++ List.replicate k ' ') ++ '0' :: '.' :: (digits ++ ['\n']) := by simp
  have solidName : name.filter (fun c => !isSpace c) = name :=
    List.filter_eq_self.mpr fun c member => by rw [(plain.solid member).1]; rfl
  have solidDigits : digits.filter (fun c => !isSpace c) = digits :=
    List.filter_eq_self.mpr fun c member => by rw [not_space_of_digit (areDigits c member)]; rfl
  have pieces : ((name ++ List.replicate k ' ') ++ '-' :: (digits ++ ['\n'])).filter (fun c => !isSpace c) =
      joined '-' [name, digits] := by
    have dash : (!isSpace '-') = true := by decide
    have newline : (!isSpace '\n') = false := by decide
    rw [List.append_assoc, List.filter_append, blanks_solid, List.filter_cons, if_pos dash, List.filter_append, solidName,
      solidDigits, List.filter_singleton, newline]
    simp [joined, List.intercalate]
  rw [line, sol, if_pos (hasZeroPoint_append _ _), dashZeroPoint_append (plain.point_not_mem k),
    dashZeroPoint_of_not_mem noPointAfter,
    pieces]
  refine splitOn_joined (by simp) ?_
  intro field member
  rcases List.mem_cons.mp member with rfl | member
  · exact fun dash => (plain.solid dash).2.2.1 rfl
  · rw [List.mem_singleton.mp member]
    exact fun dash => absurd (areDigits _ dash) (by decide)

theorem fraction_digits {digits : Str} (areDigits : ∀ c ∈ digits, c.isDigit = true) :
    fraction digits = (Nat.ofDigitChars 10 digits 0 : ℚ) / 10 ^ digits.length := by
  have all : digits.takeWhile Char.isDigit = digits := List.takeWhile_eq_self_iff.mpr areDigits
  have none : digits.dropWhile Char.isDigit = [] := List.dropWhile_eq_nil_iff.mpr areDigits
  simp only [fraction, all, none, exponent, mul_one]

/-- A line with a value of one digit, which stands after twelve blanks. -/
theorem sol_digit (plain : Plain name) {c : Char} (digit : c.isDigit = true) :
    sol (name ++ List.replicate 12 ' ' ++ [c] ++ ['\n']) = [name, [c, '\n']] := by
  have noPoint : '.' ∉ name ++ List.replicate 12 ' ' ++ [c] ++ ['\n'] := by
    rw [List.mem_append, List.mem_append, List.mem_singleton, List.mem_singleton, not_or, not_or]
    refine ⟨⟨plain.point_not_mem 12, ?_⟩, by decide⟩
    rintro rfl
    exact absurd digit (by decide)
  have line : name ++ List.replicate 12 ' ' ++ [c] ++ ['\n'] = name ++ (List.replicate 12 ' ' ++ ([c] ++ ['\n'])) := by simp
  rw [sol, hasZeroPoint_of_not_mem noPoint, if_neg Bool.false_ne_true, line,
    splitTwelve_word (fun c member => (plain.solid member).1), splitTwelve_twelve,
    splitTwelve_word (by simpa using not_space_of_digit digit), splitTwelve_newline]
  rfl

/-- A value that prints with an exponent has `0.` nowhere in its line. -/
theorem hasZeroPoint_exponent (plain : Plain name) {k : Nat} {c : Char} {rest : Str} (digit : c.isDigit = true)
    (nonzero : c ≠ '0') (noPointRest : '.' ∉ rest) {text : Str} (isText : text = c :: rest ∨ text = c :: '.' :: rest) :
    hasZeroPoint (name ++ List.replicate k ' ' ++ text ++ ['\n']) = false := by
  have noPointName := plain.point_not_mem k
  have noPoint : c ≠ '.' := by
    rintro rfl
    exact absurd digit (by decide)
  have noPointEnd : '.' ∉ rest ++ ['\n'] := by
    rw [List.mem_append, not_or]
    exact ⟨noPointRest, by decide⟩
  rcases isText with rfl | rfl
  · refine hasZeroPoint_of_not_mem ?_
    simp only [List.mem_append, List.mem_cons, not_or] at noPointName noPointEnd ⊢
    exact ⟨⟨noPointName, Ne.symm noPoint, noPointEnd.1⟩, noPointEnd.2⟩
  · have line : name ++ List.replicate k ' ' ++ c :: '.' :: rest ++ ['\n'] =
        (name ++ List.replicate k ' ') ++ (c :: '.' :: (rest ++ ['\n'])) := by simp
    rw [line, hasZeroPoint_after noPointName (by simpa using noPoint), hasZeroPoint_step (.inl nonzero),
      hasZeroPoint_step (.inl (by decide)), hasZeroPoint_of_not_mem noPointEnd]

/-- A line with a value that prints with an exponent is not split. -/
theorem sol_exponent (plain : Plain name) {k : Nat} (few : k ≤ 11) {c : Char} {rest : Str} (digit : c.isDigit = true)
    (nonzero : c ≠ '0') (others : ∀ ch ∈ rest, ch.isDigit = true ∨ ch = 'e' ∨ ch = '-' ∨ ch = '+') {text : Str}
    (isText : text = c :: rest ∨ text = c :: '.' :: rest) :
    sol (name ++ List.replicate k ' ' ++ text ++ ['\n']) = [name ++ List.replicate k ' ' ++ text ++ ['\n']] := by
  have noPointRest : '.' ∉ rest := fun member => (solid_of_exponent (others _ member)).2.1 rfl
  have solidRest : ∀ ch ∈ rest, isSpace ch = false := fun ch member => (solid_of_exponent (others ch member)).1
  have noZeroPoint := hasZeroPoint_exponent plain (k := k) digit nonzero noPointRest isText
  obtain ⟨word, isWord, solidWord⟩ : ∃ word, text = c :: word ∧ ∀ ch ∈ word, isSpace ch = false := by
    rcases isText with rfl | rfl
    · exact ⟨rest, rfl, solidRest⟩
    · refine ⟨'.' :: rest, rfl, ?_⟩
      intro ch member
      rcases List.mem_cons.mp member with rfl | later
      · decide
      · exact solidRest ch later
  subst isWord
  have line : name ++ List.replicate k ' ' ++ c :: word ++ ['\n'] =
      name ++ (List.replicate k ' ' ++ c :: (word ++ ['\n'])) := by simp
  rw [sol, noZeroPoint, if_neg Bool.false_ne_true, line, splitTwelve_word (fun c member => (plain.solid member).1),
    splitTwelve_few few (not_space_of_digit digit), splitTwelve_word solidWord, splitTwelve_newline]
  simp

end

/-! ### Files -/

theorem linesRead_line {body : Str} (noNewline : '\n' ∉ body) (line rest : Str) :
    linesRead line (body ++ '\n' :: rest) = (line ++ body ++ ['\n']) :: linesRead [] rest := by
  induction body generalizing line with
  | nil => simp [linesRead]
  | cons c body ih =>
    rw [List.mem_cons, not_or] at noNewline
    rw [List.cons_append, linesRead, if_neg (Ne.symm noNewline.1), ih noNewline.2]
    simp

theorem linesRead_printed {lines : List Str} (noNewline : ∀ line ∈ lines, '\n' ∉ line) (rest : Str) :
    linesRead [] (printed lines ++ rest) = lines.map (· ++ ['\n']) ++ linesRead [] rest := by
  induction lines with
  | nil => rfl
  | cons line lines ih =>
    have text : printed (line :: lines) ++ rest = line ++ '\n' :: (printed lines ++ rest) := by simp [printed]
    rw [text, linesRead_line (noNewline line List.mem_cons_self),
      ih fun other member => noNewline other (List.mem_cons_of_mem _ member)]
    rfl

theorem linesRead_lines {lines : List Str} (noNewline : ∀ line ∈ lines, '\n' ∉ line) :
    linesRead [] (printed lines) = lines.map (· ++ ['\n']) := by
  have whole := linesRead_printed noNewline []
  rw [List.append_nil] at whole
  simpa [linesRead] using whole

/-- A line past the header is decoded after the lines before it. -/
theorem solutionLines_line {before : List Str} {body : Str} (header : 5 ≤ before.length)
    (noNewline : ∀ line ∈ before, '\n' ∉ line) (bodyNoNewline : '\n' ∉ body) :
    solutionLines (solutionText before (body ++ ['\n'])) =
      solutionLines (printed before) ++ [solutionLine (body ++ ['\n'])] := by
  have last : linesRead [] (body ++ ['\n']) = [body ++ ['\n']] := linesRead_line bodyNoNewline [] []
  rw [solutionLines, solutionText, linesRead_printed noNewline, last, solutionLines, linesRead_lines noNewline,
    List.drop_append_of_le_length (by simpa using header), List.map_append]
  rfl

/-! ### Rounded allocations -/

theorem gridAlloc_spec (r : Rounding) {p : ℚ} (nonneg : 0 ≤ p) :
    ∃ q : Int, gridAlloc r p = 5 * q ∧ 5 * q - 2 ≤ r.round p ∧ r.round p ≤ 5 * q + 2 := by
  exact ⟨(r.round p + 2) / 5, gridAlloc_eq nonneg, by omega, by omega⟩

/-- Where a printed value is halfway between two allocations, its two decimals are
    those on the side of the value itself. -/
def TieKept (r : Rounding) (p v : ℚ) : Prop :=
  ∀ k : Int, p = (2 * k + 1) / 40 → (p < v → r.round p = 5 * k + 3) ∧ (v < p → r.round p = 5 * k + 2)

/-- The two decimals of a tie are one of two neighbours. -/
theorem round_tie (r : Rounding) {p : ℚ} {k : Int} (isTie : p = (2 * k + 1) / 40) :
    5 * k + 2 ≤ r.round p ∧ r.round p ≤ 5 * k + 3 := by
  have near := abs_le.mp (r.near p)
  constructor
  · have cast : (5 * k + 1 : ℚ) < r.round p := by linarith [near.2]
    have integer : 5 * k + 1 < r.round p := by exact_mod_cast cast
    omega
  · have cast : (r.round p : ℚ) < 5 * k + 4 := by linarith [near.1]
    have integer : r.round p < 5 * k + 4 := by exact_mod_cast cast
    omega

/-- If printing keeps the order of a value and the points halfway between two
    allocations, the allocation is nearest to the value exactly if ties are kept. -/
theorem gridAlloc_near_iff (r : Rounding) {p v : ℚ} (nonneg : 0 ≤ p)
    (below : ∀ k : Int, v ≤ (2 * k + 1) / 40 → p ≤ (2 * k + 1) / 40)
    (above : ∀ k : Int, (2 * k + 1) / 40 ≤ v → (2 * k + 1) / 40 ≤ p) :
    |100 * v - gridAlloc r p| ≤ 5 / 2 ↔ TieKept r p v := by
  obtain ⟨q, isGrid, least, most⟩ := gridAlloc_spec r nonneg
  have near := abs_le.mp (r.near p)
  have leastCast : (5 * q - 2 : ℚ) ≤ r.round p := by exact_mod_cast least
  have mostCast : (r.round p : ℚ) ≤ 5 * q + 2 := by exact_mod_cast most
  rw [isGrid, abs_le]
  push_cast
  constructor
  · rintro ⟨low, high⟩ k isTie
    obtain ⟨lower, upper⟩ := round_tie r isTie
    constructor
    · intro less
      by_contra other
      have same : q = k := by omega
      rw [same] at high
      linarith
    · intro greater
      by_contra other
      have same : q = k + 1 := by omega
      rw [same] at low
      push_cast at low
      linarith
  · intro kept
    constructor
    · by_contra low
      have under : v < (2 * ((q - 1 : Int) : ℚ) + 1) / 40 := by
        push_cast
        linarith
      have isTie : p = (2 * ((q - 1 : Int) : ℚ) + 1) / 40 := by
        refine le_antisymm (below (q - 1) under.le) ?_
        push_cast
        linarith [near.1]
      have decimals := (kept (q - 1) isTie).2 (isTie ▸ under)
      omega
    · by_contra high
      have beyond : (2 * (q : ℚ) + 1) / 40 < v := by linarith
      have isTie : p = (2 * (q : ℚ) + 1) / 40 := by
        refine le_antisymm ?_ (above q beyond.le)
        linarith [near.2]
      have decimals := (kept q isTie).1 (isTie ▸ beyond)
      omega

/-! ### Recorded allocations -/

/-- Wherever the line stands past the header, it stores an entry under the name,
    with an allocation that is a multiple of 0.05 and none is nearer to the value. -/
def Decoded (r : Rounding) (d : RunData) (hour : Nat) (line name : Str) (v : ℚ) : Prop :=
  ∃ bid : OptBid, (5 ∣ bid.allocation ∧ |100 * v - bid.allocation| ≤ 5 / 2) ∧
    ∀ before earlier, 5 ≤ before.length → (∀ other ∈ before, '\n' ∉ other) →
      readSolution r d hour (solutionLines (printed before)) = some earlier →
      readSolution r d hour (solutionLines (solutionText before line)) = some (earlier.insert name bid)

section
variable {r : Rounding} {d : RunData} {hour : Nat} {name : Str}

theorem lineBid_isSome {ap : ℚ} (nonneg : 0 ≤ ap) :
    (lineBid r d hour name ap).isSome = true ↔ r.round ap ≤ 2 ∨ (bidFactor d hour name).isSome = true := by
  obtain ⟨q, isGrid, least, most⟩ := gridAlloc_spec r nonneg
  have gridNonneg := gridAlloc_nonneg r ap
  have zero : gridAlloc r ap = 0 ↔ r.round ap ≤ 2 := by omega
  simp only [lineBid, ← zero]
  by_cases none : gridAlloc r ap = 0
  · simp [none]
  · simp [none]

theorem readSolution_line {lines : List (Str × ℚ)} {stored : Str} {ap : ℚ} {earlier : SortedMap Str OptBid}
    (run : readSolution r d hour lines = some earlier) :
    readSolution r d hour (lines ++ [(stored, ap)]) =
      (lineBid r d hour stored ap).map fun bid => earlier.insert stored bid := by
  rw [readSolution, List.foldlM_append, ← readSolution, run]
  simp

/-- What a line records that is read as an allocation for a variable. -/
theorem decoded_iff {body stored : Str} {ap v : ℚ} (nonneg : 0 ≤ ap) (noNewline : '\n' ∉ body)
    (line : solutionLine (body ++ ['\n']) = (stored, ap)) :
    Decoded r d hour (body ++ ['\n']) name v ↔
      stored = name ∧ (r.round ap ≤ 2 ∨ (bidFactor d hour stored).isSome = true) ∧ |100 * v - gridAlloc r ap| ≤ 5 / 2 := by
  rw [← lineBid_isSome nonneg]
  constructor
  · rintro ⟨bid, ⟨-, near⟩, stores⟩
    -- a file that ends its header here has no entry yet
    have blank : ∀ other ∈ List.replicate 5 ([] : Str), '\n' ∉ other := by
      intro other member
      rw [List.eq_of_mem_replicate member]
      exact List.not_mem_nil
    have header : readSolution r d hour (solutionLines (printed (List.replicate 5 []))) = some SortedMap.empty := rfl
    have run := stores (List.replicate 5 []) SortedMap.empty (by simp) blank header
    rw [solutionLines_line (by simp) blank noNewline, line, readSolution_line header] at run
    obtain ⟨recorded, isRecorded, same⟩ := Option.map_eq_some_iff.mp run
    have found : (SortedMap.empty.insert stored recorded).get? name = some bid := by rw [same]; simp
    rw [SortedMap.get?_insert] at found
    split_ifs at found with isName
    · rw [← Option.some.inj found, lineBid_allocation isRecorded] at near
      exact ⟨isName.symm, by rw [isRecorded]; rfl, near⟩
    · simp at found
  · rintro ⟨rfl, some, near⟩
    obtain ⟨bid, isBid⟩ := Option.isSome_iff_exists.mp some
    have allocation := lineBid_allocation isBid
    obtain ⟨q, isGrid, -⟩ := gridAlloc_spec r nonneg
    refine ⟨bid, ⟨?_, ?_⟩, ?_⟩
    · rw [allocation, isGrid]
      exact dvd_mul_right 5 q
    · rw [allocation]
      exact near
    · intro before earlier header lines run
      rw [solutionLines_line header lines noNewline, line, readSolution_line run, isBid, Option.map_some]

end

/-- The value that is printed. -/
def printedValue (g : Nearest) (v : ℚ) : ℚ := if positive : 0 < v then (sixDigits g positive).value else 0

section
variable {g : Nearest} {v : ℚ} {name : Str}

/-- A line is the name, blanks, the printed value and a newline. -/
theorem solverLine_eq (g : Nearest) (name : Str) (v : ℚ) :
    solverLine g name v = name ++ List.replicate (1 + (12 - (gText g v).length)) ' ' ++ gText g v ++ ['\n'] := by
  rw [solverLine, padLeft, Nat.add_comm, List.replicate_succ]
  simp

theorem decoded_solverLine_iff {r : Rounding} {d : RunData} {hour : Nat} {stored : Str} {ap : ℚ} (plain : Plain name)
    (textNoNewline : '\n' ∉ gText g v) (nonneg : 0 ≤ ap) (line : solutionLine (solverLine g name v) = (stored, ap)) :
    Decoded r d hour (solverLine g name v) name v ↔
      stored = name ∧ (r.round ap ≤ 2 ∨ (bidFactor d hour stored).isSome = true) ∧ |100 * v - gridAlloc r ap| ≤ 5 / 2 := by
  rw [solverLine_eq] at line ⊢
  refine decoded_iff nonneg ?_ line
  simp only [List.mem_append, not_or]
  refine ⟨⟨fun member => (plain.solid member).2.2.2 rfl, ?_⟩, textNoNewline⟩
  exact fun blank => absurd (List.eq_of_mem_replicate blank) (by decide)

theorem solutionLine_fraction (plain : Plain name) (positive : 0 < v) (low : -4 ≤ (sixDigits g positive).exponent)
    (high : (sixDigits g positive).exponent < 0) :
    solutionLine (solverLine g name v) = (name, (sixDigits g positive).value) := by
  have text : gText g v = '0' :: '.' :: fractionDigits (sixDigits g positive) := by
    rw [gText, dif_pos positive, text_fraction _ low high]
  have areDigits : ∀ c ∈ fractionDigits (sixDigits g positive), c.isDigit = true := fun c member =>
    isDigit_fractionDigits _ member
  have pieces := sol_fraction plain areDigits (1 + (12 - (gText g v).length))
  rw [solverLine_eq, solutionLine]
  conv_lhs => rw [text]
  rw [text] at pieces
  rw [pieces]
  show (name, fraction (fractionDigits (sixDigits g positive))) = _
  rw [fraction_digits areDigits, fraction_value _ high]

theorem solutionLine_digit (plain : Plain name) {c : Char} (digit : c.isDigit = true) (text : gText g v = [c]) :
    solutionLine (solverLine g name v) = (name, fraction [c, '\n']) := by
  have pieces := sol_digit plain digit
  rw [solverLine_eq, text, solutionLine]
  show ((sol (name ++ List.replicate 12 ' ' ++ [c] ++ ['\n'])).getD 0 [],
    fraction ((sol (name ++ List.replicate 12 ' ' ++ [c] ++ ['\n'])).getD 1 [])) = _
  rw [pieces]
  rfl

theorem solutionLine_exponent (plain : Plain name) (positive : 0 < v) (small : (sixDigits g positive).exponent < -4) :
    solutionLine (solverLine g name v) = (solverLine g name v, 0) ∧ '\n' ∉ gText g v := by
  obtain ⟨c, rest, digit, nonzero, some, isText, others⟩ := text_exponent (sixDigits g positive) small
  have text : gText g v = (sixDigits g positive).text := by rw [gText, dif_pos positive]
  have restLength : 0 < rest.length := List.length_pos_iff.mpr some
  have few : 1 + (12 - (gText g v).length) ≤ 11 := by
    rw [text]
    rcases isText with same | same
    · rw [same, List.length_cons]
      omega
    · rw [same, List.length_cons, List.length_cons]
      omega
  rw [← text] at isText
  have pieces := sol_exponent plain few digit nonzero others isText
  have noNewline : '\n' ∉ c :: rest := by
    intro member
    rcases List.mem_cons.mp member with rfl | later
    · exact absurd digit (by decide)
    · exact (solid_of_exponent (others _ later)).2.2 rfl
  constructor
  · have nothing : fraction [] = 0 := by simp [fraction]
    rw [solverLine_eq, solutionLine, pieces]
    exact Prod.ext rfl nothing
  · rw [List.mem_cons, not_or] at noNewline
    rcases isText with same | same
    · simpa [same] using noNewline
    · simpa [same] using noNewline

end

/-! ### All values -/

/-- The value is 0; or it prints as `0.` and digits, ties are kept, and its bid can
    be computed, for which nothing is needed if its two decimals are at most 0.02. -/
def Decodable (g : Nearest) (r : Rounding) (d : RunData) (hour : Nat) (name : Str) (v : ℚ) : Prop :=
  v = 0 ∨
    (1 / 10000 ≤ printedValue g v ∧ printedValue g v < 1) ∧ TieKept r (printedValue g v) v ∧
      (r.round (printedValue g v) ≤ 2 ∨ (bidFactor d hour name).isSome = true)

section
variable {g : Nearest} {r : Rounding} {d : RunData} {hour : Nat} {name : Str} {v : ℚ}

theorem decoded_zero (plain : Plain name) : Decoded r d hour (solverLine g name 0) name 0 := by
  have text : gText g 0 = ['0'] := by rw [gText, dif_neg (lt_irrefl 0)]
  have nothing : fraction ['0', '\n'] = 0 := by decide +kernel
  have line : solutionLine (solverLine g name 0) = (name, 0) := by
    rw [solutionLine_digit plain (by decide : '0'.isDigit = true) text, nothing]
  refine (decoded_solverLine_iff plain (by rw [text]; decide) le_rfl line).mpr ⟨rfl, .inl ?_, ?_⟩
  · rw [round_zero]
    norm_num
  · rw [gridAlloc, round_zero]
    norm_num [nearest, isGreater]

theorem decoded_fraction_iff (plain : Plain name) (positive : 0 < v) (most : v ≤ 1)
    (low : -4 ≤ (sixDigits g positive).exponent) (high : (sixDigits g positive).exponent < 0) :
    Decoded r d hour (solverLine g name v) name v ↔
      TieKept r (sixDigits g positive).value v ∧
        (r.round (sixDigits g positive).value ≤ 2 ∨ (bidFactor d hour name).isSome = true) := by
  have nonneg : 0 ≤ (sixDigits g positive).value := by
    have power : (0 : ℚ) < 10 ^ (sixDigits g positive).exponent := by positivity
    exact power.le.trans (sixDigits g positive).value_bounds.1
  have newline : '\n' ∉ gText g v := by
    rw [gText, dif_pos positive, text_fraction _ low high]
    intro member
    rcases List.mem_cons.mp member with same | member
    · exact absurd same (by decide)
    · rcases List.mem_cons.mp member with same | later
      · exact absurd same (by decide)
      · exact absurd (isDigit_fractionDigits _ later) (by decide)
  have thousandths : ∀ k : Int, ((2 * k + 1) / 40 : ℚ) * 1000 = ((25 * (2 * k + 1) : Int) : ℚ) := fun k => by
    push_cast
    ring
  have near := @gridAlloc_near_iff r (sixDigits g positive).value v nonneg
    (fun k below => by
      obtain ⟨i, onGrid⟩ := thousandths_onGrid positive most (thousandths k)
      exact value_le_of_le g positive onGrid below)
    (fun k above => by
      obtain ⟨i, onGrid⟩ := thousandths_onGrid positive most (thousandths k)
      exact le_value_of_le g positive onGrid above)
  rw [decoded_solverLine_iff plain newline nonneg (solutionLine_fraction plain positive low high), near]
  constructor
  · rintro ⟨-, computed, kept⟩
    exact ⟨kept, computed⟩
  · rintro ⟨kept, computed⟩
    exact ⟨rfl, computed, kept⟩

/-- A value that prints as `1` is recorded at 0.10. -/
theorem not_decoded_one (plain : Plain name) (positive : 0 < v) (most : v ≤ 1)
    (high : 0 ≤ (sixDigits g positive).exponent) : ¬ Decoded r d hour (solverLine g name v) name v := by
  obtain ⟨i, onGrid⟩ := @thousandths_onGrid v positive most 1 1000 (by norm_num)
  have valueMost : (sixDigits g positive).value ≤ 1 := value_le_of_le g positive onGrid most
  have valueLeast : 1 ≤ (sixDigits g positive).value := by
    simpa using ((sixDigits g positive).le_value_iff 0).mpr high
  have exponent : (sixDigits g positive).exponent = 0 := by
    refine le_antisymm ?_ high
    by_contra above
    have ten := ((sixDigits g positive).le_value_iff 1).mpr (by omega)
    rw [zpow_one] at ten
    linarith
  have text : gText g v = ['1'] := by rw [gText, dif_pos positive, text_one _ exponent valueMost]
  have tenth : fraction ['1', '\n'] = 1 / 10 := by decide +kernel
  have line : solutionLine (solverLine g name v) = (name, 1 / 10) := by
    rw [solutionLine_digit plain (by decide : '1'.isDigit = true) text, tenth]
  -- a value that is rounded to 1 is above one half
  have large : 1 / 2 < v := by
    by_contra below
    obtain ⟨j, halfOnGrid⟩ := @thousandths_onGrid v positive most (1 / 2) 500 (by norm_num)
    have half := value_le_of_le g positive halfOnGrid (not_lt.mp below)
    linarith
  rw [decoded_solverLine_iff plain (by rw [text]; decide) (by norm_num) line]
  rintro ⟨-, -, near⟩
  obtain ⟨q, isGrid, least, -⟩ := gridAlloc_spec r (by norm_num : (0 : ℚ) ≤ 1 / 10)
  have rounded : r.round (1 / 10) ≤ 10 := by
    have bounds := abs_le.mp (r.near (1 / 10))
    have less : (r.round (1 / 10) : ℚ) < 11 := by linarith [bounds.1]
    have integer : r.round (1 / 10) < 11 := by exact_mod_cast less
    omega
  have small : gridAlloc r (1 / 10) ≤ 10 := by omega
  have cast : (gridAlloc r (1 / 10) : ℚ) ≤ 10 := by exact_mod_cast small
  linarith [(abs_le.mp near).2]

/-- A value that prints with an exponent is stored under another name. -/
theorem not_decoded_exponent (plain : Plain name) (positive : 0 < v) (small : (sixDigits g positive).exponent < -4) :
    ¬ Decoded r d hour (solverLine g name v) name v := by
  obtain ⟨line, newline⟩ := solutionLine_exponent plain positive small
  rw [decoded_solverLine_iff plain newline le_rfl line]
  rintro ⟨same, -⟩
  have length := congrArg List.length same
  rw [solverLine] at length
  simp only [List.length_append, List.length_cons] at length
  omega

end

/-- The line of a variable is decoded to an entry under its name, at the allocation
    nearest to its value, exactly if the value is 0 or prints as `0.` and digits,
    a printed tie is resolved to the side of the value, and the bid for it can be
    computed. -/
theorem solution_line_decoded_iff (g : Nearest) (r : Rounding) (d : RunData) (hour : Nat) (name : Str) (v : ℚ)
    (plain : Plain name) (nonneg : 0 ≤ v) (most : v ≤ 1) :
    Decoded r d hour (solverLine g name v) name v ↔ Decodable g r d hour name v := by
  rcases nonneg.eq_or_lt with rfl | positive
  · exact iff_of_true (decoded_zero plain) (.inl rfl)
  · have printed : printedValue g v = (sixDigits g positive).value := by rw [printedValue, dif_pos positive]
    have least : (1 / 10000 : ℚ) ≤ (sixDigits g positive).value ↔ -4 ≤ (sixDigits g positive).exponent := by
      rw [← Digits.le_value_iff]
      norm_num
    have less : (sixDigits g positive).value < 1 ↔ (sixDigits g positive).exponent < 0 := by
      have atLeast := (sixDigits g positive).le_value_iff 0
      rw [zpow_zero] at atLeast
      rw [← not_le, atLeast, not_le]
    rw [Decodable, or_iff_right positive.ne', printed, least, less]
    by_cases low : -4 ≤ (sixDigits g positive).exponent
    · by_cases high : (sixDigits g positive).exponent < 0
      · rw [decoded_fraction_iff plain positive most low high]
        exact ⟨fun decoded => ⟨⟨low, high⟩, decoded⟩, fun decodable => decodable.2⟩
      · refine iff_of_false (not_decoded_one plain positive most (not_lt.mp high)) ?_
        exact fun decodable => high decodable.1.2
    · refine iff_of_false (not_decoded_exponent plain positive (not_le.mp low)) ?_
      exact fun decodable => low decodable.1.1

def nearestInt : Nearest := ⟨fun x => round x, abs_sub_round⟩

def variable300 : Str := "autos_11_20_5_300x250".toList

theorem plain_variable300 : Plain variable300 := by
  have all : variable300.all (fun c => c.isAlphanum || c == '_') = true := by decide +kernel
  intro c member
  simpa using List.all_eq_true.mp all c member

theorem three_tenths_decoded :
    Decoded halfUp cappedRun 3 (solverLine nearestInt variable300 (3 / 10)) variable300 (3 / 10) := by
  have value : printedValue nearestInt (3 / 10) = 3 / 10 := by decide +kernel
  refine (solution_line_decoded_iff nearestInt halfUp cappedRun 3 variable300 (3 / 10) plain_variable300 (by norm_num)
    (by norm_num)).mpr (.inr ?_)
  rw [value]
  refine ⟨by norm_num, fun k _ => ⟨fun less => absurd less (lt_irrefl _), fun less => absurd less (lt_irrefl _)⟩, .inr ?_⟩
  decide +kernel

/-- A full allocation is recorded at 0.10, and a small one under the whole line. -/
theorem full_allocation_lost :
    (solutionLine (solverLine nearestInt variable300 1) = (variable300, 1 / 10) ∧
      ¬ Decoded halfUp cappedRun 3 (solverLine nearestInt variable300 1) variable300 1) ∧
    (solutionLine (solverLine nearestInt variable300 (1 / 100000)) =
        ("autos_11_20_5_300x250        1e-05\n".toList, 0) ∧
      ¬ Decoded halfUp cappedRun 3 (solverLine nearestInt variable300 (1 / 100000)) variable300 (1 / 100000)) := by
  have full : solutionLine (solverLine nearestInt variable300 1) = (variable300, 1 / 10) := by decide +kernel
  have small : solutionLine (solverLine nearestInt variable300 (1 / 100000)) =
      ("autos_11_20_5_300x250        1e-05\n".toList, 0) := by decide +kernel
  refine ⟨⟨full, ?_⟩, small, ?_⟩
  · rw [decoded_solverLine_iff plain_variable300 (by decide +kernel) (by norm_num) full]
    rintro ⟨-, -, near⟩
    have grid : gridAlloc halfUp (1 / 10) = 10 := by decide +kernel
    rw [grid] at near
    norm_num [abs_le] at near
  · rw [decoded_solverLine_iff plain_variable300 (by decide +kernel) le_rfl small]
    rintro ⟨same, -⟩
    exact absurd same (by decide)

end Cdo.SolutionLines
