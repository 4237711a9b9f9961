import Mathlib

/-!
Texts as lists of characters: the numerals that a number prints as (`natText`,
`intText`, `twoDecimals`) and records of fields joined by a separator
(`joined`). A numeral determines its number. A joined record determines its
fields when no field holds the separator (`joined_injective`), and, among
records of one length, already when no field after the first holds it
(`joined_tail_injective`): such a record is read from its right end. Lines
printed to a file are read back from it (`fileLines_printed`).
-/
namespace Cdo.Text

abbrev Str := List Char

/-! ### Numerals -/

/-- The decimal numeral of a natural number. -/
def natText (n : Nat) : Str := Nat.toDigits 10 n

/-- The decimal numeral of an integer, with a minus sign before a negative one. -/
def intText : Int → Str
  | .ofNat n => natText n
  | .negSucc n => '-' :: natText (n + 1)

def hundredthsText (n : Nat) : Str :=
  natText (n / 100) ++ '.' :: [Nat.digitChar (n / 10 % 10), Nat.digitChar (n % 10)]

/-- The numeral with two decimals of an integer number of hundredths. -/
def twoDecimals : Int → Str
  | .ofNat n => hundredthsText n
  | .negSucc n => '-' :: hundredthsText (n + 1)

theorem natText_ne_nil (n : Nat) : natText n ≠ [] := Nat.toDigits_ne_nil

theorem natText_isDigit {n : Nat} {c : Char} (member : c ∈ natText n) : c.isDigit = true :=
  Nat.isDigit_of_mem_toDigits (by decide) (by decide) member

theorem natText_injective {m n : Nat} (same : natText m = natText n) : m = n := by
  have read := congrArg (fun text => Nat.ofDigitChars 10 text 0) same
  simpa [natText] using read

theorem not_mem_natText {c : Char} (other : c.isDigit = false) (n : Nat) : c ∉ natText n := by
  intro member
  rw [natText_isDigit member] at other
  exact Bool.noConfusion other

theorem intText_ofNat (n : Nat) : intText (n : Int) = natText n := rfl

section
variable {text : Nat → Str} {signed : Int → Str} (nonneg : ∀ n : Nat, signed n = text n)
  (neg : ∀ n, signed (.negSucc n) = '-' :: text (n + 1))
include nonneg neg

/-- Numerals without a sign that determine their numbers do so with a sign before
    the negative ones. -/
theorem signed_injective (noSign : ∀ n, '-' ∉ text n) (injective : ∀ {m n}, text m = text n → m = n) {i j : Int}
    (same : signed i = signed j) : i = j := by
  have apart : ∀ m n : Nat, text m ≠ '-' :: text n := by
    intro m n equal
    have member : '-' ∈ text m := by rw [equal]; exact List.mem_cons_self
    exact noSign m member
  cases i with
  | ofNat m =>
    cases j with
    | ofNat n => exact congrArg Int.ofNat (injective ((nonneg m).symm.trans (same.trans (nonneg n))))
    | negSucc n => exact absurd ((nonneg m).symm.trans (same.trans (neg n))) (apart m (n + 1))
  | negSucc m =>
    cases j with
    | ofNat n => exact absurd ((nonneg n).symm.trans (same.symm.trans (neg m))) (apart n (m + 1))
    | negSucc n =>
      have digits := (neg m).symm.trans (same.trans (neg n))
      have equal := injective (List.cons.inj digits).2
      exact congrArg Int.negSucc (by omega)

theorem not_mem_signed {c : Char} (noSign : c ≠ '-') (absent : ∀ n, c ∉ text n) (i : Int) : c ∉ signed i := by
  cases i with
  | ofNat n => exact (nonneg n).symm ▸ absent n
  | negSucc n =>
    rw [neg, List.mem_cons, not_or]
    exact ⟨noSign, absent (n + 1)⟩

end

theorem intText_injective {i j : Int} (same : intText i = intText j) : i = j :=
  signed_injective (fun _ => rfl) (fun _ => rfl) (not_mem_natText (by decide)) natText_injective same

theorem not_mem_intText {c : Char} (other : c.isDigit = false) (noSign : c ≠ '-') (i : Int) : c ∉ intText i :=
  not_mem_signed (fun _ => rfl) (fun _ => rfl) noSign (not_mem_natText other) i

theorem digitChar_isDigit {d : Nat} (small : d < 10) : (Nat.digitChar d).isDigit = true := by
  interval_cases d <;> decide

theorem digitChar_injective {d e : Nat} (dSmall : d < 10) (eSmall : e < 10)
    (same : Nat.digitChar d = Nat.digitChar e) : d = e := by
  have read := congrArg (fun c => c.toNat - 48) same
  simpa [Nat.toNat_digitChar_sub_48_of_lt_ten dSmall, Nat.toNat_digitChar_sub_48_of_lt_ten eSmall] using read

theorem hundredthsText_injective {m n : Nat} (same : hundredthsText m = hundredthsText n) : m = n := by
  unfold hundredthsText at same
  have lengths : (natText (m / 100)).length = (natText (n / 100)).length := by
    simpa using congrArg List.length same
  obtain ⟨whole, decimals⟩ := List.append_inj same lengths
  have wholeSame := natText_injective whole
  simp only [List.cons.injEq, and_true, true_and] at decimals
  have tens := digitChar_injective (by omega) (by omega) decimals.1
  have ones := digitChar_injective (by omega) (by omega) decimals.2
  omega

theorem not_mem_hundredthsText {c : Char} (other : c.isDigit = false) (noPoint : c ≠ '.') (n : Nat) :
    c ∉ hundredthsText n := by
  have notDigit : ∀ d, d < 10 → c ≠ Nat.digitChar d := by
    intro d small same
    rw [same, digitChar_isDigit small] at other
    exact Bool.noConfusion other
  simp only [hundredthsText, List.mem_append, List.mem_cons, List.not_mem_nil, or_false, not_or]
  exact ⟨not_mem_natText other _, noPoint, notDigit _ (by omega), notDigit _ (by omega)⟩

theorem twoDecimals_injective {i j : Int} (same : twoDecimals i = twoDecimals j) : i = j :=
  signed_injective (fun _ => rfl) (fun _ => rfl) (not_mem_hundredthsText (by decide) (by decide))
    hundredthsText_injective same

theorem not_mem_twoDecimals {c : Char} (other : c.isDigit = false) (noPoint : c ≠ '.') (noSign : c ≠ '-') (i : Int) :
    c ∉ twoDecimals i :=
  not_mem_signed (fun _ => rfl) (fun _ => rfl) noSign (not_mem_hundredthsText other noPoint) i

@[simp] theorem underscore_intText (i : Int) : '_' ∉ intText i := not_mem_intText (by decide) (by decide) i
@[simp] theorem underscore_twoDecimals (i : Int) : '_' ∉ twoDecimals i :=
  not_mem_twoDecimals (by decide) (by decide) (by decide) i

/-! ### Texts read as numbers -/

/-- The digits at the start of a text, with one decimal point at most, are not
    all 0. -/
def someDigit (pointRead : Bool) : Str → Bool
  | [] => false
  | c :: rest =>
    if c.isDigit then c != '0' || someDigit pointRead rest
    else c == '.' && !pointRead && someDigit true rest

/-- A text that is read as a number, by the numeral at its start, is positive. -/
def isPositive (text : Str) : Bool :=
  match text.dropWhile Char.isWhitespace with
  | '+' :: numeral => someDigit false numeral
  | numeral => someDigit false numeral

theorem someDigit_digits_append {digits rest : Str} (pointRead : Bool) (areDigits : ∀ c ∈ digits, c.isDigit = true) :
    someDigit pointRead (digits ++ rest) = (digits.any (· != '0') || someDigit pointRead rest) := by
  induction digits with
  | nil => rfl
  | cons c digits ih =>
    rw [List.cons_append, someDigit, if_pos (areDigits c List.mem_cons_self),
      ih fun d member => areDigits d (List.mem_cons_of_mem _ member), List.any_cons, Bool.or_assoc]

theorem any_natText {n : Nat} (positive : 0 < n) : (natText n).any (· != '0') = true := by
  by_contra zeros
  have replicated : natText n = List.replicate (natText n).length '0' := by
    refine List.eq_replicate_of_mem fun c member => ?_
    by_contra other
    exact zeros (List.any_eq_true.mpr ⟨c, member, by simpa using other⟩)
  have read := congrArg (fun text => Nat.ofDigitChars 10 text 0) replicated
  simp [natText, Nat.ofDigitChars_replicate_zero] at read
  omega

theorem digitChar_bne_zero {d : Nat} (small : d < 10) (positive : 0 < d) : (Nat.digitChar d != '0') = true := by
  interval_cases d <;> decide

theorem isPositive_of_digit {c : Char} {rest : Str} (digit : c.isDigit = true) :
    isPositive (c :: rest) = someDigit false (c :: rest) := by
  have noSpace : c.isWhitespace = false := by
    by_contra space
    simp only [Char.isWhitespace, Bool.not_eq_false, Bool.or_eq_true, decide_eq_true_eq] at space
    rcases space with ((rfl | rfl) | rfl) | rfl <;> exact absurd digit (by decide)
  have noSign : c ≠ '+' := by
    rintro rfl
    exact absurd digit (by decide)
  unfold isPositive
  rw [List.dropWhile_cons_of_neg (by simp [noSpace])]
  split
  · rename_i numeral same
    exact absurd (List.cons.inj same).1 noSign
  · rfl

/-- The numeral of a positive number of hundredths is read as positive. -/
theorem isPositive_twoDecimals {i : Int} (positive : 0 < i) : isPositive (twoDecimals i) = true := by
  obtain ⟨n, rfl⟩ := Int.eq_ofNat_of_zero_le positive.le
  have digits : ∀ c ∈ natText (n / 100), c.isDigit = true := fun c => natText_isDigit
  have read : someDigit false (hundredthsText n) = true := by
    rw [hundredthsText, someDigit_digits_append _ digits]
    rcases Nat.eq_zero_or_pos (n / 100) with none | whole
    · have tens := digitChar_isDigit (show n / 10 % 10 < 10 by omega)
      have ones := digitChar_isDigit (show n % 10 < 10 by omega)
      have decimals : 0 < n / 10 % 10 ∨ 0 < n % 10 := by omega
      have point : '.'.isDigit = false := by decide
      simp only [someDigit, point, tens, ones]
      rcases decimals with some | some
      · simp [digitChar_bne_zero (by omega) some]
      · simp [digitChar_bne_zero (by omega) some]
    · rw [any_natText whole, Bool.true_or]
  show isPositive (hundredthsText n) = true
  cases text : hundredthsText n with
  | nil => simp [hundredthsText] at text
  | cons c rest =>
    have first : c ∈ natText (n / 100) := by
      cases whole : natText (n / 100) with
      | nil => exact absurd whole (natText_ne_nil _)
      | cons d digits =>
        rw [hundredthsText, whole, List.cons_append, List.cons.injEq] at text
        simp [text.1]
    rw [isPositive_of_digit (digits c first), ← text]
    exact read

/-- The number that digits, a point and more digits are read as. -/
def decimalValue (text : Str) : ℚ :=
  let decimals := match text.dropWhile Char.isDigit with
    | '.' :: rest => rest.takeWhile Char.isDigit
    | _ => []
  Nat.ofDigitChars 10 (text.takeWhile Char.isDigit) 0 + Nat.ofDigitChars 10 decimals 0 / 10 ^ decimals.length

theorem decimalValue_hundredthsText (n : Nat) : decimalValue (hundredthsText n) = n / 100 := by
  have digits : ∀ c ∈ natText (n / 100), c.isDigit = true := fun c => natText_isDigit
  have tens := digitChar_isDigit (show n / 10 % 10 < 10 by omega)
  have ones := digitChar_isDigit (show n % 10 < 10 by omega)
  have whole : Nat.ofDigitChars 10 (natText (n / 100)) 0 = n / 100 := Nat.ofDigitChars_ten_toDigits
  have point : '.'.isDigit = false := by decide
  have decimals : Nat.ofDigitChars 10 [Nat.digitChar (n / 10 % 10), Nat.digitChar (n % 10)] 0 = n % 100 := by
    rw [Nat.ofDigitChars_cons, Nat.ofDigitChars_cons, Nat.ofDigitChars_nil,
      show '0'.toNat = 48 from rfl, Nat.toNat_digitChar_sub_48_of_lt_ten (by omega),
      Nat.toNat_digitChar_sub_48_of_lt_ten (by omega)]
    omega
  have number : n = n / 100 * 100 + n % 100 := by omega
  simp only [decimalValue, hundredthsText, List.takeWhile_append_of_pos digits, List.dropWhile_append_of_pos digits,
    List.takeWhile_cons, List.dropWhile_cons, point, tens, ones, if_true, List.takeWhile_nil, Bool.false_eq_true, if_false,
    List.append_nil, whole, decimals, List.length_cons, List.length_nil]
  have cast : (n : ℚ) = (n / 100 : Nat) * 100 + (n % 100 : Nat) := by exact_mod_cast number
  rw [cast]
  ring

/-! ### Records of fields -/

/-- The fields in order, with the separator between any two neighbours. -/
def joined (sep : Char) (fields : List Str) : Str := [sep].intercalate fields

theorem joined_cons_cons (sep : Char) (first second : Str) (rest : List Str) :
    joined sep (first :: second :: rest) = first ++ sep :: joined sep (second :: rest) := by
  simp [joined]

theorem joined_snoc (sep : Char) (fields : List Str) (last : Str) (some : fields ≠ []) :
    joined sep (fields ++ [last]) = joined sep fields ++ sep :: last := by
  induction fields with
  | nil => exact absurd rfl some
  | cons first rest ih =>
    cases rest with
    | nil => simp [joined]
    | cons second rest =>
      have tail := ih (by simp)
      simp only [List.cons_append] at tail ⊢
      rw [joined_cons_cons, joined_cons_cons, tail]
      simp

theorem mem_joined {sep c : Char} (other : c ≠ sep) {fields : List Str} :
    c ∈ joined sep fields ↔ ∃ field ∈ fields, c ∈ field := by
  induction fields with
  | nil => simp [joined]
  | cons first rest ih =>
    cases rest with
    | nil => simp [joined]
    | cons second rest =>
      rw [joined_cons_cons, List.mem_append, List.mem_cons, ih]
      simp [other]

/-- The text after the last separator is determined. -/
theorem snoc_injective {sep : Char} {a b x y : Str} (xPlain : sep ∉ x) (yPlain : sep ∉ y)
    (same : a ++ sep :: x = b ++ sep :: y) : a = b ∧ x = y := by
  rcases List.append_eq_append_iff.mp same with ⟨middle, bIs, restIs⟩ | ⟨middle, aIs, restIs⟩
  · cases middle with
    | nil => simp_all
    | cons c middle =>
      have member : sep ∈ x := by
        rw [List.cons_append, List.cons.injEq] at restIs
        rw [restIs.2]; simp
      exact absurd member xPlain
  · cases middle with
    | nil => simp_all
    | cons c middle =>
      have member : sep ∈ y := by
        rw [List.cons_append, List.cons.injEq] at restIs
        rw [restIs.2]; simp
      exact absurd member yPlain

/-- Records of one length are determined by their text when no field after the
    first holds the separator; the first field may be any text. -/
theorem joined_tail_injective {sep : Char} {a b : Str} {as bs : List Str} (lengths : as.length = bs.length)
    (asPlain : ∀ field ∈ as, sep ∉ field) (bsPlain : ∀ field ∈ bs, sep ∉ field)
    (same : joined sep (a :: as) = joined sep (b :: bs)) : a = b ∧ as = bs := by
  induction as using List.reverseRecOn generalizing bs with
  | nil =>
    have none : bs = [] := List.length_eq_zero_iff.mp lengths.symm
    subst none
    simpa [joined] using same
  | append_singleton as last ih =>
    -- both records end in a field, so the last separators of the two texts agree
    rcases List.eq_nil_or_concat bs with none | ⟨bs', last', split⟩
    · simp [none] at lengths
    · rw [List.concat_eq_append] at split
      subst split
      rw [← List.cons_append, ← List.cons_append, joined_snoc _ _ _ (by simp), joined_snoc _ _ _ (by simp)] at same
      obtain ⟨front, back⟩ := snoc_injective (asPlain last (by simp)) (bsPlain last' (by simp)) same
      obtain ⟨first, rest⟩ := ih (by simpa using lengths) (fun field member => asPlain field (by simp [member]))
        (fun field member => bsPlain field (by simp [member])) front
      exact ⟨first, by rw [rest, back]⟩

/-- Records whose fields do not hold the separator are determined by their text. -/
theorem joined_injective {sep : Char} {as bs : List Str} (asSome : as ≠ []) (bsSome : bs ≠ [])
    (asPlain : ∀ field ∈ as, sep ∉ field) (bsPlain : ∀ field ∈ bs, sep ∉ field)
    (same : joined sep as = joined sep bs) : as = bs := by
  have split := congrArg (List.splitOn sep) same
  rwa [joined, joined, List.splitOn_intercalate sep asPlain asSome, List.splitOn_intercalate sep bsPlain bsSome] at split

/-! ### Splitting -/

theorem splitOn_joined {sep : Char} {fields : List Str} (some : fields ≠ []) (plain : ∀ field ∈ fields, sep ∉ field) :
    (joined sep fields).splitOn sep = fields :=
  List.splitOn_intercalate sep plain some

/-- The pieces of a split do not hold the separator. -/
theorem not_mem_splitOn {sep : Char} {text piece : Str} (member : piece ∈ text.splitOn sep) : sep ∉ piece := by
  induction text generalizing piece with
  | nil =>
    rw [List.splitOn_nil, List.mem_singleton] at member
    simp [member]
  | cons c rest ih =>
    rw [List.splitOn_cons_eq_if_modifyHead] at member
    split_ifs at member with same
    · rcases List.mem_cons.mp member with rfl | later
      · exact List.not_mem_nil
      · exact ih later
    · cases pieces : rest.splitOn sep with
      | nil => exact absurd pieces (List.splitOn_ne_nil sep rest)
      | cons first others =>
        rw [pieces, List.modifyHead_cons] at member
        rcases List.mem_cons.mp member with rfl | later
        · rw [List.mem_cons, not_or]
          refine ⟨fun equal => same (by simp [equal]), ih ?_⟩
          rw [pieces]
          exact List.mem_cons_self
        · refine ih ?_
          rw [pieces]
          exact List.mem_cons_of_mem _ later

/-! ### Files of lines -/

/-- The text of a file to which lines were printed, each with its newline. -/
def printed (lines : List Str) : Str := lines.flatMap fun line => line ++ ['\n']

/-- The lines of a file; a newline at its end does not start another line. -/
def fileLines (text : Str) : List Str :=
  let pieces := text.splitOn '\n'
  if pieces.getLast? = some [] then pieces.dropLast else pieces

theorem printed_eq_joined (lines : List Str) : printed lines = joined '\n' (lines ++ [[]]) := by
  induction lines with
  | nil => rfl
  | cons line rest ih =>
    have more : rest ++ [[]] = (rest ++ [[]]).head (by simp) :: (rest ++ [[]]).tail := by simp
    rw [List.cons_append, more, joined_cons_cons, ← more, ← ih]
    simp [printed]

/-- Lines that hold no newline are read as they were printed. -/
theorem fileLines_printed {lines : List Str} (plain : ∀ line ∈ lines, '\n' ∉ line) :
    fileLines (printed lines) = lines := by
  have pieces : (printed lines).splitOn '\n' = lines ++ [[]] := by
    rw [printed_eq_joined]
    refine splitOn_joined (by simp) ?_
    intro line member
    rcases List.mem_append.mp member with before | last
    · exact plain line before
    · simp_all
  unfold fileLines
  rw [pieces]
  simp

theorem newline_fileLines {text line : Str} (member : line ∈ fileLines text) : '\n' ∉ line := by
  simp only [fileLines] at member
  split_ifs at member
  · exact not_mem_splitOn (List.mem_of_mem_dropLast member)
  · exact not_mem_splitOn member

/-! ### Loops over lines -/

/-- One turn of a loop that collects what it makes of its items but passes over
    the first one, a header. The number of items so far comes along. -/
def afterFirst {α β : Type} (make : α → List β) (state : Nat × List β) (item : α) : Nat × List β :=
  let counter := state.1 + 1
  if 1 < counter then (counter, state.2 ++ make item) else (counter, state.2)

theorem afterFirst_all {α β : Type} (make : α → List β) (items : List α) :
    items.foldl (afterFirst make) (0, []) = (items.length, items.tail.flatMap make) := by
  have loop : ∀ (rest : List α) (counter : Nat) (made : List β), 0 < counter →
      rest.foldl (afterFirst make) (counter, made) = (counter + rest.length, made ++ rest.flatMap make) := by
    intro rest
    induction rest with
    | nil => simp
    | cons item rest ih =>
      intro counter made positive
      rw [List.foldl_cons, afterFirst, if_pos (by omega), ih _ _ (by omega)]
      simp [Nat.add_comm, Nat.add_left_comm]
  cases items with
  | nil => rfl
  | cons first rest =>
    rw [List.foldl_cons, afterFirst, if_neg (by omega), loop rest _ _ (by omega)]
    simp [Nat.add_comm]

end Cdo.Text
