import Mathlib

/-!
Entries that are sent in batches. A loop collects the entries and sends what it
has whenever a given number is reached; after the loop it sends the rest, which
may be nothing. The batches carry every entry once and in order
(`flatten_batches`). All of them are full but the last one (`Block.filled_foldl`),
which is empty exactly where the batches end with the entries (`fair_batches_iff`).
Where no entry occurs twice, each is in exactly one batch (`sentOnce_iff`).
-/
namespace Cdo.Batches

section
variable {α : Type}

/-- The entries that are collected, how many there are, and what was sent. -/
structure Block (α : Type) where
  count : Nat
  body : List α
  sent : List (List α)

/-- A turn of the loop. -/
def Block.add (size : Nat) (block : Block α) (entry : α) : Block α :=
  if block.count + 1 = size then ⟨0, [], block.sent ++ [block.body ++ [entry]]⟩
  else ⟨block.count + 1, block.body ++ [entry], block.sent⟩

def Block.all (block : Block α) : List (List α) := block.sent ++ [block.body]

/-- All batches; the last one has what the loop left over. -/
def batches (size : Nat) (entries : List α) : List (List α) := (entries.foldl (Block.add size) ⟨0, [], []⟩).all

theorem Block.flatten_add (size : Nat) (block : Block α) (entry : α) :
    (block.add size entry).all.flatten = block.all.flatten ++ [entry] := by
  by_cases full : block.count + 1 = size
  · simp [Block.add, Block.all, full]
  · simp [Block.add, Block.all, full]

theorem Block.flatten_foldl (size : Nat) (entries : List α) (block : Block α) :
    (entries.foldl (Block.add size) block).all.flatten = block.all.flatten ++ entries := by
  induction entries generalizing block with
  | nil => simp
  | cons entry rest ih =>
    rw [List.foldl_cons, ih, Block.flatten_add, List.append_assoc]
    rfl

theorem flatten_batches (size : Nat) (entries : List α) : (batches size entries).flatten = entries :=
  Block.flatten_foldl size entries ⟨0, [], []⟩

/-! ### Sizes -/

/-- What was sent is full, and what is collected is not. -/
structure Block.Filled (size : Nat) (block : Block α) : Prop where
  counted : block.count = block.body.length
  less : block.body.length < size
  full : ∀ batch ∈ block.sent, batch.length = size

theorem Block.filled_add {size : Nat} {block : Block α} (filled : block.Filled size) (entry : α) :
    (block.add size entry).Filled size := by
  obtain ⟨counted, less, full⟩ := filled
  by_cases now : block.count + 1 = size
  · rw [Block.add, if_pos now]
    refine ⟨rfl, Nat.zero_lt_of_lt less, fun batch member => ?_⟩
    rcases List.mem_append.mp member with sent | last
    · exact full batch sent
    · rw [List.mem_singleton.mp last, List.length_append, List.length_singleton, ← counted, now]
  · rw [Block.add, if_neg now]
    have length : (block.body ++ [entry]).length = block.body.length + 1 := by simp
    exact ⟨by rw [length, ← counted], by rw [length]; omega, full⟩

theorem Block.filled_foldl {size : Nat} (entries : List α) {block : Block α} (filled : block.Filled size) :
    (entries.foldl (Block.add size) block).Filled size := by
  induction entries generalizing block with
  | nil => exact filled
  | cons entry rest ih => exact ih (Block.filled_add filled entry)

theorem length_batches_le {size : Nat} (positive : 0 < size) (entries : List α) :
    ∀ batch ∈ batches size entries, batch.length ≤ size := by
  have start : (⟨0, [], []⟩ : Block α).Filled size := ⟨rfl, positive, by simp⟩
  obtain ⟨-, less, full⟩ := Block.filled_foldl entries start
  intro batch member
  rcases List.mem_append.mp member with sent | last
  · exact (full batch sent).le
  · rw [List.mem_singleton.mp last]
    exact less.le

/-- Every batch carries something, and no more than it may. -/
def Fair (size : Nat) (batches : List (List α)) : Prop := ∀ batch ∈ batches, 1 ≤ batch.length ∧ batch.length ≤ size

instance (size : Nat) (batches : List (List α)) : Decidable (Fair size batches) :=
  inferInstanceAs (Decidable (∀ batch ∈ batches, _))

theorem fair_append {size : Nat} {first second : List (List α)} :
    Fair size (first ++ second) ↔ Fair size first ∧ Fair size second := List.forall_mem_append

theorem length_flatten_of_full {size : Nat} {batches : List (List α)} (full : ∀ batch ∈ batches, batch.length = size) :
    batches.flatten.length = batches.length * size := by
  rw [List.length_flatten, List.map_congr_left full, List.map_const', List.sum_replicate, smul_eq_mul]

/-- The last batch is empty if the number of entries is a multiple of the size. -/
theorem fair_batches_iff {size : Nat} (positive : 0 < size) (entries : List α) :
    Fair size (batches size entries) ↔ ¬ size ∣ entries.length := by
  have start : (⟨0, [], []⟩ : Block α).Filled size := ⟨rfl, positive, by simp⟩
  have whole := congrArg List.length (flatten_batches size entries)
  obtain ⟨counted, less, full⟩ := Block.filled_foldl entries start
  rw [batches, Block.all] at whole ⊢
  rw [List.flatten_append, List.length_append, length_flatten_of_full full, List.flatten_singleton] at whole
  have sentFair : Fair size (entries.foldl (Block.add size) ⟨0, [], []⟩).sent := fun batch member => by
    rw [full batch member]
    exact ⟨positive, le_rfl⟩
  rw [fair_append, and_iff_right sentFair, Fair, List.forall_mem_singleton, ← whole,
    (Nat.dvd_add_iff_right (Dvd.intro_left _ rfl)).symm, Nat.dvd_iff_mod_eq_zero, Nat.mod_eq_of_lt less]
  omega

end

section
variable {α : Type} [DecidableEq α]

/-- The batches carry these entries and no others, each of them in one batch. -/
def SentOnce (batches : List (List α)) (entries : List α) : Prop :=
  (∀ batch ∈ batches, ∀ entry ∈ batch, entry ∈ entries) ∧
    ∀ entry ∈ entries, batches.countP (fun batch => decide (entry ∈ batch)) = 1

instance (batches : List (List α)) (entries : List α) : Decidable (SentOnce batches entries) :=
  inferInstanceAs (Decidable (_ ∧ _))

theorem count_batches {batches : List (List α)} (nodup : batches.flatten.Nodup) {entry : α}
    (member : entry ∈ batches.flatten) : batches.countP (fun batch => decide (entry ∈ batch)) = 1 := by
  induction batches with
  | nil => simp at member
  | cons batch rest ih =>
    rw [List.flatten_cons] at nodup member
    obtain ⟨-, restNodup, apart⟩ := List.nodup_append.mp nodup
    by_cases here : entry ∈ batch
    · have later : rest.countP (fun batch => decide (entry ∈ batch)) = 0 := by
        rw [List.countP_eq_zero]
        intro other isOther again
        exact apart entry here entry (List.mem_flatten.mpr ⟨other, isOther, of_decide_eq_true again⟩) rfl
      rw [List.countP_cons, later, if_pos (decide_eq_true here)]
    · have later : entry ∈ rest.flatten := (List.mem_append.mp member).resolve_left here
      rw [List.countP_cons, ih restNodup later, if_neg (by simpa using here)]

/-- Where no entry is carried twice, only the sets of entries have to agree. -/
theorem sentOnce_iff {batches : List (List α)} {entries : List α} (nodup : batches.flatten.Nodup) :
    SentOnce batches entries ↔ ∀ entry, entry ∈ batches.flatten ↔ entry ∈ entries := by
  constructor
  · rintro ⟨only, once⟩ entry
    constructor
    · intro carried
      obtain ⟨batch, isBatch, member⟩ := List.mem_flatten.mp carried
      exact only batch isBatch entry member
    · intro isEntry
      have some : 0 < batches.countP (fun batch => decide (entry ∈ batch)) := by rw [once entry isEntry]; exact one_pos
      obtain ⟨batch, isBatch, member⟩ := List.countP_pos_iff.mp some
      exact List.mem_flatten.mpr ⟨batch, isBatch, of_decide_eq_true member⟩
  · intro same
    constructor
    · intro batch isBatch entry member
      exact (same entry).mp (List.mem_flatten.mpr ⟨batch, isBatch, member⟩)
    · intro entry isEntry
      exact count_batches nodup ((same entry).mpr isEntry)

end
end Cdo.Batches
