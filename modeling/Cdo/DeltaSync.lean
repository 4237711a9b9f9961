import Mathlib

/-!
A table that is kept in step with published snapshots. At each time a publisher
files one snapshot for each of several parts and sends, part by part, only the
entries that the part's snapshot of the time before lacks (`IsDelta`); a
receiver applies what is sent to its table. The snapshot of the time before may
be missing, a key may move between parts, disappear and come back. If no key is
in two parts at a time, then after each publication the table holds every entry
of the latest snapshots (`inStep_published`). Only the keys of a set `live` are
meant; for the others nothing is asked of the publisher.
-/
namespace Cdo.DeltaSync

variable {ι κ β : Type} [DecidableEq κ] {live : Set κ}

/-! ### Updates -/

/-- A table after updates that are applied in order. -/
def applied (table : κ → Option β) (updates : List (κ × β)) : κ → Option β :=
  updates.foldl (fun table update => Function.update table update.1 (some update.2)) table

theorem applied_append (table : κ → Option β) (first second : List (κ × β)) :
    applied table (first ++ second) = applied (applied table first) second :=
  List.foldl_append

theorem applied_of_unsent {table : κ → Option β} {updates : List (κ × β)} {k : κ} (unsent : ∀ v, (k, v) ∉ updates) :
    applied table updates k = table k := by
  induction updates generalizing table with
  | nil => rfl
  | cons update rest ih =>
    have other : k ≠ update.1 := by
      rintro rfl
      exact unsent update.2 List.mem_cons_self
    have later : ∀ v, (k, v) ∉ rest := fun v member => unsent v (List.mem_cons_of_mem _ member)
    exact (ih later).trans (Function.update_of_ne other _ _)

theorem applied_of_sent {table : κ → Option β} {updates : List (κ × β)} {k : κ} {v : β} (sent : (k, v) ∈ updates)
    (only : ∀ w, (k, w) ∈ updates → w = v) : applied table updates k = some v := by
  induction updates generalizing table with
  | nil => exact absurd sent List.not_mem_nil
  | cons update rest ih =>
    have onlyLater : ∀ w, (k, w) ∈ rest → w = v := fun w member => only w (List.mem_cons_of_mem _ member)
    by_cases again : (k, v) ∈ rest
    · exact ih again onlyLater
    · -- the first update is the one for the key, and no later one touches it
      obtain rfl : (k, v) = update := (List.mem_cons.mp sent).resolve_right again
      have unsent : ∀ w, (k, w) ∉ rest := by
        intro w member
        exact again (onlyLater w member ▸ member)
      exact (applied_of_unsent unsent).trans (Function.update_self _ _ _)

/-- An entry of the table was there or is one of the updates. -/
theorem applied_some {table : κ → Option β} {updates : List (κ × β)} {k : κ} {v : β}
    (found : applied table updates k = some v) : table k = some v ∨ (k, v) ∈ updates := by
  induction updates generalizing table with
  | nil => exact .inl found
  | cons update rest ih =>
    rcases ih found with had | later
    · beta_reduce at had
      by_cases same : k = update.1
      · subst same
        rw [Function.update_self] at had
        obtain rfl := Option.some.inj had
        exact .inr List.mem_cons_self
      · rw [Function.update_of_ne same] at had
        exact .inl had
    · exact .inr (List.mem_cons_of_mem _ later)

/-- A key gets the same value over two tables if it is updated or has the same
    value in both. -/
theorem applied_congr {table table' : κ → Option β} {updates : List (κ × β)} {k : κ}
    (same : k ∈ updates.map Prod.fst ∨ table k = table' k) : applied table updates k = applied table' updates k := by
  induction updates generalizing table table' with
  | nil => exact same.resolve_left List.not_mem_nil
  | cons update rest ih =>
    refine ih ?_
    beta_reduce
    by_cases first : k = update.1
    · subst first
      exact .inr (by rw [Function.update_self, Function.update_self])
    · rw [Function.update_of_ne first, Function.update_of_ne first]
      rcases same with sent | equal
      · exact .inl ((List.mem_cons.mp sent).resolve_left first)
      · exact .inr equal

/-! ### Differences -/

/-- The table holds every entry of a snapshot. -/
def Agrees (live : Set κ) (table snapshot : κ → Option β) : Prop :=
  ∀ k ∈ live, ∀ v, snapshot k = some v → table k = some v

/-- The updates are the entries of the current snapshot that the last one lacks. -/
def IsDelta (live : Set κ) (last current : κ → Option β) (updates : List (κ × β)) : Prop :=
  ∀ k ∈ live, ∀ v, (k, v) ∈ updates ↔ current k = some v ∧ last k ≠ some v

/-- No key is in the snapshots of two parts. -/
def Apart (live : Set κ) (current : ι → κ → Option β) : Prop :=
  ∀ k ∈ live, ∀ i j v w, current i k = some v → current j k = some w → i = j

/-- A table that agrees with the last snapshots of all parts agrees with the
    current ones once the differences are applied. -/
theorem agrees_of_deltas {table : κ → Option β} {last current : ι → κ → Option β} {parts : List ι}
    {updates : ι → List (κ × β)} (all : ∀ i, i ∈ parts) (agrees : ∀ i, Agrees live table (last i))
    (apart : Apart live current) (deltas : ∀ i, IsDelta live (last i) (current i) (updates i)) (i : ι) :
    Agrees live (applied table (parts.flatMap updates)) (current i) := by
  intro k alive v isCurrent
  have only : ∀ w, (k, w) ∈ parts.flatMap updates → w = v := by
    intro w member
    obtain ⟨j, -, sent⟩ := List.mem_flatMap.mp member
    obtain ⟨other, -⟩ := (deltas j k alive w).mp sent
    obtain rfl := apart k alive i j v w isCurrent other
    exact Option.some.inj (other.symm.trans isCurrent)
  by_cases sent : (k, v) ∈ parts.flatMap updates
  · exact applied_of_sent sent only
  · -- what is not sent was in the last snapshot already
    have old : last i k = some v := by
      by_contra new
      exact sent (List.mem_flatMap.mpr ⟨i, all i, (deltas i k alive v).mpr ⟨isCurrent, new⟩⟩)
    have unsent : ∀ w, (k, w) ∉ parts.flatMap updates := by
      intro w member
      exact sent (only w member ▸ member)
    rw [applied_of_unsent unsent]
    exact agrees i k alive v old

/-! ### Publications -/

/-- The snapshots that were filed at each time and the table of the receiver. -/
structure Store (ι κ β : Type) where
  archive : Int → ι → κ → Option β
  table : κ → Option β

/-- The snapshots of a time are filed, and their differences from those of the
    time before are applied to the table. -/
structure Published (live : Set κ) (before after : Store ι κ β) (time : Int) : Prop where
  kept : ∀ other, other ≠ time → after.archive other = before.archive other
  apart : Apart live (after.archive time)
  sent : ∃ (parts : List ι) (updates : ι → List (κ × β)), (∀ i, i ∈ parts) ∧
    (∀ i, IsDelta live (before.archive (time - 1) i) (after.archive time i) (updates i)) ∧
    after.table = applied before.table (parts.flatMap updates)

/-- Nothing is filed after a time, and the table agrees with the snapshots of
    that time. -/
structure InStep (live : Set κ) (store : Store ι κ β) (time : Int) : Prop where
  latest : ∀ later, time < later → ∀ i, ∀ k ∈ live, store.archive later i k = none
  agrees : ∀ i, Agrees live store.table (store.archive time i)

/-- A later publication keeps the table in step, with or without times skipped
    between the two. -/
theorem inStep_published {before after : Store ι κ β} {last time : Int} (inStep : InStep live before last)
    (increasing : last < time) (published : Published live before after time) : InStep live after time := by
  obtain ⟨parts, updates, all, deltas, tableIs⟩ := published.sent
  constructor
  · intro later isLater i k alive
    rw [published.kept later isLater.ne']
    exact inStep.latest later (increasing.trans isLater) i k alive
  · intro i
    rw [tableIs]
    refine agrees_of_deltas all (fun j => ?_) published.apart deltas i
    rcases (Int.le_sub_one_of_lt increasing).eq_or_lt with previous | skipped
    · rw [← previous]
      exact inStep.agrees j
    · intro k alive v found
      rw [inStep.latest _ skipped j k alive] at found
      exact absurd found (by simp)

/-- After a publication the table has an entry of the current snapshots exactly if
    the entry was sent or the table had it before. -/
theorem published_entry_iff {before after : Store ι κ β} {time : Int} (published : Published live before after time)
    {k : κ} (alive : k ∈ live) {i : ι} {v : β} (current : after.archive time i k = some v) :
    after.table k = some v ↔ before.archive (time - 1) i k ≠ some v ∨ before.table k = some v := by
  obtain ⟨parts, updates, all, deltas, tableIs⟩ := published.sent
  have only : ∀ j w, (k, w) ∈ updates j → j = i ∧ w = v := by
    intro j w member
    obtain ⟨other, -⟩ := (deltas j k alive w).mp member
    obtain rfl := published.apart k alive j i w v other current
    exact ⟨rfl, Option.some.inj (other.symm.trans current)⟩
  rw [tableIs]
  by_cases old : before.archive (time - 1) i k = some v
  · have unsent : ∀ w, (k, w) ∉ parts.flatMap updates := by
      intro w member
      obtain ⟨j, -, sent⟩ := List.mem_flatMap.mp member
      obtain ⟨rfl, rfl⟩ := only j w sent
      exact ((deltas j k alive w).mp sent).2 old
    rw [applied_of_unsent unsent]
    exact ⟨.inr, fun sentOrHad => sentOrHad.resolve_left fun new => new old⟩
  · have sent : (k, v) ∈ parts.flatMap updates :=
      List.mem_flatMap.mpr ⟨i, all i, (deltas i k alive v).mpr ⟨current, old⟩⟩
    refine iff_of_true (applied_of_sent sent fun w member => ?_) (.inl old)
    obtain ⟨j, -, isSent⟩ := List.mem_flatMap.mp member
    exact (only j w isSent).2

end Cdo.DeltaSync
