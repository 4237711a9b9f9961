import Mathlib

/-!
Lists that are fetched page by page. A loop handles a page and asks for the next
one until a page is not full. It handles every page once and stops: as many
turns as there are full pages are enough (`handleAll_eq`), and the pages carry
every item once and in order (`flatten_pages`).
-/
namespace Cdo.Paging

section
variable {α σ : Type}

def page (items : List α) (pageSize pageIndex : Nat) : List α := (items.drop (pageIndex * pageSize)).take pageSize

/-- The loop after a page; none if it takes more turns than `fuel`. -/
def pageLoop (handle : σ → Nat → List α → σ) (items : List α) (pageSize : Nat) : Nat → Nat → σ → Option σ
  | 0, _, _ => none
  | fuel + 1, pageIndex, state =>
    let handled := handle state (pageIndex + 1) (page items pageSize (pageIndex + 1))
    if (page items pageSize (pageIndex + 1)).length < pageSize then some handled
    else pageLoop handle items pageSize fuel (pageIndex + 1) handled

/-- The first page is handled, and if it is full, those after it. -/
def handleAll (handle : σ → Nat → List α → σ) (items : List α) (pageSize fuel : Nat) (state : σ) : Option σ :=
  let handled := handle state 0 (page items pageSize 0)
  if (page items pageSize 0).length < pageSize then some handled else pageLoop handle items pageSize fuel 0 handled

/-- The pages with these indices, handled in order. -/
def handlePages (handle : σ → Nat → List α → σ) (items : List α) (pageSize : Nat) (indices : List Nat) (state : σ) : σ :=
  indices.foldl (fun state pageIndex => handle state pageIndex (page items pageSize pageIndex)) state

variable {items : List α} {pageSize : Nat}

theorem page_short_iff (positive : 1 ≤ pageSize) {pageIndex : Nat} :
    (page items pageSize pageIndex).length < pageSize ↔ items.length / pageSize ≤ pageIndex := by
  rw [page, List.length_take, List.length_drop, ← Nat.lt_succ_iff, Nat.div_lt_iff_lt_mul (by omega), Nat.succ_mul]
  omega

theorem pageLoop_eq (handle : σ → Nat → List α → σ) (positive : 1 ≤ pageSize) (fuel pageIndex : Nat) (state : σ)
    (left : pageIndex < items.length / pageSize) (enough : items.length / pageSize ≤ pageIndex + fuel) :
    pageLoop handle items pageSize fuel pageIndex state =
      some (handlePages handle items pageSize
        (List.range' (pageIndex + 1) (items.length / pageSize - pageIndex)) state) := by
  induction fuel generalizing pageIndex state with
  | zero => omega
  | succ fuel ih =>
    have number : items.length / pageSize - pageIndex = (items.length / pageSize - (pageIndex + 1)) + 1 := by omega
    rw [number, List.range'_succ, handlePages, List.foldl_cons]
    by_cases last : items.length / pageSize ≤ pageIndex + 1
    · rw [pageLoop, if_pos ((page_short_iff positive).mpr last)]
      have none : items.length / pageSize - (pageIndex + 1) = 0 := by omega
      rw [none]
      rfl
    · rw [pageLoop, if_neg (fun short => last ((page_short_iff positive).mp short))]
      exact ih (pageIndex + 1) _ (by omega) (by omega)

/-- Every page is handled once, in order, up to the first one that is not full. -/
theorem handleAll_eq (handle : σ → Nat → List α → σ) (positive : 1 ≤ pageSize) (fuel : Nat) (state : σ)
    (enough : items.length / pageSize ≤ fuel) :
    handleAll handle items pageSize fuel state =
      some (handlePages handle items pageSize (List.range' 0 (items.length / pageSize + 1)) state) := by
  rw [List.range'_succ, handlePages, List.foldl_cons, handleAll]
  by_cases full : items.length / pageSize ≤ 0
  · rw [if_pos ((page_short_iff positive).mpr full), Nat.le_zero.mp full]
    rfl
  · rw [if_neg fun short => full ((page_short_iff positive).mp short),
      pageLoop_eq handle positive fuel 0 _ (by omega) (by omega)]
    rfl

theorem pageLoop_mono (handle : σ → Nat → List α → σ) {fuel more pageIndex : Nat} {state after : σ} (le : fuel ≤ more)
    (stops : pageLoop handle items pageSize fuel pageIndex state = some after) :
    pageLoop handle items pageSize more pageIndex state = some after := by
  induction fuel generalizing more pageIndex state with
  | zero => cases stops
  | succ fuel ih =>
    obtain ⟨more, rfl⟩ := Nat.exists_eq_add_of_le' (Nat.lt_of_lt_of_le (Nat.succ_pos fuel) le)
    rw [pageLoop] at stops ⊢
    split at stops
    · rename_i short
      rw [if_pos short]
      exact stops
    · rename_i full
      rw [if_neg full]
      exact ih (by omega) stops

/-- A loop that stops, with however many turns, has handled every page. -/
theorem handleAll_some (handle : σ → Nat → List α → σ) (positive : 1 ≤ pageSize) {fuel : Nat} {state after : σ}
    (stops : handleAll handle items pageSize fuel state = some after) :
    after = handlePages handle items pageSize (List.range' 0 (items.length / pageSize + 1)) state := by
  have enough : handleAll handle items pageSize (max fuel (items.length / pageSize)) state = some after := by
    rw [handleAll] at stops ⊢
    split at stops
    · rename_i short
      rw [if_pos short]
      exact stops
    · rename_i full
      rw [if_neg full]
      exact pageLoop_mono handle (Nat.le_max_left _ _) stops
  rw [handleAll_eq handle positive _ _ (Nat.le_max_right _ _)] at enough
  exact (Option.some.inj enough).symm

/-- An empty first page may be left alone, if to handle it does nothing else. -/
theorem guarded_handleAll {handle : σ → Nat → List α → σ} {state unread : σ} (nothing : handle state 0 [] = unread)
    (positive : 1 ≤ pageSize) (fuel : Nat) :
    (if 0 < (page items pageSize 0).length then
        if pageSize - 1 < (page items pageSize 0).length then
          pageLoop handle items pageSize fuel 0 (handle state 0 (page items pageSize 0))
        else some (handle state 0 (page items pageSize 0))
      else some unread) = handleAll handle items pageSize fuel state := by
  rw [handleAll]
  by_cases empty : page items pageSize 0 = []
  · rw [empty, if_neg (by simp), if_pos (by simp; omega), nothing]
  · rw [if_pos (List.length_pos_iff.mpr empty)]
    by_cases short : (page items pageSize 0).length < pageSize
    · rw [if_pos short, if_neg (by omega)]
    · rw [if_neg short, if_pos (by omega)]

theorem flatten_pages (first number : Nat) :
    ((List.range' first number).map (page items pageSize)).flatten =
      (items.drop (first * pageSize)).take (number * pageSize) := by
  induction number generalizing first with
  | zero => simp
  | succ number ih =>
    rw [List.range'_succ, List.map_cons, List.flatten_cons, ih, page, Nat.succ_mul first, Nat.succ_mul number,
      Nat.add_comm (number * pageSize), List.take_add, List.drop_drop]

theorem flatten_allPages (positive : 1 ≤ pageSize) :
    ((List.range' 0 (items.length / pageSize + 1)).map (page items pageSize)).flatten = items := by
  rw [flatten_pages, Nat.zero_mul, List.drop_zero, List.take_of_length_le]
  have := Nat.lt_mul_div_succ items.length (show 0 < pageSize by omega)
  rw [Nat.mul_comm]
  omega

end

end Cdo.Paging
