import Mathlib

/-!
Linear programs as lists of relations `c₁ x₁ + ... + cₙ xₙ <= limit` over named
variables, and the way a program in the LP format is read: a relation with one
variable is a bound on that variable, the coefficient divided out, and a later
bound on a variable replaces an earlier one; every other relation is a
constraint. `Feasible` takes the relations as they are meant, `FeasibleAsRead`
as they are read. A relation without a limit makes the program unreadable, so
that no point satisfies it.
-/
namespace Cdo.LinearProgram
variable {V : Type}

/-- A sum of variables with coefficients, and the limit it is held to. -/
structure Relation (V : Type) where
  terms : List (ℚ × V)
  limit : Option ℚ
deriving DecidableEq

def total (x : V → ℚ) (terms : List (ℚ × V)) : ℚ := (terms.map fun term => term.1 * x term.2).sum

namespace Relation

def vars (r : Relation V) : List V := r.terms.map Prod.snd

def Mentions [DecidableEq V] (r : Relation V) (v : V) : Bool := decide (v ∈ r.vars)

/-- The coefficient of a variable, summed over its occurrences. -/
def coeff [DecidableEq V] (r : Relation V) (v : V) : ℚ := ((r.terms.filter fun term => term.2 = v).map Prod.fst).sum

def Holds (r : Relation V) (x : V → ℚ) : Prop := ∃ limit, r.limit = some limit ∧ total x r.terms ≤ limit

/-- The upper bound that a relation is read as, if it has one variable, with a
    positive coefficient. A negative coefficient divided out leaves a lower
    bound, which says the same as the relation. -/
def bound (r : Relation V) : Option (V × ℚ) :=
  match r.terms, r.limit with
  | [term], some limit => if 0 < term.1 then some (term.2, limit / term.1) else none
  | _, _ => none

end Relation

/-- The upper bound on a variable after all relations are read. -/
def upper [DecidableEq V] : List (Relation V) → V → Option ℚ
  | [], _ => none
  | r :: rest, v => (upper rest v).or (r.bound.bind fun bound => if bound.1 = v then some bound.2 else none)

def Feasible (rows : List (Relation V)) (x : V → ℚ) : Prop := (∀ v, 0 ≤ x v) ∧ ∀ r ∈ rows, r.Holds x

/-- The points that meet the program as it is read. -/
def FeasibleAsRead [DecidableEq V] (rows : List (Relation V)) (x : V → ℚ) : Prop :=
  (∀ v, 0 ≤ x v) ∧ (∀ r ∈ rows, r.bound = none → r.Holds x) ∧ ∀ v limit, upper rows v = some limit → x v ≤ limit

/-! ### Sums -/

@[simp] theorem total_nil (x : V → ℚ) : total x [] = 0 := rfl

@[simp] theorem total_cons (x : V → ℚ) (term : ℚ × V) (rest : List (ℚ × V)) :
    total x (term :: rest) = term.1 * x term.2 + total x rest := by
  simp [total]

theorem total_eq_zero {x : V → ℚ} {terms : List (ℚ × V)} (zero : ∀ term ∈ terms, x term.2 = 0) : total x terms = 0 := by
  refine List.sum_eq_zero ?_
  intro value member
  obtain ⟨term, termMember, rfl⟩ := List.mem_map.mp member
  rw [zero term termMember, mul_zero]

theorem total_nonneg {x : V → ℚ} {terms : List (ℚ × V)} (nonneg : ∀ v, 0 ≤ x v) (coeffs : ∀ term ∈ terms, 0 ≤ term.1) :
    0 ≤ total x terms := by
  refine List.sum_nonneg ?_
  intro value member
  obtain ⟨term, termMember, rfl⟩ := List.mem_map.mp member
  exact mul_nonneg (coeffs term termMember) (nonneg _)

theorem term_le_total {x : V → ℚ} {terms : List (ℚ × V)} (nonneg : ∀ v, 0 ≤ x v)
    (coeffs : ∀ term ∈ terms, 0 ≤ term.1) {term : ℚ × V} (member : term ∈ terms) : term.1 * x term.2 ≤ total x terms := by
  refine List.single_le_sum ?_ _ (List.mem_map_of_mem member)
  intro value valueMember
  obtain ⟨other, otherMember, rfl⟩ := List.mem_map.mp valueMember
  exact mul_nonneg (coeffs other otherMember) (nonneg _)

/-- Values that exceed those of a point by a slack for each unit of the
    coefficients, summed. -/
theorem sum_le_total_add {x value : V → ℚ} {slack : ℚ} {terms : List (ℚ × V)}
    (each : ∀ term ∈ terms, value term.2 ≤ term.1 * x term.2 + term.1 * slack) :
    ((terms.map Prod.snd).map value).sum ≤ total x terms + (terms.map Prod.fst).sum * slack := by
  induction terms with
  | nil => simp
  | cons term rest ih =>
    have tail := ih fun other member => each other (List.mem_cons_of_mem _ member)
    have head := each term List.mem_cons_self
    rw [total_cons]
    simp only [List.map_cons, List.sum_cons]
    linarith

/-- A sum with coefficients that are not negative is bounded over a program that
    bounds each of its variables. -/
theorem exists_bound {rows : List (Relation V)} {terms : List (ℚ × V)} (coeffs : ∀ term ∈ terms, 0 ≤ term.1)
    (each : ∀ term ∈ terms, ∃ limit, ∀ x, Feasible rows x → x term.2 ≤ limit) :
    ∃ most, ∀ x, Feasible rows x → total x terms ≤ most := by
  induction terms with
  | nil => exact ⟨0, fun x _ => le_of_eq (total_nil x)⟩
  | cons term rest ih =>
    obtain ⟨most, tail⟩ := ih (fun other member => coeffs other (List.mem_cons_of_mem _ member))
      (fun other member => each other (List.mem_cons_of_mem _ member))
    obtain ⟨limit, head⟩ := each term List.mem_cons_self
    refine ⟨term.1 * limit + most, fun x feasible => ?_⟩
    rw [total_cons]
    have first := mul_le_mul_of_nonneg_left (head x feasible) (coeffs term List.mem_cons_self)
    linarith [tail x feasible]

/-! ### Bounds -/

theorem eq_singleton_of_nodup {α : Type} {l : List α} {a : α} (nodup : l.Nodup) (member : a ∈ l)
    (only : ∀ b ∈ l, b = a) : l = [a] := by
  refine List.Perm.eq_singleton ((List.perm_ext_iff_of_nodup nodup (List.nodup_singleton a)).mpr ?_)
  intro b
  rw [List.mem_singleton]
  constructor
  · exact only b
  · rintro rfl
    exact member

/-- The one element of a list without repetitions that passes a filter. -/
theorem filter_eq_singleton {α : Type} {l : List α} {p : α → Bool} {a : α} (nodup : l.Nodup) (member : a ∈ l)
    (here : p a = true) (only : ∀ b ∈ l, p b = true → b = a) : l.filter p = [a] := by
  refine eq_singleton_of_nodup (nodup.filter p) (List.mem_filter.mpr ⟨member, here⟩) ?_
  intro b bMember
  exact only b (List.mem_filter.mp bMember).1 (List.mem_filter.mp bMember).2

/-- The one element that passes a filter which no two elements pass. -/
theorem filter_of_pairwise {α : Type} {l : List α} {p : α → Bool} {a : α}
    (apart : l.Pairwise fun b c => p b = true → p c = false) (member : a ∈ l) (here : p a = true) : l.filter p = [a] := by
  induction l with
  | nil => exact absurd member List.not_mem_nil
  | cons first rest ih =>
    obtain ⟨head, tail⟩ := List.pairwise_cons.mp apart
    rcases List.mem_cons.mp member with rfl | later
    · have none : rest.filter p = [] := List.filter_eq_nil_iff.mpr fun b bMember => by simp [head b bMember here]
      rw [List.filter_cons_of_pos here, none]
    · have skipped : p first = false := by
        cases passes : p first with
        | false => rfl
        | true => rw [head a later passes] at here; exact absurd here (by decide)
      rw [List.filter_cons_of_neg (by simp [skipped]), ih tail later]

namespace Relation
variable {r : Relation V} {v : V}

theorem mentions_iff [DecidableEq V] : r.Mentions v = true ↔ ∃ coefficient, (coefficient, v) ∈ r.terms := by
  rw [Mentions, decide_eq_true_iff]
  simp [vars]

theorem coeff_of_mem [DecidableEq V] {coefficient : ℚ} (once : r.vars.Nodup) (member : (coefficient, v) ∈ r.terms) :
    r.coeff v = coefficient := by
  have only : r.terms.filter (fun term => term.2 = v) = [(coefficient, v)] := by
    refine filter_eq_singleton once.of_map member (by simp) ?_
    intro other otherMember same
    exact List.inj_on_of_nodup_map once otherMember member (of_decide_eq_true same)
  simp [coeff, only]

theorem bound_eq_some {limit : ℚ} :
    r.bound = some (v, limit) ↔ ∃ coefficient b, r.terms = [(coefficient, v)] ∧ r.limit = some b ∧ 0 < coefficient ∧
      limit = b / coefficient := by
  unfold bound
  split
  · rename_i term b terms rLimit
    split_ifs with positive
    · simp only [Option.some.injEq, Prod.mk.injEq, terms, List.cons.injEq, and_true, rLimit]
      constructor
      · rintro ⟨rfl, rfl⟩
        exact ⟨term.1, b, rfl, rfl, positive, rfl⟩
      · rintro ⟨coefficient, b', rfl, rfl, -, rfl⟩
        exact ⟨rfl, rfl⟩
    · simp only [false_iff, terms, List.cons.injEq, and_true]
      rintro ⟨coefficient, b', rfl, -, coefficientPos, -⟩
      exact positive coefficientPos
  · rename_i other
    simp only [reduceCtorEq, false_iff]
    rintro ⟨coefficient, b, terms, rLimit, -, -⟩
    exact other _ _ terms rLimit

theorem bound_mentions [DecidableEq V] {limit : ℚ} (read : r.bound = some (v, limit)) : r.Mentions v = true := by
  obtain ⟨coefficient, b, terms, -⟩ := bound_eq_some.mp read
  exact mentions_iff.mpr ⟨coefficient, by simp [terms]⟩

end Relation

variable [DecidableEq V]

theorem upper_append (rows more : List (Relation V)) (v : V) :
    upper (rows ++ more) v = (upper more v).or (upper rows v) := by
  induction rows with
  | nil => simp [upper]
  | cons r rest ih => rw [List.cons_append, upper, ih, upper, Option.or_assoc]

theorem upper_eq_none {rows : List (Relation V)} {v : V} (absent : ∀ r ∈ rows, r.Mentions v = false) :
    upper rows v = none := by
  induction rows with
  | nil => rfl
  | cons r rest ih =>
    have unread : (r.bound.bind fun bound => if bound.1 = v then some bound.2 else none) = none := by
      cases read : r.bound with
      | none => rfl
      | some bound =>
        have other : bound.1 ≠ v := by
          rintro rfl
          have mentioned := Relation.bound_mentions read
          rw [absent r List.mem_cons_self] at mentioned
          exact Bool.noConfusion mentioned
        simp [other]
    rw [upper, ih fun other member => absent other (List.mem_cons_of_mem _ member), unread]
    rfl

/-- Where the relations share no variable, each bound stands. -/
theorem upper_of_disjoint {rows : List (Relation V)}
    (disjoint : rows.Pairwise fun r r' => ∀ v, r.Mentions v = true → r'.Mentions v = false) {r : Relation V} {v : V}
    {limit : ℚ} (member : r ∈ rows) (read : r.bound = some (v, limit)) : upper rows v = some limit := by
  induction rows with
  | nil => exact absurd member List.not_mem_nil
  | cons first rest ih =>
    obtain ⟨apart, tail⟩ := List.pairwise_cons.mp disjoint
    rcases List.mem_cons.mp member with rfl | later
    · rw [upper, upper_eq_none fun other otherMember => apart other otherMember v (Relation.bound_mentions read), read]
      simp
    · rw [upper, ih tail later]
      rfl

theorem upper_eq_some {rows : List (Relation V)} {v : V} {limit : ℚ} (found : upper rows v = some limit) :
    ∃ r ∈ rows, r.bound = some (v, limit) := by
  induction rows with
  | nil => cases found
  | cons first rest ih =>
    rw [upper, Option.or_eq_some_iff] at found
    rcases found with later | ⟨-, here⟩
    · obtain ⟨r, member, read⟩ := ih later
      exact ⟨r, List.mem_cons_of_mem _ member, read⟩
    · obtain ⟨⟨w, bound⟩, read, chosen⟩ := Option.bind_eq_some_iff.mp here
      simp only [Option.ite_none_right_eq_some, Option.some.injEq] at chosen
      obtain ⟨rfl, rfl⟩ := chosen
      exact ⟨first, List.mem_cons_self, read⟩

end Cdo.LinearProgram
