import Mathlib

/-!
Runs of labelled transition systems. A run takes the steps of a list of labels
in order (`Run`). What every step keeps, a run keeps (`Run.invariant`), and a run
is one of another system if its steps are steps of it as long as a property holds
(`Run.restrict`). A property that holds at the end of a run has held all along, or
there is a last step that brought it about (`Run.last_entered`).
-/
namespace Cdo.Transitions
variable {σ ε : Type*}

/-- Which states a step with a label leads to. -/
abbrev System (σ ε : Type*) := σ → ε → σ → Prop

inductive Run (step : System σ ε) : σ → List ε → σ → Prop
  | nil (s : σ) : Run step s [] s
  | cons {s t u : σ} {e : ε} {es : List ε} (first : step s e t) (rest : Run step t es u) : Run step s (e :: es) u

theorem Run.mono {step other : System σ ε} {s t : σ} {es : List ε} (steps : ∀ {s e t}, step s e t → other s e t)
    (run : Run step s es t) : Run other s es t := by
  induction run with
  | nil s => exact .nil s
  | cons first rest ih => exact .cons (steps first) ih

/-- The system of a function. -/
def ofFunction (f : σ → ε → σ) : System σ ε := fun s e t => t = f s e

/-- The steps between states that have a property. -/
def within (P : σ → Prop) (step : System σ ε) : System σ ε := fun s e t => step s e t ∧ P s ∧ P t

/-- A step of a run, with what went before it and what follows. -/
structure Occurrence (step : System σ ε) (s : σ) (es : List ε) (t : σ) where
  before : List ε
  label : ε
  later : List ε
  source : σ
  target : σ
  split : es = before ++ label :: later
  reached : Run step s before source
  taken : step source label target
  rest : Run step target later t

/-- The same step in a run that begins earlier. -/
def Occurrence.after {step : System σ ε} {s t u : σ} {e : ε} {es : List ε} (o : Occurrence step t es u)
    (first : step s e t) : Occurrence step s (e :: es) u where
  before := e :: o.before
  label := o.label
  later := o.later
  source := o.source
  target := o.target
  split := congrArg (List.cons e) o.split
  reached := .cons first o.reached
  taken := o.taken
  rest := o.rest

/-- A step of a run of one system in a run of another that has its steps. -/
def Occurrence.mono {step other : System σ ε} {s t : σ} {es : List ε} (steps : ∀ {s e t}, step s e t → other s e t)
    (o : Occurrence step s es t) : Occurrence other s es t where
  before := o.before
  label := o.label
  later := o.later
  source := o.source
  target := o.target
  split := o.split
  reached := o.reached.mono steps
  taken := steps o.taken
  rest := o.rest.mono steps

section
variable {step : System σ ε} {s t u : σ} {e : ε} {es : List ε}

theorem run_nil : Run step s [] t ↔ t = s :=
  ⟨fun run => by cases run; rfl, fun same => by cases same; exact .nil s⟩

theorem run_cons : Run step s (e :: es) u ↔ ∃ t, step s e t ∧ Run step t es u := by
  constructor
  · intro run
    cases run with
    | cons first rest => exact ⟨_, first, rest⟩
  · rintro ⟨t, first, rest⟩
    exact .cons first rest

theorem run_ofFunction {f : σ → ε → σ} : Run (ofFunction f) s es t ↔ t = es.foldl f s := by
  induction es generalizing s with
  | nil => exact run_nil
  | cons e es ih => simp [run_cons, ofFunction, ih]

/-! ### Invariants -/

theorem Run.invariant {P : σ → Prop} (kept : ∀ {s e t}, e ∈ es → P s → step s e t → P t) (run : Run step s es t)
    (start : P s) : P t := by
  induction run with
  | nil s => exact start
  | cons first rest ih =>
    exact ih (fun member => kept (List.mem_cons_of_mem _ member)) (kept List.mem_cons_self start first)

/-- A run is one of a system that has its steps as long as a property holds. -/
theorem Run.restrict {P : σ → Prop} {other : System σ ε}
    (steps : ∀ {s e t}, e ∈ es → P s → step s e t → P t ∧ other s e t) (run : Run step s es t) (start : P s) :
    Run other s es t := by
  induction run with
  | nil s => exact .nil s
  | cons first rest ih =>
    obtain ⟨next, taken⟩ := steps List.mem_cons_self start first
    exact .cons taken (ih (fun member => steps (List.mem_cons_of_mem _ member)) next)

/-- Each label of a run has been the label of a step. -/
theorem Run.step_of_mem (run : Run step s es t) (member : e ∈ es) : ∃ m n, step m e n := by
  induction run with
  | nil s => exact absurd member List.not_mem_nil
  | cons first rest ih =>
    rcases List.mem_cons.mp member with rfl | later
    · exact ⟨_, _, first⟩
    · exact ih later

/-! ### When a property came about -/

/-- A property that holds at the end of a run has held all along or was brought
    about by a last step, after which it has held. -/
theorem Run.last_entered (P : σ → Prop) (run : Run step s es t) (holds : P t) :
    Run (within P step) s es t ∨
      ∃ last : Occurrence step s es t, ¬ P last.source ∧ P last.target ∧ Run (within P step) last.target last.later t := by
  induction run with
  | nil s => exact .inl (.nil s)
  | @cons s t u e es first rest ih =>
    rcases ih holds with all | ⟨last, unlike, like, since⟩
    · have next : P t := by
        cases all with
        | nil => exact holds
        | cons taken => exact taken.2.1
      by_cases already : P s
      · exact .inl (.cons ⟨first, already, next⟩ all)
      · exact .inr ⟨⟨[], e, es, s, t, rfl, .nil s, first, rest⟩, already, next, all⟩
    · exact .inr ⟨last.after first, unlike, like, since⟩

end

end Cdo.Transitions
