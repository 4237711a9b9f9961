import Cdo.Transitions

/-!
The life of an item that a server reports and removes and that a directory is
kept of. A report may bring in an item that is unknown, at a place that it lists
the item at; it leaves a known item alone, also a removed one. An update forgets
the removed items. So an item that is live has been reported while it was unknown
and not removed since (`live_since`), and a removed item is live again only after
an update and a report that follows it (`removed_until`).
-/
namespace Cdo.LifeCycle
open Cdo.Transitions
variable {π : Type*}

/-- Where an item stands: a known item has a place, and it is new as long as no
    update has passed since it was reported as new. -/
inductive Life (π : Type*) where
  | unknown
  | live (place : π) (new : Bool)
  | removed (place : π) (new : Bool)
deriving DecidableEq

/-- What an operation means for one item. -/
inductive Event (π : Type*) where
  | idle
  | reported (places : List π) (new : Bool)
  | removed
  | updated

def Life.remove : Life π → Life π
  | .live place new => .removed place new
  | life => life

def Life.update : Life π → Life π
  | .live place _ => .live place false
  | _ => .unknown

def Life.IsNew : Life π → Prop
  | .unknown => False
  | .live _ new => new = true
  | .removed _ new => new = true

def lifeStep : System (Life π) (Event π) := fun life event after =>
  match event with
  | .idle => after = life
  | .reported places new => after = life ∨ life = .unknown ∧ ∃ place ∈ places, after = .live place new
  | .removed => after = life.remove
  | .updated => after = life.update

def Life.LiveAt (place : π) (life : Life π) : Prop := ∃ new, life = .live place new

section
variable {life after : Life π} {event : Event π} {place : π}

/-- A step that makes an item live is a report of the unknown item. -/
theorem liveAt_entered (taken : lifeStep life event after) (unlike : ¬ life.LiveAt place) (live : after.LiveAt place) :
    life = .unknown ∧ ∃ places new, place ∈ places ∧ event = .reported places new ∧ after = .live place new := by
  obtain ⟨new, rfl⟩ := live
  cases event with
  | idle => exact absurd ⟨new, Eq.symm taken⟩ unlike
  | reported places isNew =>
    rcases taken with same | ⟨isUnknown, other, member, arrived⟩
    · exact absurd ⟨new, same.symm⟩ unlike
    · cases arrived
      exact ⟨isUnknown, places, new, member, rfl, rfl⟩
  | removed => cases life <;> simp [lifeStep, Life.remove] at taken
  | updated =>
    cases life with
    | live other before =>
      simp only [lifeStep, Life.update, Life.live.injEq] at taken
      exact absurd ⟨before, by rw [taken.1]⟩ unlike
    | unknown => simp [lifeStep, Life.update] at taken
    | removed => simp [lifeStep, Life.update] at taken

/-- A step between lives of an item that is live does not remove it, and keeps it
    new unless it is an update. -/
theorem liveAt_kept {before new : Bool} (taken : lifeStep (.live place before) event (.live place new)) :
    event ≠ .removed ∧ (new = true ↔ before = true ∧ event ≠ .updated) := by
  cases event with
  | idle => cases taken; simp
  | reported places _ =>
    rcases taken with same | ⟨isUnknown, -⟩
    · cases same; simp
    · cases isUnknown
  | removed => simp [lifeStep, Life.remove] at taken
  | updated => cases taken; simp

theorem removed_kept (taken : lifeStep life event after) (removed : ∃ new, life = .removed place new)
    (notUpdated : event ≠ .updated) : ∃ new, after = .removed place new := by
  obtain ⟨new, rfl⟩ := removed
  cases event with
  | idle => exact ⟨new, taken⟩
  | reported places _ =>
    rcases taken with same | ⟨isUnknown, -⟩
    · exact ⟨new, same⟩
    · cases isUnknown
  | removed => exact ⟨new, taken⟩
  | updated => exact absurd rfl notUpdated

theorem isNew_entered (taken : lifeStep life event after) (unlike : ¬ life.IsNew) (isNew : after.IsNew) :
    life = .unknown ∧ ∃ places, event = .reported places true := by
  cases event with
  | idle => cases taken; exact absurd isNew unlike
  | reported places asNew =>
    rcases taken with same | ⟨isUnknown, place, -, arrived⟩
    · cases same; exact absurd isNew unlike
    · subst arrived
      have asNewTrue : asNew = true := isNew
      exact ⟨isUnknown, places, by rw [asNewTrue]⟩
  | removed =>
    cases taken
    cases life with
    | unknown => exact absurd isNew unlike
    | live => exact absurd isNew unlike
    | removed => exact absurd isNew unlike
  | updated =>
    cases taken
    cases life with
    | unknown => exact absurd isNew id
    | live => exact absurd isNew Bool.false_ne_true
    | removed => exact absurd isNew id

/-- A new item stays new exactly if there is no update. -/
theorem isNew_kept (taken : lifeStep life event after) (isNew : life.IsNew) : after.IsNew ↔ event ≠ .updated := by
  cases event with
  | idle => cases taken; simp [isNew]
  | reported places _ =>
    rcases taken with same | ⟨isUnknown, -⟩
    · cases same; simp [isNew]
    · cases isUnknown; exact absurd isNew id
  | removed =>
    cases taken
    cases life with
    | unknown => exact absurd isNew id
    | live => simpa [Life.remove, Life.IsNew] using isNew
    | removed => simpa [Life.remove, Life.IsNew] using isNew
  | updated => cases taken; cases life <;> simp [Life.update, Life.IsNew]

end

/-! ### Runs of a system in which an item lives -/

/-- The steps of a system do to an item what the events of its life do. -/
def Lives {σ ε : Type*} (step : System σ ε) (look : σ → Life π) (name : ε → Event π) : Prop :=
  ∀ ⦃s e t⦄, step s e t → lifeStep (look s) (name e) (look t)

section
variable {σ ε : Type*} {step : System σ ε} {look : σ → Life π} {name : ε → Event π} (lives : Lives step look name)
  {s t : σ} {es : List ε} {place : π} {new : Bool}
include lives

/-- While an item is live it is not removed, and it is new until an update. -/
theorem live_within (run : Run (within (fun s => (look s).LiveAt place) step) s es t) {before : Bool}
    (start : look s = .live place before) (finish : look t = .live place new) :
    (∀ e ∈ es, name e ≠ .removed) ∧ (new = true ↔ before = true ∧ ∀ e ∈ es, name e ≠ .updated) := by
  induction run generalizing before with
  | nil s =>
    cases start.symm.trans finish
    simp
  | @cons s t u e es first rest ih =>
    obtain ⟨taken, -, between, isBetween⟩ := first
    obtain ⟨unremoved, isNew⟩ := ih isBetween finish
    have kept := lives taken
    rw [start, isBetween] at kept
    obtain ⟨notRemoved, newBetween⟩ := liveAt_kept kept
    simp only [List.forall_mem_cons, isNew, newBetween, and_assoc]
    exact ⟨notRemoved, unremoved, trivial⟩

/-- A live item has been live all along, or it was reported while it was unknown;
    it has not been removed since, and it is new if it was reported as new and no
    update has passed. -/
theorem live_since (run : Run step s es t) (live : look t = .live place new) :
    (∃ before, look s = .live place before ∧ (∀ e ∈ es, name e ≠ .removed) ∧
        (new = true ↔ before = true ∧ ∀ e ∈ es, name e ≠ .updated)) ∨
      ∃ (report : Occurrence step s es t) (places : List π) (asNew : Bool), look report.source = .unknown ∧
        name report.label = .reported places asNew ∧ place ∈ places ∧ (∀ e ∈ report.later, name e ≠ .removed) ∧
        (new = true ↔ asNew = true ∧ ∀ e ∈ report.later, name e ≠ .updated) := by
  rcases run.last_entered (fun s => (look s).LiveAt place) ⟨new, live⟩ with all | ⟨report, unlike, isLive, since⟩
  · have start : (look s).LiveAt place := by
      cases all with
      | nil => exact ⟨new, live⟩
      | cons first => exact first.2.1
    obtain ⟨before, isLive⟩ := start
    exact .inl ⟨before, isLive, live_within lives all isLive live⟩
  · obtain ⟨isUnknown, places, asNew, member, isReport, arrived⟩ :=
      liveAt_entered (lives report.taken) unlike isLive
    exact .inr ⟨report, places, asNew, isUnknown, isReport, member, live_within lives since arrived live⟩

/-- A removed item is live again only after an update and, later, a report of the
    unknown item after which it has not been removed. -/
theorem removed_until (run : Run step s es t) {last : π} {isNew : Bool} (start : look s = .removed last isNew)
    (live : look t = .live place new) :
    ∃ (report : Occurrence step s es t) (places : List π) (asNew : Bool), (∃ e ∈ report.before, name e = .updated) ∧
      look report.source = .unknown ∧ name report.label = .reported places asNew ∧ place ∈ places ∧
      ∀ e ∈ report.later, name e ≠ .removed := by
  rcases live_since lives run live with ⟨before, same, -⟩ | ⟨report, places, asNew, isUnknown, isReport, member,
    unremoved, -⟩
  · cases start.symm.trans same
  · refine ⟨report, places, asNew, ?_, isUnknown, isReport, member, unremoved⟩
    by_contra none
    obtain ⟨_, stays⟩ := report.reached.invariant (P := fun s => ∃ new, look s = .removed last new)
      (fun member before taken => removed_kept (lives taken) before fun isUpdate => none ⟨_, member, isUpdate⟩)
      ⟨isNew, start⟩
    cases isUnknown.symm.trans stays

/-- The new items are those that were new before or came in by a report of new
    items, with no update since. -/
theorem isNew_iff (run : Run step s es t) :
    (look t).IsNew ↔ (look s).IsNew ∧ (∀ e ∈ es, name e ≠ .updated) ∨
      ∃ report : Occurrence step s es t, look report.source = .unknown ∧ look report.target ≠ .unknown ∧
        (∃ places, name report.label = .reported places true) ∧ ∀ e ∈ report.later, name e ≠ .updated := by
  have noUpdate : ∀ {s t es}, Run (within (fun s => (look s).IsNew) step) s es t → ∀ e ∈ es, name e ≠ .updated := by
    intro s t es since e member
    obtain ⟨m, n, taken, isNew, stays⟩ := since.step_of_mem member
    exact (isNew_kept (lives taken) isNew).mp stays
  have stays : ∀ {s t es}, Run step s es t → (look s).IsNew → (∀ e ∈ es, name e ≠ .updated) → (look t).IsNew :=
    fun run start notUpdated => run.invariant (P := fun s => (look s).IsNew)
      (fun member isNew taken => (isNew_kept (lives taken) isNew).mpr (notUpdated _ member)) start
  constructor
  · intro isNew
    rcases run.last_entered (fun s => (look s).IsNew) isNew with all | ⟨report, unlike, isNow, since⟩
    · have start : (look s).IsNew := by
        cases all with
        | nil => exact isNew
        | cons first => exact first.2.1
      exact .inl ⟨start, noUpdate all⟩
    · obtain ⟨isUnknown, places, isReport⟩ := isNew_entered (lives report.taken) unlike isNow
      refine .inr ⟨report, isUnknown, ?_, ⟨places, isReport⟩, noUpdate since⟩
      intro unknown
      rw [unknown] at isNow
      exact isNow
  · rintro (⟨isNew, notUpdated⟩ | ⟨report, unknown, known, ⟨places, isReport⟩, notUpdated⟩)
    · exact stays run isNew notUpdated
    · refine stays report.rest ?_ notUpdated
      have taken := lives report.taken
      rw [isReport] at taken
      rcases taken with same | ⟨-, place, -, arrived⟩
      · exact absurd (same.trans unknown) known
      · rw [arrived]
        exact rfl

end

end Cdo.LifeCycle
