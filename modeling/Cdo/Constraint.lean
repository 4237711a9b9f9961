import Cdo.Objective

/-!
The budget rows of the hourly linear program (`LP_Constraint` of `CDO.pm`): for
each campaign of `campConfig` that has variables, their spend held to the
campaign's budget in the hour. `campConfig` holds the optimised campaigns that
are also served through the API, the cell table the cells of all optimised
campaigns; a variable whose campaign is not served through the API stands in no
budget row (`budget_row_iff`).
-/
namespace Cdo.Constraint
open Cdo.Text Cdo.Query Cdo.Tables Cdo.Params Cdo.Signals Cdo.LinearProgram Cdo.Objective

def budgetTerms (budgetConstraint : SortedMap Str (SortedMap Str ℚ)) (san : Str) : List (ℚ × Str) :=
  match budgetConstraint.get? san with
  | some vars => vars.entries.map Prod.swap
  | none => []

section
variable (budgetConstraint : SortedMap Str (SortedMap Str ℚ)) (config : SortedMap Str (Option Int))
  (b : SortedMap Str BudgetSignal) (n : SortedMap Nat BudgetSignal) (hour : Nat)

/-- The rows of the constraint file, each with its campaign, for the campaigns
    in the order given. -/
def lpConstraint : List Str → Option (List (Str × Relation Str))
  | [] => some []
  | san :: rest =>
    -- if no cells for san, no constraint
    if budgetTerms budgetConstraint san = [] then lpConstraint rest
    else
      (budgetAmount (config.get? san).join b n san hour).bind fun amount =>
        (lpConstraint rest).map fun rows => (san, ⟨budgetTerms budgetConstraint san, some amount⟩) :: rows

variable {budgetConstraint config b n hour}

theorem mem_budgetTerms {san v : Str} {a : ℚ} :
    (a, v) ∈ budgetTerms budgetConstraint san ↔ budgetConstraint.getAt? san v = some a := by
  unfold budgetTerms SortedMap.getAt?
  cases budgetConstraint.get? san with
  | none => simp
  | some vars =>
    rw [Option.bind_some, ← SortedMap.mem_entries]
    constructor
    · intro member
      obtain ⟨⟨v', a'⟩, entry, swapped⟩ := List.mem_map.mp member
      obtain ⟨rfl, rfl⟩ := Prod.mk.inj swapped
      exact entry
    · intro entry
      exact List.mem_map.mpr ⟨(v, a), entry, rfl⟩

theorem nodup_budgetTerms (san : Str) : ((budgetTerms budgetConstraint san).map Prod.snd).Nodup := by
  unfold budgetTerms
  cases budgetConstraint.get? san with
  | none => exact List.nodup_nil
  | some vars => simpa [Function.comp_def, SortedMap.keys] using vars.nodup_keys

theorem mem_lpConstraint {sans : List Str} {rows : List (Str × Relation Str)}
    (printed : lpConstraint budgetConstraint config b n hour sans = some rows) {san : Str} {r : Relation Str} :
    (san, r) ∈ rows ↔ san ∈ sans ∧ budgetTerms budgetConstraint san ≠ [] ∧
      ∃ amount, budgetAmount (config.get? san).join b n san hour = some amount ∧
        r = ⟨budgetTerms budgetConstraint san, some amount⟩ := by
  induction sans generalizing rows with
  | nil =>
    obtain rfl := Option.some.inj printed
    simp
  | cons first rest ih =>
    rw [lpConstraint] at printed
    split_ifs at printed with empty
    · rw [ih printed, List.mem_cons]
      constructor
      · rintro ⟨member, facts⟩
        exact ⟨.inr member, facts⟩
      · rintro ⟨rfl | member, nonempty, facts⟩
        · exact absurd empty nonempty
        · exact ⟨member, nonempty, facts⟩
    · obtain ⟨amount, budget, after⟩ := Option.bind_eq_some_iff.mp printed
      obtain ⟨others, tail, rfl⟩ := Option.map_eq_some_iff.mp after
      rw [List.mem_cons, List.mem_cons, ih tail, Prod.mk.injEq]
      constructor
      · rintro (⟨rfl, rfl⟩ | ⟨member, facts⟩)
        · exact ⟨.inl rfl, empty, amount, budget, rfl⟩
        · exact ⟨.inr member, facts⟩
      · rintro ⟨rfl | member, nonempty, amount', budget', rfl⟩
        · rw [budget] at budget'
          exact .inl ⟨rfl, by rw [Option.some.inj budget']⟩
        · exact .inr ⟨member, nonempty, amount', budget', rfl⟩

/-- A campaign with variables has an amount, or the run would have stopped. -/
theorem amount_of_printed {sans : List Str} {rows : List (Str × Relation Str)}
    (printed : lpConstraint budgetConstraint config b n hour sans = some rows) {san : Str} (listed : san ∈ sans)
    (nonempty : budgetTerms budgetConstraint san ≠ []) :
    ∃ amount, budgetAmount (config.get? san).join b n san hour = some amount := by
  induction sans generalizing rows with
  | nil => exact absurd listed List.not_mem_nil
  | cons first rest ih =>
    rw [lpConstraint] at printed
    split_ifs at printed with empty
    · rcases List.mem_cons.mp listed with rfl | later
      · exact absurd empty nonempty
      · exact ih printed later
    · obtain ⟨amount, budget, after⟩ := Option.bind_eq_some_iff.mp printed
      obtain ⟨others, tail, -⟩ := Option.map_eq_some_iff.mp after
      rcases List.mem_cons.mp listed with rfl | later
      · exact ⟨amount, budget⟩
      · exact ih tail later

theorem sans_lpConstraint {sans : List Str} {rows : List (Str × Relation Str)}
    (printed : lpConstraint budgetConstraint config b n hour sans = some rows) : (rows.map Prod.fst).Sublist sans := by
  induction sans generalizing rows with
  | nil =>
    obtain rfl := Option.some.inj printed
    exact List.Sublist.refl []
  | cons first rest ih =>
    rw [lpConstraint] at printed
    split_ifs at printed with empty
    · exact (ih printed).cons first
    · obtain ⟨amount, -, after⟩ := Option.bind_eq_some_iff.mp printed
      obtain ⟨others, tail, rfl⟩ := Option.map_eq_some_iff.mp after
      exact (ih tail).cons_cons first

theorem nodup_lpConstraint {order : config.Listing} {rows : List (Str × Relation Str)}
    (printed : lpConstraint budgetConstraint config b n hour order.keys = some rows) : rows.Nodup :=
  List.Nodup.of_map Prod.fst ((sans_lpConstraint printed).nodup (SortedMap.Listing.nodup config order))

end

def lpRows (d : RunData) (hour : Nat) (cells : SortedMap Str Cell) (config : SortedMap Str (Option Int))
    (b : SortedMap Str BudgetSignal) (n : SortedMap Nat BudgetSignal) (order : config.Listing) :
    Option (LpHashes × List (Str × Relation Str)) :=
  (lpObj d hour cells).bind fun h =>
    (lpConstraint h.budgetConstraint config b n hour order.keys).map fun rows => (h, rows)

/-! ### The budget row of a variable -/

section
variable {d : RunData} {hour : Nat} {cells : SortedMap Str Cell} {h : LpHashes} {config : SortedMap Str (Option Int)}
  {b : SortedMap Str BudgetSignal} {n : SortedMap Nat BudgetSignal} {order : config.Listing}
  {rows : List (Str × Relation Str)} {c : Cell} {k : Coefficients}

theorem lpRows_eq_some : lpRows d hour cells config b n order = some (h, rows) ↔
    lpObj d hour cells = some h ∧ lpConstraint h.budgetConstraint config b n hour order.keys = some rows := by
  simp only [lpRows, Option.bind_eq_some_iff, Option.map_eq_some_iff, Prod.mk.injEq]
  constructor
  · rintro ⟨h', run, rows', printed, rfl, rfl⟩
    exact ⟨run, printed⟩
  · rintro ⟨run, printed⟩
    exact ⟨h, run, rows, printed, rfl, rfl⟩

/-- A row that mentions the variable of a cell is the row of the cell's campaign. -/
theorem own_campaign (run : lpObj d hour cells = some h)
    (printed : lpConstraint h.budgetConstraint config b n hour order.keys = some rows) {row : Str × Relation Str}
    (member : row ∈ rows) (mentions : row.2.Mentions (lpVarMain c) = true) : row.1 = c.san := by
  obtain ⟨-, -, amount, -, same⟩ := (mem_lpConstraint printed).mp member
  obtain ⟨a, term⟩ := Relation.mentions_iff.mp mentions
  rw [same] at term
  obtain ⟨c', k', -, san, names, -⟩ := budget_some run (mem_budgetTerms.mp term)
  rw [← san]
  exact (lpVarMain_injective names).1

theorem budget_row (run : lpObj d hour cells = some h)
    (printed : lpConstraint h.budgetConstraint config b n hour order.keys = some rows) (enters : Enters d hour cells c k)
    {r : Relation Str} (member : (c.san, r) ∈ rows) :
    r.Mentions (lpVarMain c) = true ∧ r.coeff (lpVarMain c) = k.spend := by
  obtain ⟨-, -, amount, -, rfl⟩ := (mem_lpConstraint printed).mp member
  have term := mem_budgetTerms.mpr (budget_of_enters run enters)
  exact ⟨Relation.mentions_iff.mpr ⟨_, term⟩, Relation.coeff_of_mem (nodup_budgetTerms c.san) term⟩

/-- A campaign of `campConfig` with a cell that enters has a budget row. -/
theorem budget_row_exists (run : lpObj d hour cells = some h)
    (printed : lpConstraint h.budgetConstraint config b n hour order.keys = some rows) (enters : Enters d hour cells c k)
    {totalbudget : Option Int} (listed : config.get? c.san = some totalbudget) : ∃ r, (c.san, r) ∈ rows := by
  have inOrder : c.san ∈ order.keys := order.mem_keys.mpr ⟨totalbudget, listed⟩
  have nonempty : budgetTerms h.budgetConstraint c.san ≠ [] :=
    List.ne_nil_of_mem (mem_budgetTerms.mpr (budget_of_enters run enters))
  obtain ⟨amount, budget⟩ := amount_of_printed printed inOrder nonempty
  exact ⟨_, (mem_lpConstraint printed).mpr ⟨inOrder, nonempty, amount, budget, rfl⟩⟩

end

theorem campConfig_get?_iff {net : Network} {san : Str} :
    (∃ totalbudget, (campConfig net).get? san = some totalbudget) ↔
      ∃ camp ∈ net.campaign, camp.san = san ∧ camp.usepoe = some 1 ∧ camp.isapi = some 1 := by
  constructor
  · rintro ⟨totalbudget, found⟩
    obtain ⟨camp, member, rfl, -⟩ := SortedMap.get?_ofRows_some found
    obtain ⟨campMember, flags⟩ := List.mem_filter.mp member
    simp only [Bool.and_eq_true, beq_iff_eq] at flags
    exact ⟨camp, campMember, rfl, flags⟩
  · rintro ⟨camp, member, rfl, used, api⟩
    exact SortedMap.get?_ofRows_mem Campaign.san Campaign.totalbudget (List.mem_filter.mpr ⟨member, by simp [used, api]⟩)

/-- A variable of the objective stands, with a positive coefficient, in the
    budget row of its campaign and in no other exactly if the campaign has a row
    that is optimised and served through the API, and the cell's factors have a
    positive product. -/
theorem budget_row_iff (net : Network) (qhat : Cell → Option ℚ) (d : RunData) (hour : Nat)
    (b : SortedMap Str BudgetSignal) (n : SortedMap Nat BudgetSignal) (order : (campConfig net).Listing) (h : LpHashes)
    (rows : List (Str × Relation Str)) (emitted : lpRows d hour (getCellData net qhat) (campConfig net) b n order =
      some (h, rows)) :
    ∀ a v, (a, v) ∈ objective h → ∃ key c imp_factor,
      (getCellData net qhat).get? key = some c ∧ lpVarMain c = v ∧ impFactor d hour c = some imp_factor ∧
      ((∃ r, rows.filter (fun row => row.2.Mentions v) = [(c.san, r)] ∧ 0 < r.coeff v) ↔
        (∃ camp ∈ net.campaign, camp.san = c.san ∧ camp.usepoe = some 1 ∧ camp.isapi = some 1) ∧
          0 < imp_factor * mdFactor d c) := by
  intro a v member
  obtain ⟨run, printed⟩ := lpRows_eq_some.mp emitted
  obtain ⟨c, k, enters, rfl, -⟩ := mem_objective run member
  obtain ⟨key, found⟩ := enters.1
  obtain ⟨spends, -, imp_factor, imp, coefficients⟩ := coefficients_eq_some.mp enters.2
  refine ⟨key, c, imp_factor, found, rfl, imp, ?_⟩
  have sign : 0 < k.spend ↔ 0 < imp_factor * mdFactor d c := by
    rw [coefficients]
    show 0 < (costIn d c).espend * imp_factor * mdFactor d c ↔ _
    rw [mul_assoc]
    exact mul_pos_iff_of_pos_left spends
  rw [← campConfig_get?_iff]
  constructor
  · rintro ⟨r, only, positive⟩
    have listed : (c.san, r) ∈ rows := List.mem_of_mem_filter (only ▸ List.mem_singleton_self _)
    obtain ⟨inOrder, -⟩ := (mem_lpConstraint printed).mp listed
    rw [(budget_row run printed enters listed).2] at positive
    exact ⟨order.mem_keys.mp inOrder, sign.mp positive⟩
  · rintro ⟨⟨totalbudget, listed⟩, positive⟩
    obtain ⟨r, rowMember⟩ := budget_row_exists run printed enters listed
    obtain ⟨mentions, coefficient⟩ := budget_row run printed enters rowMember
    refine ⟨r, ?_, coefficient ▸ sign.mpr positive⟩
    refine filter_eq_singleton (nodup_lpConstraint printed) rowMember mentions ?_
    rintro ⟨san, other⟩ otherMember otherMentions
    obtain rfl := own_campaign run printed otherMember otherMentions
    obtain ⟨-, -, amount, budget, rfl⟩ := (mem_lpConstraint printed).mp rowMember
    obtain ⟨-, -, amount', budget', rfl⟩ := (mem_lpConstraint printed).mp otherMember
    rw [budget] at budget'
    rw [Option.some.inj budget']

/-! ### A campaign that is not served through the API -/

/-- A network with one priced cell, whose campaign has the given flag. -/
def withApi (isapi : Int) : Network where
  campaign := [⟨"auo".toList, 1, some 100, some 1, some isapi, some 3⟩]
  media := (onSegment 5).media
  cdoCells := (onSegment 5).cdoCells
  campaign_key := by simp
  media_key := (onSegment 5).media_key
  cdoCells_key := (onSegment 5).cdoCells_key

def oneHour : SortedMap Nat ImpSignal := SortedMap.ofRows (fun _ => 3) (fun _ => ⟨some 10, some 100⟩) [()]

def budgetHour : SortedMap Nat BudgetSignal := SortedMap.ofRows (fun _ => 3) (fun _ => ⟨some 10, some 100⟩) [()]

/-- The prices of `priced` under the cap of `campaignCap`. -/
def pricedRun (isapi : Int) : RunData where
  cost := (getCostData (priced 5)).1
  costAvg := (getCostData (priced 5)).2
  siteSegSignal := SortedMap.empty
  networkSignal := oneHour
  cellMaxAlpha := cellMaxAlpha (withApi isapi) campaignCap
  campaignMaxAlpha := campaignMaxAlpha (withApi isapi) campaignCap
  cellMdFactors := SortedMap.empty
  siteSegMdFactors := SortedMap.empty

def sortedOrder {κ α : Type} [LinearOrder κ] (m : SortedMap κ α) : m.Listing := ⟨m.keys, List.Perm.refl _⟩

def emittedWith (isapi : Int) : Option (LpHashes × List (Str × Relation Str)) :=
  lpRows (pricedRun isapi) 3 (getCellData (withApi isapi) fun _ => some (1 / 100)) (campConfig (withApi isapi))
    SortedMap.empty budgetHour (sortedOrder _)

theorem budget_row_of_api_campaign :
    ∃ h rows, emittedWith 1 = some (h, rows) ∧ ∀ a v, (a, v) ∈ objective h → ∃ key c imp_factor,
      (getCellData (withApi 1) fun _ => some (1 / 100)).get? key = some c ∧ lpVarMain c = v ∧
      impFactor (pricedRun 1) 3 c = some imp_factor ∧
      ((∃ r, rows.filter (fun row => row.2.Mentions v) = [(c.san, r)] ∧ 0 < r.coeff v) ↔
        (∃ camp ∈ (withApi 1).campaign, camp.san = c.san ∧ camp.usepoe = some 1 ∧ camp.isapi = some 1) ∧
          0 < imp_factor * mdFactor (pricedRun 1) c) := by
  have emits : (emittedWith 1).isSome = true := by decide +kernel
  obtain ⟨⟨h, rows⟩, emitted⟩ := Option.isSome_iff_exists.mp emits
  exact ⟨h, rows, emitted, budget_row_iff (withApi 1) _ (pricedRun 1) 3 _ _ _ h rows emitted⟩

/-- The cell of a campaign that is not served through the API is in the
    objective, and there is no budget row. -/
theorem optimised_without_budget :
    ∃ h rows, emittedWith 0 = some (h, rows) ∧ (∃ a v, (a, v) ∈ objective h) ∧ rows = [] := by
  have computed : (emittedWith 0).map (fun printed => ((objective printed.1).length, printed.2.length)) =
      some (1, 0) := by decide +kernel
  obtain ⟨⟨h, rows⟩, emitted, counts⟩ := Option.map_eq_some_iff.mp computed
  obtain ⟨terms, empty⟩ := Prod.mk.inj counts
  obtain ⟨⟨a, v⟩, only⟩ := List.length_eq_one_iff.mp terms
  exact ⟨h, rows, emitted, ⟨a, v, by simp [only]⟩, List.length_eq_zero_iff.mp empty⟩

end Cdo.Constraint
