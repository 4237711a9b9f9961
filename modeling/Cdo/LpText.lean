import Cdo.WellPosed

/-!
The program as the solver reads it. `lp_main.lp` holds the objective, the budget
rows and the allocation rows, in this order and without labels, and the solver
takes a row with one variable for a bound that replaces an earlier bound. The
allocation rows survive this reading (`allocationRow_holds`). So do the budget
rows of campaigns with several variables; the budget row of a campaign with one
variable is replaced by the allocation row of that variable, which limits the
spend only where the limit itself costs no more than the budget
(`budget_survives_iff`).
-/
namespace Cdo.LpText
open Cdo.Text Cdo.Query Cdo.Tables Cdo.Params Cdo.Signals Cdo.LinearProgram Cdo.Objective Cdo.Constraint Cdo.WellPosed

variable {d : RunData} {hour : Nat} {cells : SortedMap Str Cell} {h : LpHashes} {config : SortedMap Str (Option Int)}
  {b : SortedMap Str BudgetSignal} {n : SortedMap Nat BudgetSignal} {order : config.Listing}
  {rows : List (Str × Relation Str)} {c : Cell} {k : Coefficients} {x : Str → ℚ}

/-- The number that limits the allocation of a cell. -/
def limitOf (d : RunData) (c : Cell) : Option ℚ :=
  match d.cellMaxAlpha.get? (lpVarMain c) with
  | some allocation => capLimit allocation
  | none => campaignLimit d c.san

/-- Some cap that is printed is negative or missing, so that no allocation meets
    the program. -/
def Unmeetable (d : RunData) (hour : Nat) (cells : SortedMap Str Cell) : Prop :=
  (∃ name allocation, d.cellMaxAlpha.get? name = some allocation ∧ ¬ CapNonneg allocation) ∨
  ∃ c k allocation, Enters d hour cells c k ∧ d.cellMaxAlpha.get? (lpVarMain c) = none ∧
    d.campaignMaxAlpha.get? c.san = some allocation ∧ ¬ CapNonneg allocation

/-- No other cell of its campaign enters. -/
def Alone (d : RunData) (hour : Nat) (cells : SortedMap Str Cell) (c : Cell) : Prop :=
  ∀ c' k', Enters d hour cells c' k' → c'.san = c.san → lpVarMain c' = lpVarMain c

/-! ### Allocation rows -/

theorem relations_apart (run : lpObj d hour cells = some h) :
    ((allocationRows d h).map Prod.snd).Pairwise fun r r' => ∀ v, r.Mentions v = true → r'.Mentions v = false :=
  List.pairwise_map.mpr (allocationRows_apart run)

/-- The bound that an allocation row is read as remains to the end. -/
theorem upper_allocationRow (run : lpObj d hour cells = some h) {row : Limited × Relation Str}
    (member : row ∈ allocationRows d h) {v : Str} {limit : ℚ} (read : row.2.bound = some (v, limit)) :
    upper (relations d h rows) v = some limit := by
  rw [relations, upper_append, upper_of_disjoint (relations_apart run) (List.mem_map.mpr ⟨row, member, rfl⟩) read]
  rfl

/-- A point that meets the program as read meets the allocation rows. -/
theorem allocationRow_holds (run : lpObj d hour cells = some h) (feasible : FeasibleAsRead (relations d h rows) x)
    {row : Limited × Relation Str} (member : row ∈ allocationRows d h) : row.2.Holds x := by
  cases read : row.2.bound with
  | none => exact feasible.2.1 row.2 (List.mem_append_right _ (List.mem_map.mpr ⟨row, member, rfl⟩)) read
  | some bound =>
    obtain ⟨v, limit⟩ := bound
    have below := feasible.2.2 v limit (upper_allocationRow run member read)
    obtain ⟨coefficient, most, terms, rLimit, -, rfl⟩ := Relation.bound_eq_some.mp read
    have one := allocationRow_coeffs member (coefficient, v) (terms ▸ List.mem_singleton_self _)
    simp only at one
    refine ⟨most, rLimit, ?_⟩
    rw [terms, total_cons, total_nil, one]
    rw [one, div_one] at below
    linarith

theorem allocationRow_sum_nonneg (nonneg : ∀ v, 0 ≤ x v) {row : Limited × Relation Str}
    (member : row ∈ allocationRows d h) : 0 ≤ total x row.2.terms := by
  refine total_nonneg nonneg ?_
  intro term termMember
  rw [allocationRow_coeffs member term termMember]
  exact zero_le_one

theorem allocationRow_of_enters (run : lpObj d hour cells = some h) (enters : Enters d hour cells c k) :
    ∃ row ∈ allocationRows d h, (1, lpVarMain c) ∈ row.2.terms ∧ row.2.limit = limitOf d c := by
  unfold limitOf
  cases capped : d.cellMaxAlpha.get? (lpVarMain c) with
  | some allocation =>
    have only := allocationRow_capped run capped
    exact ⟨_, List.mem_of_mem_filter (only ▸ List.mem_singleton_self _), List.mem_singleton_self _, rfl⟩
  | none =>
    obtain ⟨r, only, limit, term, -⟩ := allocationRow_uncapped run enters capped
    exact ⟨_, List.mem_of_mem_filter (only ▸ List.mem_singleton_self _), term, limit⟩

theorem le_limitOf (run : lpObj d hour cells = some h) (feasible : FeasibleAsRead (relations d h rows) x)
    (enters : Enters d hour cells c k) : ∃ limit, limitOf d c = some limit ∧ x (lpVarMain c) ≤ limit := by
  obtain ⟨row, member, term, rowLimit⟩ := allocationRow_of_enters run enters
  obtain ⟨limit, rLimit, below⟩ := le_limit_of_holds feasible.1 member (allocationRow_holds run feasible member) term
  exact ⟨limit, rowLimit ▸ rLimit, below⟩

/-- The limits of the allocation rows are numbers that are not negative, unless
    no allocation meets the program. -/
theorem allocationRow_meetable (run : lpObj d hour cells = some h) (meetable : ¬ Unmeetable d hour cells)
    {row : Limited × Relation Str} (member : row ∈ allocationRows d h) :
    ∃ limit, row.2.limit = some limit ∧ 0 ≤ limit := by
  rcases List.mem_append.mp member with placement | cell
  · obtain ⟨limited, r⟩ := row
    obtain ⟨san, site, vars, found, -, nonempty, rfl⟩ := mem_placementRows.mp placement
    obtain ⟨name, kept⟩ := List.exists_mem_of_ne_nil _ nonempty
    obtain ⟨inVars, uncapped⟩ := List.mem_filter.mp kept
    obtain ⟨u, inner⟩ := SortedMap.mem_keys.mp inVars
    obtain ⟨c, k, enters, same, rfl⟩ := limits_some run (SortedMap.getAt?_eq_some.mpr ⟨vars, found, inner⟩)
    obtain ⟨rfl, -⟩ := Prod.mk.inj (toLex.injective same)
    simp only [campaignLimit]
    cases capped : d.campaignMaxAlpha.get? c.san with
    | none => exact ⟨1 / 5, rfl, by norm_num⟩
    | some allocation =>
      refine capLimit_nonneg (not_not.mp fun negative => meetable ?_)
      exact .inr ⟨c, k, allocation, enters, Option.isNone_iff_eq_none.mp uncapped, capped, negative⟩
  · obtain ⟨⟨name, allocation⟩, capMember, rfl⟩ := List.mem_map.mp cell
    refine capLimit_nonneg (not_not.mp fun negative => meetable ?_)
    exact .inl ⟨name, allocation, SortedMap.mem_entries.mp capMember, negative⟩

/-- If some cap is negative or missing, no point meets the program as read. -/
theorem infeasible_of_unmeetable (run : lpObj d hour cells = some h) (unmeetable : Unmeetable d hour cells) :
    ¬ FeasibleAsRead (relations d h rows) x := by
  intro feasible
  have held : ∀ row ∈ allocationRows d h, ∃ limit, row.2.limit = some limit ∧ 0 ≤ limit := by
    intro row member
    obtain ⟨limit, rLimit, below⟩ := allocationRow_holds run feasible member
    exact ⟨limit, rLimit, (allocationRow_sum_nonneg feasible.1 member).trans below⟩
  have numeric : ∀ allocation, (∃ limit, capLimit allocation = some limit ∧ 0 ≤ limit) → CapNonneg allocation := by
    rintro allocation ⟨limit, found, nonneg⟩
    obtain ⟨hundredths, rfl, rfl⟩ := Option.map_eq_some_iff.mp found
    refine ⟨hundredths, rfl, ?_⟩
    by_contra negative
    have below : (hundredths : ℚ) < 0 := Int.cast_lt_zero.mpr (not_le.mp negative)
    linarith
  rcases unmeetable with ⟨name, allocation, capped, negative⟩ | ⟨c, k, allocation, enters, uncapped, capped, negative⟩
  · have only := allocationRow_capped run capped
    exact negative (numeric allocation (held _ (List.mem_of_mem_filter (only ▸ List.mem_singleton_self _))))
  · obtain ⟨r, only, rLimit, -⟩ := allocationRow_uncapped run enters uncapped
    have limited := held _ (List.mem_of_mem_filter (only ▸ List.mem_singleton_self _))
    rw [rLimit, campaignLimit, capped] at limited
    exact negative (numeric allocation limited)

/-! ### Campaigns with one variable -/

theorem budgetTerms_alone (run : lpObj d hour cells = some h) (enters : Enters d hour cells c k)
    (alone : Alone d hour cells c) : budgetTerms h.budgetConstraint c.san = [(k.spend, lpVarMain c)] := by
  have term := mem_budgetTerms.mpr (budget_of_enters run enters)
  refine eq_singleton_of_nodup (nodup_budgetTerms c.san).of_map term ?_
  rintro ⟨a, v⟩ member
  obtain ⟨c', k', enters', san, rfl, -⟩ := budget_some run (mem_budgetTerms.mp member)
  exact List.inj_on_of_nodup_map (nodup_budgetTerms c.san) member term (alone c' k' enters' san)

/-- The one variable of a budget row is that of a cell that is alone in its
    campaign. -/
theorem alone_of_budgetTerms (run : lpObj d hour cells = some h) {san v : Str} {a : ℚ}
    (terms : budgetTerms h.budgetConstraint san = [(a, v)]) :
    ∃ c k, Enters d hour cells c k ∧ Alone d hour cells c ∧ c.san = san ∧ lpVarMain c = v ∧ k.spend = a := by
  have term : (a, v) ∈ budgetTerms h.budgetConstraint san := terms ▸ List.mem_singleton_self _
  obtain ⟨c, k, enters, rfl, rfl, rfl⟩ := budget_some run (mem_budgetTerms.mp term)
  refine ⟨c, k, enters, ?_, rfl, rfl, rfl⟩
  intro c' k' enters' san'
  have other := mem_budgetTerms.mpr (budget_of_enters run enters')
  rw [san'] at other
  have same := List.mem_singleton.mp (terms ▸ other)
  exact (Prod.mk.inj same).2

/-- The allocation row of a campaign's one variable has no other variable. -/
theorem allocationRow_alone (run : lpObj d hour cells = some h) (alone : Alone d hour cells c)
    {row : Limited × Relation Str} (member : row ∈ allocationRows d h) (mentions : row.2.Mentions (lpVarMain c) = true) :
    row.2.terms = [(1, lpVarMain c)] := by
  rcases List.mem_append.mp member with placement | cell
  · obtain ⟨limited, r⟩ := row
    obtain ⟨san, site, vars, found, -, -, rfl⟩ := mem_placementRows.mp placement
    have sameCampaign : ∀ name ∈ vars.keys, ∃ c' k', Enters d hour cells c' k' ∧ c'.san = san ∧ lpVarMain c' = name := by
      intro name inVars
      obtain ⟨u, inner⟩ := SortedMap.mem_keys.mp inVars
      obtain ⟨c', k', enters', same, names⟩ := limits_some run (SortedMap.getAt?_eq_some.mpr ⟨vars, found, inner⟩)
      exact ⟨c', k', enters', (Prod.mk.inj (toLex.injective same)).1, names⟩
    obtain ⟨coefficient, term⟩ := Relation.mentions_iff.mp mentions
    obtain ⟨name, kept, swapped⟩ := List.mem_map.mp term
    obtain ⟨-, rfl⟩ := Prod.mk.inj swapped
    have only : vars.keys.filter (fun cell => (d.cellMaxAlpha.get? cell).isNone) = [lpVarMain c] := by
      refine eq_singleton_of_nodup (vars.nodup_keys.filter _) kept ?_
      intro other otherKept
      obtain ⟨c₀, k₀, -, san₀, names₀⟩ := sameCampaign _ (List.mem_of_mem_filter kept)
      obtain ⟨c', k', enters', san', rfl⟩ := sameCampaign _ (List.mem_of_mem_filter otherKept)
      exact alone c' k' enters' (san'.trans (san₀.symm.trans (lpVarMain_injective names₀).1))
    simp only [only, List.map_cons, List.map_nil]
  · obtain ⟨cap, -, rfl⟩ := List.mem_map.mp cell
    rw [cellRow_mentions.mp mentions]
    rfl

theorem limitOf_nonneg (run : lpObj d hour cells = some h) (meetable : ¬ Unmeetable d hour cells)
    (enters : Enters d hour cells c k) {limit : ℚ} (isLimit : limitOf d c = some limit) : 0 ≤ limit := by
  obtain ⟨row, member, -, rowLimit⟩ := allocationRow_of_enters run enters
  obtain ⟨limit', rLimit, nonneg⟩ := allocationRow_meetable run meetable member
  rw [rowLimit, isLimit] at rLimit
  obtain rfl := Option.some.inj rLimit
  exact nonneg

/-- Every row has a limit that is not negative. -/
theorem relations_limited (run : lpObj d hour cells = some h)
    (printed : lpConstraint h.budgetConstraint config b n hour order.keys = some rows)
    (meetable : ¬ Unmeetable d hour cells) {r : Relation Str} (member : r ∈ relations d h rows) :
    ∃ most, r.limit = some most ∧ 0 ≤ most := by
  rcases List.mem_append.mp member with budget | allocation
  · obtain ⟨row, rowMember, rfl⟩ := List.mem_map.mp budget
    obtain ⟨most, rLimit, least⟩ := budgetRow_limit printed rowMember
    exact ⟨most, rLimit, zero_le_one.trans least⟩
  · obtain ⟨row, rowMember, rfl⟩ := List.mem_map.mp allocation
    exact allocationRow_meetable run meetable rowMember

/-- Every row with the variable of a cell that is alone in its campaign is read
    as a bound. -/
theorem alone_read_as_bound (run : lpObj d hour cells = some h)
    (printed : lpConstraint h.budgetConstraint config b n hour order.keys = some rows)
    (meetable : ¬ Unmeetable d hour cells) (enters : Enters d hour cells c k) (alone : Alone d hour cells c)
    (spends : 0 < k.spend) {r : Relation Str} (member : r ∈ relations d h rows)
    (mentions : r.Mentions (lpVarMain c) = true) : r.bound ≠ none := by
  obtain ⟨most, rLimit, -⟩ := relations_limited run printed meetable member
  have single : ∃ coefficient, 0 < coefficient ∧ r.terms = [(coefficient, lpVarMain c)] := by
    rcases List.mem_append.mp member with budget | allocation
    · obtain ⟨⟨san, r⟩, rowMember, rfl⟩ := List.mem_map.mp budget
      obtain rfl := own_campaign run printed rowMember mentions
      obtain ⟨-, -, amount, -, rfl⟩ := (mem_lpConstraint printed).mp rowMember
      exact ⟨k.spend, spends, budgetTerms_alone run enters alone⟩
    · obtain ⟨row, rowMember, rfl⟩ := List.mem_map.mp allocation
      exact ⟨1, zero_lt_one, allocationRow_alone run alone rowMember mentions⟩
  obtain ⟨coefficient, positive, terms⟩ := single
  have read : r.bound = some (lpVarMain c, most / coefficient) :=
    Relation.bound_eq_some.mpr ⟨coefficient, most, terms, rLimit, positive, rfl⟩
  simp [read]

/-- The point that allocates one cell up to its limit and nothing else meets the
    program as read, where the cell is its campaign's only one. -/
theorem alone_feasible (run : lpObj d hour cells = some h)
    (printed : lpConstraint h.budgetConstraint config b n hour order.keys = some rows)
    (meetable : ¬ Unmeetable d hour cells) (enters : Enters d hour cells c k) (alone : Alone d hour cells c)
    (spends : 0 < k.spend) {limit : ℚ} (isLimit : limitOf d c = some limit) :
    FeasibleAsRead (relations d h rows) fun v => if v = lpVarMain c then limit else 0 := by
  refine ⟨?_, ?_, ?_⟩
  · intro v
    dsimp only
    split_ifs
    · exact limitOf_nonneg run meetable enters isLimit
    · exact le_refl 0
  · intro r member constraint
    obtain ⟨most, rLimit, nonneg⟩ := relations_limited run printed meetable member
    refine ⟨most, rLimit, ?_⟩
    rw [total_eq_zero]
    · exact nonneg
    · rintro ⟨a, v⟩ term
      refine if_neg ?_
      rintro rfl
      have mentions : r.Mentions (lpVarMain c) = true := Relation.mentions_iff.mpr ⟨a, term⟩
      exact alone_read_as_bound run printed meetable enters alone spends member mentions constraint
  · intro v most remains
    dsimp only
    split_ifs with same
    · subst same
      obtain ⟨row, member, term, rowLimit⟩ := allocationRow_of_enters run enters
      have terms := allocationRow_alone run alone member (Relation.mentions_iff.mpr ⟨1, term⟩)
      have read : row.2.bound = some (lpVarMain c, limit) :=
        Relation.bound_eq_some.mpr ⟨1, limit, terms, rowLimit.trans isLimit, zero_lt_one, (div_one limit).symm⟩
      rw [upper_allocationRow run member read] at remains
      exact (Option.some.inj remains).le
    · obtain ⟨r, member, read⟩ := upper_eq_some remains
      obtain ⟨coefficient, b', -, rLimit, positive, rfl⟩ := Relation.bound_eq_some.mp read
      obtain ⟨most, rLimit', nonneg⟩ := relations_limited run printed meetable member
      rw [rLimit] at rLimit'
      exact div_nonneg (Option.some.inj rLimit' ▸ nonneg) positive.le

/-- The budgets survive the reading exactly if no allocation meets the program,
    or, for each campaign of `campConfig` with one variable, the spend at that
    variable's limit is within the budget. -/
theorem budget_survives_iff (d : RunData) (hour : Nat) (cells : SortedMap Str Cell) (config : SortedMap Str (Option Int))
    (b : SortedMap Str BudgetSignal) (n : SortedMap Nat BudgetSignal) (order : config.Listing) (h : LpHashes)
    (rows : List (Str × Relation Str)) (emitted : lpRows d hour cells config b n order = some (h, rows)) :
    (∀ x, FeasibleAsRead (relations d h rows) x → ∀ row ∈ rows, row.2.Holds x) ↔
    Unmeetable d hour cells ∨
      ∀ c k totalbudget amount limit, Enters d hour cells c k → Alone d hour cells c →
        config.get? c.san = some totalbudget → budgetAmount totalbudget b n c.san hour = some amount →
        limitOf d c = some limit → k.spend * limit ≤ amount := by
  obtain ⟨run, printed⟩ := lpRows_eq_some.mp emitted
  constructor
  · intro survives
    by_cases unmeetable : Unmeetable d hour cells
    · exact .inl unmeetable
    · refine .inr ?_
      intro c k totalbudget amount limit enters alone listed budget isLimit
      rcases le_or_gt k.spend 0 with nothing | spends
      · have nonneg := limitOf_nonneg run unmeetable enters isLimit
        have least := one_le_budgetAmount budget
        linarith [mul_nonpos_of_nonpos_of_nonneg nothing nonneg]
      · have feasible := alone_feasible run printed unmeetable enters alone spends isLimit
        obtain ⟨r, member⟩ := budget_row_exists run printed enters listed
        obtain ⟨most, rLimit, below⟩ := survives _ feasible _ member
        obtain ⟨-, -, amount', budget', rfl⟩ := (mem_lpConstraint printed).mp member
        rw [listed, Option.join_some, budget] at budget'
        obtain rfl := Option.some.inj budget'
        obtain rfl := Option.some.inj rLimit
        rw [budgetTerms_alone run enters alone, total_cons, total_nil, if_pos rfl] at below
        linarith
  · rintro (unmeetable | within) x feasible ⟨san, r⟩ member
    · exact absurd feasible (infeasible_of_unmeetable run unmeetable)
    · cases read : r.bound with
      | none => exact feasible.2.1 r (List.mem_append_left _ (List.mem_map.mpr ⟨(san, r), member, rfl⟩)) read
      | some bound =>
        obtain ⟨v, most⟩ := bound
        obtain ⟨a, amount, terms, rLimit, positive, -⟩ := Relation.bound_eq_some.mp read
        obtain ⟨inOrder, -, amount', budget, rfl⟩ := (mem_lpConstraint printed).mp member
        obtain rfl := Option.some.inj rLimit
        simp only at terms
        obtain ⟨totalbudget, listed⟩ := order.mem_keys.mp inOrder
        rw [listed, Option.join_some] at budget
        obtain ⟨c, k, enters, alone, rfl, rfl, rfl⟩ := alone_of_budgetTerms run terms
        obtain ⟨limit, isLimit, below⟩ := le_limitOf run feasible enters
        refine ⟨amount', rfl, ?_⟩
        have spend := within c k totalbudget amount' limit enters alone listed budget isLimit
        rw [terms, total_cons, total_nil, add_zero]
        exact (mul_le_mul_of_nonneg_left below positive.le).trans spend

theorem budget_survives_iff_priced :
    ∃ h rows, emittedWith 1 = some (h, rows) ∧
      ((∀ x, FeasibleAsRead (relations (pricedRun 1) h rows) x → ∀ row ∈ rows, row.2.Holds x) ↔
        Unmeetable (pricedRun 1) 3 (getCellData (withApi 1) fun _ => some (1 / 100)) ∨
          ∀ c k totalbudget amount limit, Enters (pricedRun 1) 3 (getCellData (withApi 1) fun _ => some (1 / 100)) c k →
            Alone (pricedRun 1) 3 (getCellData (withApi 1) fun _ => some (1 / 100)) c →
            (campConfig (withApi 1)).get? c.san = some totalbudget →
            budgetAmount totalbudget SortedMap.empty budgetHour c.san 3 = some amount →
            limitOf (pricedRun 1) c = some limit → k.spend * limit ≤ amount) := by
  have emits : (emittedWith 1).isSome = true := by decide +kernel
  obtain ⟨⟨h, rows⟩, emitted⟩ := Option.isSome_iff_exists.mp emits
  exact ⟨h, rows, emitted, budget_survives_iff (pricedRun 1) 3 _ _ _ _ _ h rows emitted⟩

/-- The run of one cell at a price that its campaign's budget of 10 cannot pay. -/
def dearRun : RunData :=
  { pricedRun 1 with
    cost := SortedMap.ofRows testKey TestRow.price
      [⟨"auo".toList, 20, 5, size300x250, ⟨some 1500, 20, some 50000, some 40000⟩⟩] }

theorem later_bound_read {a b limit : ℚ} (v : Str) (aPos : 0 < a) (nonneg : 0 ≤ limit) :
    FeasibleAsRead [⟨[(a, v)], some b⟩, ⟨[(1, v)], some limit⟩] fun _ => limit := by
  have first : (⟨[(a, v)], some b⟩ : Relation Str).bound = some (v, b / a) :=
    Relation.bound_eq_some.mpr ⟨a, b, rfl, rfl, aPos, rfl⟩
  have second : (⟨[(1, v)], some limit⟩ : Relation Str).bound = some (v, limit) :=
    Relation.bound_eq_some.mpr ⟨1, limit, rfl, rfl, zero_lt_one, (div_one limit).symm⟩
  refine ⟨fun _ => nonneg, ?_, ?_⟩
  · intro r member constraint
    rcases List.mem_cons.mp member with rfl | last
    · rw [first] at constraint; cases constraint
    · obtain rfl := List.mem_singleton.mp last
      rw [second] at constraint; cases constraint
  · intro w most remains
    rw [upper, upper, upper, first, second] at remains
    by_cases same : v = w
    · simp [same] at remains
      exact remains.le
    · simp [same] at remains

/-- Allocated up to its limit of 0.2 the cell spends 12 of a budget of 10, and
    the solver accepts it. -/
theorem budget_row_replaced :
    ∃ h rows, lpRows dearRun 3 (getCellData (withApi 1) fun _ => some (1 / 100)) (campConfig (withApi 1)) SortedMap.empty
        budgetHour (sortedOrder _) = some (h, rows) ∧
      ∃ x, FeasibleAsRead (relations dearRun h rows) x ∧ ∃ row ∈ rows, ¬ row.2.Holds x := by
  have computed : (lpRows dearRun 3 (getCellData (withApi 1) fun _ => some (1 / 100)) (campConfig (withApi 1))
      SortedMap.empty budgetHour (sortedOrder _)).map (fun printed => (printed.2, relations dearRun printed.1 printed.2)) =
      some ([("auo".toList, ⟨[(60, "auo_11_20_5_300x250".toList)], some 10⟩)],
        [⟨[(60, "auo_11_20_5_300x250".toList)], some 10⟩, ⟨[(1, "auo_11_20_5_300x250".toList)], some (1 / 5)⟩]) := by
    decide +kernel
  obtain ⟨⟨h, rows⟩, emitted, same⟩ := Option.map_eq_some_iff.mp computed
  obtain ⟨budgetRows, allRows⟩ := Prod.mk.inj same
  simp only at budgetRows allRows
  refine ⟨h, rows, emitted, fun _ => 1 / 5, ?_, ("auo".toList, ⟨[(60, "auo_11_20_5_300x250".toList)], some 10⟩), ?_, ?_⟩
  · rw [allRows]
    exact later_bound_read _ (by norm_num) (by norm_num)
  · rw [budgetRows]
    exact List.mem_singleton_self _
  · rintro ⟨limit, rLimit, below⟩
    obtain rfl := Option.some.inj rLimit
    rw [total_cons, total_nil] at below
    norm_num at below

end Cdo.LpText
