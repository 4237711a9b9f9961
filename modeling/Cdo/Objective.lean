import Cdo.Params
import Cdo.Signals
import Cdo.LinearProgram

/-!
The objective and the allocation limits of the hourly linear program (`LP_Obj`
of `CDO.pm`). A loop over the cells files each cell that is worth a positive
number of conversions in three hashes, by placement for the objective, by
campaign for the budget, and by both for the limits; the objective and the
bounds are then printed from these. `coefficients` is what one turn of the loop
computes for a cell and `lpObj_files` says that the hashes hold exactly the
cells that enter (`Filed`), from which the printed rows follow
(`mem_objective`, `mem_allocationRows`). A division by zero stops the run.
-/
namespace Cdo.Objective
open Cdo.Text Cdo.Query Cdo.Tables Cdo.Params Cdo.Signals Cdo.LinearProgram

/-- The hashes that a run has loaded before the program is built. -/
structure RunData where
  cost : SortedMap Str Price
  costAvg : SortedMap Str Price
  siteSegSignal : SortedMap Str ImpSignal
  networkSignal : SortedMap Nat ImpSignal
  cellMaxAlpha : SortedMap Str (Option Int)
  campaignMaxAlpha : SortedMap Str (Option Int)
  cellMdFactors : SortedMap Str ℚ
  siteSegMdFactors : SortedMap Str ℚ

/-- The misdelivery ratio of a cell. A stored ratio is a text with six decimals,
    which is true as a condition even where the ratio is 0. -/
def mdRatio (md_ind inv_ind : Str) (cellMdFactors siteSegMdFactors : SortedMap Str ℚ) : ℚ :=
  match cellMdFactors.get? md_ind with
  | some ratio => ratio
  | none =>
    match siteSegMdFactors.get? inv_ind with
    | some ratio => ratio
    | none => 1

/-! ### The loop over the cells -/

structure MinsLine where
  key : Str
  san : Str
  lp_var : Str
  espend : ℚ
deriving DecidableEq

/-- What the loop over the cells fills. -/
structure LpHashes where
  obj : SortedMap Str (SortedMap Str ℚ)
  budgetConstraint : SortedMap Str (SortedMap Str ℚ)
  maxAlpha : SortedMap (Str ×ₗ Str) (SortedMap Str Unit)
  mins : List MinsLine

/-- Conversions and spend of a cell that is fully allocated. -/
structure Coefficients where
  obj : ℚ
  spend : ℚ
deriving DecidableEq

variable (d : RunData) (hour : Nat)

def costIn (c : Cell) : Cost := cellCost d.cost d.costAvg d.cellMaxAlpha d.campaignMaxAlpha c

def impFactor (c : Cell) : Option ℚ := impSignal d.siteSegSignal d.networkSignal (signalIndex c hour) hour

def mdFactor (c : Cell) : ℚ := mdRatio (mdIndex c) (invIndex c) d.cellMdFactors d.siteSegMdFactors

def coefficientsAt (c : Cell) (imp_factor : ℚ) : Coefficients where
  obj := c.q.getD 0 * (costIn d c).evolume * imp_factor * mdFactor d c
  spend := (costIn d c).espend * imp_factor * mdFactor d c

def LpHashes.enter (h : LpHashes) (c : Cell) (k : Coefficients) : LpHashes where
  obj := h.obj.insertAt (invIndex c) (lpVarMain c) k.obj
  budgetConstraint := h.budgetConstraint.insertAt c.san (lpVarMain c) k.spend
  maxAlpha := h.maxAlpha.insertAt (toLex (c.san, invIndex c)) (lpVarMain c) ()
  mins := h.mins

def addCell (h : LpHashes) (entry : Str × Cell) : Option LpHashes :=
  if 0 < (costIn d entry.2).espend then
    (impFactor d hour entry.2).map fun imp_factor =>
      let k := coefficientsAt d entry.2 imp_factor
      if 0 < k.obj then h.enter entry.2 k else h
  else
    some { h with mins := h.mins ++ [⟨entry.1, entry.2.san, lpVarMain entry.2, (costIn d entry.2).espend⟩] }

def lpObj (cells : SortedMap Str Cell) : Option LpHashes :=
  cells.entries.foldlM (addCell d hour) ⟨SortedMap.empty, SortedMap.empty, SortedMap.empty, []⟩

/-! ### The printed rows -/

def objective (h : LpHashes) : List (ℚ × Str) := h.obj.inners.map Prod.swap

/-- What an allocation row limits: the cells of a campaign on a placement, or
    one cell. -/
inductive Limited where
  | placement (san : Str) (site : Str)
  | cell (name : Str)
deriving DecidableEq

def capLimit (allocation : Option Int) : Option ℚ := allocation.map fun hundredths : Int => (hundredths : ℚ) / 100

def campaignLimit (san : Str) : Option ℚ :=
  match d.campaignMaxAlpha.get? san with
  | some allocation => capLimit allocation
  | none => some (1 / 5)

/-- The limit of the cells of a campaign on a placement that have no cap of
    their own. -/
def placementRow (group : (Str ×ₗ Str) × SortedMap Str Unit) : Option (Limited × Relation Str) :=
  let cells := group.2.keys.filter fun cell => (d.cellMaxAlpha.get? cell).isNone
  if 0 < cells.length then
    some (.placement (ofLex group.1).1 (ofLex group.1).2,
      ⟨cells.map fun cell => (1, cell), campaignLimit d (ofLex group.1).1⟩)
  else none

def cellRow (cap : Str × Option Int) : Limited × Relation Str := (.cell cap.1, ⟨[(1, cap.1)], capLimit cap.2⟩)

def allocationRows (h : LpHashes) : List (Limited × Relation Str) :=
  h.maxAlpha.entries.filterMap (placementRow d) ++ d.cellMaxAlpha.entries.map cellRow

/-! ### The cells that enter -/

def coefficients (c : Cell) : Option Coefficients :=
  if 0 < (costIn d c).espend then
    (impFactor d hour c).bind fun imp_factor =>
      if 0 < (coefficientsAt d c imp_factor).obj then some (coefficientsAt d c imp_factor) else none
  else none

def entered (entries : List (Str × Cell)) : List (Cell × Coefficients) :=
  entries.filterMap fun entry => (coefficients d hour entry.2).map fun k => (entry.2, k)

/-- The hashes hold the cells that entered. -/
structure Filed (rows : List (Cell × Coefficients)) (h : LpHashes) : Prop where
  obj : h.obj = SortedMap.ofRowsAt (fun row => invIndex row.1) (fun row => lpVarMain row.1) (fun row => row.2.obj) rows
  budget : h.budgetConstraint =
    SortedMap.ofRowsAt (fun row => row.1.san) (fun row => lpVarMain row.1) (fun row => row.2.spend) rows
  limits : h.maxAlpha =
    SortedMap.ofRowsAt (fun row => toLex (row.1.san, invIndex row.1)) (fun row => lpVarMain row.1) (fun _ => ()) rows

theorem addCell_files {rows : List (Cell × Coefficients)} {h h' : LpHashes} {entry : Str × Cell} (filed : Filed rows h)
    (step : addCell d hour h entry = some h') : Filed (rows ++ entered d hour [entry]) h' := by
  by_cases spends : 0 < (costIn d entry.2).espend
  · rw [addCell, if_pos spends] at step
    obtain ⟨imp_factor, imp, after⟩ := Option.map_eq_some_iff.mp step
    by_cases worth : 0 < (coefficientsAt d entry.2 imp_factor).obj
    · have enters : entered d hour [entry] = [(entry.2, coefficientsAt d entry.2 imp_factor)] := by
        simp [entered, coefficients, spends, imp, worth]
      rw [if_pos worth] at after
      subst after
      rw [enters]
      constructor
      · rw [SortedMap.ofRowsAt_snoc, ← filed.obj]; rfl
      · rw [SortedMap.ofRowsAt_snoc, ← filed.budget]; rfl
      · rw [SortedMap.ofRowsAt_snoc, ← filed.limits]; rfl
    · have stays : entered d hour [entry] = [] := by
        simp [entered, coefficients, spends, imp, worth]
      rw [if_neg worth] at after
      subst after
      rw [stays, List.append_nil]
      exact filed
  · have stays : entered d hour [entry] = [] := by
      simp [entered, coefficients, spends]
    rw [addCell, if_neg spends] at step
    obtain rfl := Option.some.inj step
    rw [stays, List.append_nil]
    exact ⟨filed.obj, filed.budget, filed.limits⟩

/-- After the loop the hashes hold exactly the cells that enter. -/
theorem lpObj_files {cells : SortedMap Str Cell} {h : LpHashes} (run : lpObj d hour cells = some h) :
    Filed (entered d hour cells.entries) h := by
  have loop : ∀ (entries : List (Str × Cell)) (rows : List (Cell × Coefficients)) (before after : LpHashes),
      Filed rows before → entries.foldlM (addCell d hour) before = some after →
        Filed (rows ++ entered d hour entries) after := by
    intro entries
    induction entries with
    | nil =>
      intro rows before after filed done
      obtain rfl : before = after := by simpa using done
      simpa [entered] using filed
    | cons entry rest ih =>
      intro rows before after filed done
      rw [List.foldlM_cons] at done
      obtain ⟨next, step, remaining⟩ := Option.bind_eq_some_iff.mp done
      have filedNext := ih _ next after (addCell_files d hour filed step) remaining
      have split : entered d hour (entry :: rest) = entered d hour [entry] ++ entered d hour rest := by
        rw [entered, entered, entered, ← List.filterMap_append]
        rfl
      rw [split, ← List.append_assoc]
      exact filedNext
  exact loop cells.entries [] _ h ⟨rfl, rfl, rfl⟩ run

section
variable {d : RunData} {hour : Nat} {cells : SortedMap Str Cell} {h : LpHashes} {c c' : Cell}

theorem coefficients_eq_some {k : Coefficients} :
    coefficients d hour c = some k ↔ 0 < (costIn d c).espend ∧ 0 < k.obj ∧
      ∃ imp_factor, impFactor d hour c = some imp_factor ∧ k = coefficientsAt d c imp_factor := by
  unfold coefficients
  split_ifs with spends
  · simp only [Option.bind_eq_some_iff, Option.ite_none_right_eq_some, Option.some.injEq, spends, true_and]
    constructor
    · rintro ⟨imp_factor, imp, worth, rfl⟩
      exact ⟨worth, imp_factor, imp, rfl⟩
    · rintro ⟨worth, imp_factor, imp, rfl⟩
      exact ⟨imp_factor, imp, worth, rfl⟩
  · simp [spends]

/-- A cell of the table enters the objective. -/
def Enters (d : RunData) (hour : Nat) (cells : SortedMap Str Cell) (c : Cell) (k : Coefficients) : Prop :=
  (∃ key, cells.get? key = some c) ∧ coefficients d hour c = some k

theorem mem_entered {k : Coefficients} : (c, k) ∈ entered d hour cells.entries ↔ Enters d hour cells c k := by
  simp only [entered, List.mem_filterMap, Option.map_eq_some_iff, Prod.mk.injEq, Enters]
  constructor
  · rintro ⟨⟨key, _⟩, member, _, enters, rfl, rfl⟩
    exact ⟨⟨key, SortedMap.mem_entries.mp member⟩, enters⟩
  · rintro ⟨⟨key, found⟩, enters⟩
    exact ⟨(key, c), SortedMap.mem_entries.mpr found, k, enters, rfl, rfl⟩

/-- Cells with one variable have one cost and one pair of factors. -/
theorem same_factors (d : RunData) (hour : Nat) (same : lpVarMain c = lpVarMain c') :
    costIn d c = costIn d c' ∧ impFactor d hour c = impFactor d hour c' ∧ mdFactor d c = mdFactor d c' := by
  obtain ⟨san, ad, site, segment, size⟩ := lpVarMain_injective same
  refine ⟨?_, ?_, ?_⟩
  · simp only [costIn, cellCost, same, pvIndex, pvAvgIndex, san, site, segment, size]
  · simp only [impFactor, signalIndex, site, segment]
  · simp only [mdFactor, mdIndex, invIndex, san, site, segment, size]

theorem same_spend {k k' : Coefficients} (enters : Enters d hour cells c k) (enters' : Enters d hour cells c' k')
    (same : lpVarMain c = lpVarMain c') : k.spend = k'.spend := by
  obtain ⟨-, -, imp_factor, imp, rfl⟩ := coefficients_eq_some.mp enters.2
  obtain ⟨-, -, imp_factor', imp', rfl⟩ := coefficients_eq_some.mp enters'.2
  obtain ⟨cost, factor, ratio⟩ := same_factors d hour same
  rw [imp, imp'] at factor
  simp only [coefficientsAt, cost, ratio, Option.some.inj factor]

/-! ### What the hashes hold -/

theorem obj_some (run : lpObj d hour cells = some h) {ii v : Str} {a : ℚ} (found : h.obj.getAt? ii v = some a) :
    ∃ c k, Enters d hour cells c k ∧ invIndex c = ii ∧ lpVarMain c = v ∧ k.obj = a := by
  rw [(lpObj_files d hour run).obj] at found
  obtain ⟨⟨c, k⟩, member, rest⟩ := SortedMap.getAt?_ofRowsAt_some found
  exact ⟨c, k, mem_entered.mp member, rest⟩

theorem budget_some (run : lpObj d hour cells = some h) {san v : Str} {a : ℚ}
    (found : h.budgetConstraint.getAt? san v = some a) :
    ∃ c k, Enters d hour cells c k ∧ c.san = san ∧ lpVarMain c = v ∧ k.spend = a := by
  rw [(lpObj_files d hour run).budget] at found
  obtain ⟨⟨c, k⟩, member, rest⟩ := SortedMap.getAt?_ofRowsAt_some found
  exact ⟨c, k, mem_entered.mp member, rest⟩

theorem budget_of_enters (run : lpObj d hour cells = some h) {k : Coefficients} (enters : Enters d hour cells c k) :
    h.budgetConstraint.getAt? c.san (lpVarMain c) = some k.spend := by
  have filed := lpObj_files d hour run
  obtain ⟨a, found⟩ := SortedMap.getAt?_ofRowsAt_mem (fun row => row.1.san) (fun row => lpVarMain row.1)
    (fun row => row.2.spend) (mem_entered.mpr enters)
  rw [← filed.budget] at found
  obtain ⟨c', k', enters', -, same, rfl⟩ := budget_some run found
  rw [found, same_spend enters' enters same]

theorem limits_some (run : lpObj d hour cells = some h) {group : Str ×ₗ Str} {v : Str}
    (found : h.maxAlpha.getAt? group v = some ()) :
    ∃ c k, Enters d hour cells c k ∧ toLex (c.san, invIndex c) = group ∧ lpVarMain c = v := by
  rw [(lpObj_files d hour run).limits] at found
  obtain ⟨⟨c, k⟩, member, sameGroup, same, -⟩ := SortedMap.getAt?_ofRowsAt_some found
  exact ⟨c, k, mem_entered.mp member, sameGroup, same⟩

theorem limits_of_enters (run : lpObj d hour cells = some h) {k : Coefficients} (enters : Enters d hour cells c k) :
    h.maxAlpha.getAt? (toLex (c.san, invIndex c)) (lpVarMain c) = some () := by
  obtain ⟨_, found⟩ := SortedMap.getAt?_ofRowsAt_mem (fun row => toLex (row.1.san, invIndex row.1))
    (fun row => lpVarMain row.1) (fun _ => ()) (mem_entered.mpr enters)
  rwa [← (lpObj_files d hour run).limits] at found

/-- The variables of the objective are those of the cells that enter. -/
theorem mem_objective (run : lpObj d hour cells = some h) {a : ℚ} {v : Str} (member : (a, v) ∈ objective h) :
    ∃ c k, Enters d hour cells c k ∧ lpVarMain c = v ∧ k.obj = a := by
  obtain ⟨⟨v', a'⟩, inner, swapped⟩ := List.mem_map.mp member
  obtain ⟨rfl, rfl⟩ := Prod.mk.inj swapped
  obtain ⟨ii, found⟩ := SortedMap.mem_inners.mp inner
  obtain ⟨c, k, enters, -, rest⟩ := obj_some run found
  exact ⟨c, k, enters, rest⟩

theorem objective_of_enters (run : lpObj d hour cells = some h) {k : Coefficients} (enters : Enters d hour cells c k) :
    ∃ a, (a, lpVarMain c) ∈ objective h := by
  obtain ⟨a, found⟩ := SortedMap.getAt?_ofRowsAt_mem (fun row => invIndex row.1) (fun row => lpVarMain row.1)
    (fun row => row.2.obj) (mem_entered.mpr enters)
  rw [← (lpObj_files d hour run).obj] at found
  exact ⟨a, List.mem_map.mpr ⟨(lpVarMain c, a), SortedMap.mem_inners.mpr ⟨_, found⟩, rfl⟩⟩

/-- Each variable occurs once in the objective: its name determines its placement. -/
theorem nodup_objective (run : lpObj d hour cells = some h) : ((objective h).map Prod.snd).Nodup := by
  have names : (objective h).map Prod.snd = h.obj.inners.map Prod.fst := by
    simp [objective, Function.comp_def]
  rw [names]
  refine SortedMap.nodup_inners ?_
  intro ii ii' v a a' found found'
  obtain ⟨c, k, -, rfl, same, -⟩ := obj_some run found
  obtain ⟨c', k', -, rfl, same', -⟩ := obj_some run found'
  exact invIndex_of_lpVarMain (same.trans same'.symm)

/-! ### The allocation rows -/

theorem mem_placementRows {limited : Limited} {r : Relation Str} :
    (limited, r) ∈ h.maxAlpha.entries.filterMap (placementRow d) ↔ ∃ san site vars,
      h.maxAlpha.get? (toLex (san, site)) = some vars ∧ limited = .placement san site ∧
      (vars.keys.filter fun cell => (d.cellMaxAlpha.get? cell).isNone) ≠ [] ∧
      r = ⟨(vars.keys.filter fun cell => (d.cellMaxAlpha.get? cell).isNone).map fun cell => (1, cell),
        campaignLimit d san⟩ := by
  simp only [List.mem_filterMap, placementRow, Option.ite_none_right_eq_some, Option.some.injEq, Prod.mk.injEq,
    List.length_pos_iff]
  constructor
  · rintro ⟨⟨group, vars⟩, member, nonempty, rfl, rfl⟩
    exact ⟨(ofLex group).1, (ofLex group).2, vars, SortedMap.mem_entries.mp member, rfl, nonempty, rfl⟩
  · rintro ⟨san, site, vars, found, rfl, nonempty, rfl⟩
    exact ⟨(toLex (san, site), vars), SortedMap.mem_entries.mpr found, nonempty, rfl, rfl⟩

theorem placementRow_mentions {group : (Str ×ₗ Str) × SortedMap Str Unit} {row : Limited × Relation Str}
    (printed : placementRow d group = some row) {v : Str} :
    row.2.Mentions v = true ↔ group.2.get? v = some () ∧ d.cellMaxAlpha.get? v = none := by
  simp only [placementRow, Option.ite_none_right_eq_some, Option.some.injEq] at printed
  obtain ⟨-, rfl⟩ := printed
  rw [Relation.mentions_iff]
  simp [SortedMap.mem_keys, Unique.exists_iff]

theorem cellRow_mentions {cap : Str × Option Int} {v : Str} : (cellRow cap).2.Mentions v = true ↔ v = cap.1 := by
  rw [Relation.mentions_iff]
  simp [cellRow]

/-- No two allocation rows mention the same variable. -/
theorem allocationRows_apart (run : lpObj d hour cells = some h) :
    (allocationRows d h).Pairwise fun row row' => ∀ v, row.2.Mentions v = true → row'.2.Mentions v = false := by
  refine List.pairwise_append.mpr ⟨List.pairwise_filterMap.mpr ?_, List.pairwise_map.mpr ?_, ?_⟩
  · refine List.Pairwise.imp_of_mem ?_ h.maxAlpha.sorted
    rintro ⟨group, vars⟩ ⟨group', vars'⟩ member member' before row printed row' printed' v here
    rw [Bool.eq_false_iff]
    intro there
    have found := SortedMap.getAt?_eq_some.mpr
      ⟨vars, SortedMap.mem_entries.mp member, ((placementRow_mentions printed).mp here).1⟩
    have found' := SortedMap.getAt?_eq_some.mpr
      ⟨vars', SortedMap.mem_entries.mp member', ((placementRow_mentions printed').mp there).1⟩
    obtain ⟨c, k, -, rfl, same⟩ := limits_some run found
    obtain ⟨c', k', -, rfl, same'⟩ := limits_some run found'
    have names := same.trans same'.symm
    refine before.ne ?_
    rw [(lpVarMain_injective names).1, invIndex_of_lpVarMain names]
  · refine List.Pairwise.imp ?_ d.cellMaxAlpha.sorted
    intro cap cap' before v here
    rw [Bool.eq_false_iff]
    intro there
    exact before.ne ((cellRow_mentions.mp here).symm.trans (cellRow_mentions.mp there))
  · rintro row member row' member' v here
    obtain ⟨group, -, printed⟩ := List.mem_filterMap.mp member
    obtain ⟨cap, capMember, rfl⟩ := List.mem_map.mp member'
    rw [Bool.eq_false_iff]
    intro there
    have capped := SortedMap.mem_entries.mp capMember
    rw [← cellRow_mentions.mp there, ((placementRow_mentions printed).mp here).2] at capped
    cases capped

/-- A cell with a cap of its own is limited by its own row only. -/
theorem allocationRow_capped (run : lpObj d hour cells = some h) {v : Str} {allocation : Option Int}
    (capped : d.cellMaxAlpha.get? v = some allocation) :
    (allocationRows d h).filter (fun row => row.2.Mentions v) = [cellRow (v, allocation)] := by
  refine filter_of_pairwise ((allocationRows_apart run).imp fun apart => apart v) ?_ (cellRow_mentions.mpr rfl)
  exact List.mem_append_right _ (List.mem_map.mpr ⟨(v, allocation), SortedMap.mem_entries.mpr capped, rfl⟩)

/-- A cell that enters without a cap of its own is limited by the row of its
    campaign on its placement only. -/
theorem allocationRow_uncapped (run : lpObj d hour cells = some h) {k : Coefficients} (enters : Enters d hour cells c k)
    (uncapped : d.cellMaxAlpha.get? (lpVarMain c) = none) :
    ∃ r, (allocationRows d h).filter (fun row => row.2.Mentions (lpVarMain c)) = [(.placement c.san (invIndex c), r)] ∧
      r.limit = campaignLimit d c.san ∧ (1, lpVarMain c) ∈ r.terms ∧ (∀ term ∈ r.terms, term.1 = 1) := by
  obtain ⟨vars, found, inner⟩ := SortedMap.getAt?_eq_some.mp (limits_of_enters run enters)
  have kept : lpVarMain c ∈ vars.keys.filter fun cell => (d.cellMaxAlpha.get? cell).isNone :=
    List.mem_filter.mpr ⟨SortedMap.mem_keys.mpr ⟨(), inner⟩, by simp [uncapped]⟩
  have listed := mem_placementRows.mpr ⟨c.san, invIndex c, vars, found, rfl, List.ne_nil_of_mem kept, rfl⟩
  refine ⟨_, filter_of_pairwise ((allocationRows_apart run).imp fun apart => apart (lpVarMain c))
    (List.mem_append_left _ listed) ?_, rfl, List.mem_map.mpr ⟨_, kept, rfl⟩, ?_⟩
  · exact Relation.mentions_iff.mpr ⟨1, List.mem_map.mpr ⟨_, kept, rfl⟩⟩
  · intro term member
    obtain ⟨cell, -, rfl⟩ := List.mem_map.mp member
    rfl

/-- Every allocation row is a plain sum of cells. -/
theorem allocationRow_coeffs {row : Limited × Relation Str} (member : row ∈ allocationRows d h) :
    ∀ term ∈ row.2.terms, term.1 = 1 := by
  rcases List.mem_append.mp member with placement | cell
  · obtain ⟨limited, r⟩ := row
    obtain ⟨san, site, vars, -, -, -, rfl⟩ := mem_placementRows.mp placement
    intro term termMember
    obtain ⟨name, -, rfl⟩ := List.mem_map.mp termMember
    rfl
  · obtain ⟨cap, -, rfl⟩ := List.mem_map.mp cell
    intro term termMember
    obtain rfl := List.mem_singleton.mp termMember
    rfl

end

end Cdo.Objective
