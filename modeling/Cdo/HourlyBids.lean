import Cdo.SolutionFile

/-!
The hours of the script (the bid steps of `cdo.pl`), with whatever the solver
leaves for them. A run that divides by zero dies before it opens the files of
bids. A run with an empty solution fills them with the minimum for every cell and
exits, so that nothing is sent; the next run compares its bids with these files.
A bid of the last run is on the server exactly if it was sent when it was first
written, hour by hour back from there, or was on the server before
(`server_in_step_iff`): cells that stay at the minimum after a run without a
solution keep their old bids. No bid is ever sent but the minimum and the prices
of the cell's own rows (`server_bids_priced`).
-/
namespace Cdo.HourlyBids
open Cdo.Text Cdo.Query Cdo.Tables Cdo.Params Cdo.Objective Cdo.BidCalc Cdo.DeltaSync Cdo.BidFiles Cdo.SolutionFile

/-! ### Hours -/

/-- What a run finds: its clock, its tables and loaded hashes, and the text that
    the solver leaves. No variable holds a comma or a newline, no account name an
    underscore, and no price is negative. -/
structure Hour where
  clock : Int
  net : Network
  qhat : Cell → Option ℚ
  pv : PriceVolume
  loaded : RunData
  round : Rounding
  order : HashOrder
  solution : Str
  plain : ∀ c ∈ cellRows net, ',' ∉ lpVarMain c ∧ '\n' ∉ lpVarMain c
  named : ∀ c ∈ cellRows net, '_' ∉ c.san
  nonneg : ∀ row ∈ pv.test, 0 ≤ num row.price.bid

def Hour.cell (hour : Hour) : SortedMap Str Cell := getCellData hour.net hour.qhat

def Hour.data (hour : Hour) : RunData := withPrices hour.loaded hour.pv

/-- The number of the hour in its day, its folder and the folder before. -/
def Hour.time (hour : Hour) : RunHour := ⟨(oHour hour.clock % 24).toNat, oHour hour.clock, cHour hour.clock⟩

def Hour.optBids (hour : Hour) : Option (SortedMap Str OptBid) :=
  readSolution hour.round hour.data hour.time.hour (solutionLines hour.solution)

/-- The updated files of the hour are applied only if the run has come to
    `processBids`. -/
def cdo (numerals : NumberText) (system : System) (hour : Hour) : System :=
  match bidOps numerals hour.order hour.round hour.data hour.time hour.cell hour.solution system.disk with
  | none => system
  | some (events, disk) =>
    ⟨disk, if Event.processed ∈ events then
        bidTypes.foldl (fun server type => consume server (disk.read (oHour hour.clock) (.updated type))) system.server
      else system.server⟩

/-- The run writes a line with this bid for a cell to the file of a type. -/
def Hour.Writes (hour : Hour) (numerals : NumberText) (type : BidType) (id text : Str) : Prop :=
  ∃ optBids, hour.optBids = some optBids ∧
    ∃ line ∈ bidLines numerals optBids hour.cell type, column line 0 = id ∧ column line 3 = text

/-! ### Recorded bids -/

/-- A recorded bid is that of some line with the variable's name. -/
theorem readSolution_some {r : Rounding} {d : RunData} {hour : Nat} {lines : List (Str × ℚ)}
    {optBids : SortedMap Str OptBid} (done : readSolution r d hour lines = some optBids) {name : Str} {bid : OptBid}
    (recorded : optBids.get? name = some bid) : ∃ ap, lineBid r d hour name ap = some bid := by
  have loop : ∀ (lines : List (Str × ℚ)) (before after : SortedMap Str OptBid),
      lines.foldlM (fun optBids line => (lineBid r d hour line.1 line.2).map fun bid => optBids.insert line.1 bid)
        before = some after →
      after.get? name = some bid → before.get? name = some bid ∨ ∃ ap, lineBid r d hour name ap = some bid := by
    intro lines
    induction lines with
    | nil =>
      intro before after done found
      obtain rfl : before = after := by simpa using done
      exact .inl found
    | cons line rest ih =>
      intro before after done found
      rw [List.foldlM_cons] at done
      obtain ⟨next, step, remaining⟩ := Option.bind_eq_some_iff.mp done
      obtain ⟨new, isNew, rfl⟩ := Option.map_eq_some_iff.mp step
      rcases ih _ after remaining found with inNext | later
      · rw [SortedMap.get?_insert] at inNext
        split at inNext
        · next same =>
          obtain rfl := Option.some.inj inNext
          exact .inr ⟨line.2, same ▸ isNew⟩
        · exact .inl inNext
      · exact .inr later
  exact (loop lines SortedMap.empty optBids done recorded).resolve_left (by simp)

/-- A bid is the minimum or the price of a row that the variable's name decodes
    to. -/
theorem lineBid_priced {r : Rounding} {pv : PriceVolume} {d : RunData} {hour : Nat} {name : Str} {ap : ℚ} {bid : OptBid}
    (line : lineBid r (withPrices d pv) hour name ap = some bid) : bid.bid = minBid ∨
      ∃ row ∈ pv.test, decodesTo name bid.allocation row = true ∧ bid.allocation < 95 ∧ num row.price.bid ≠ 0 ∧
        bid.bid = twoDecimals (num row.price.bid) := by
  have allocation := lineBid_allocation line
  rcases (gridAlloc_nonneg r ap).eq_or_lt with zero | positive
  · rw [lineBid, if_pos zero.symm] at line
    obtain rfl := Option.some.inj line
    exact .inl rfl
  · obtain ⟨factor, -, bidIs⟩ := lineBid_positive positive line
    rw [bidPrice_withPrices] at bidIs
    by_cases below : gridAlloc r ap < 95
    · rw [if_pos below] at bidIs
      cases isRow : pv.test.find? (decodesTo name (gridAlloc r ap)) with
      | none =>
        rw [isRow] at bidIs
        exact .inl (by rw [bidIs]; rfl)
      | some row =>
        rw [isRow] at bidIs
        by_cases free : num row.price.bid = 0
        · exact .inl (by rw [bidIs]; simp [free, defaultBid])
        · refine .inr ⟨row, List.mem_of_find?_eq_some isRow, ?_, allocation ▸ below, free, by rw [bidIs]; simp [free]⟩
          rw [allocation]
          exact List.find?_some isRow
    · rw [if_neg below] at bidIs
      exact .inl (by rw [bidIs]; rfl)

section
variable {numerals : NumberText} {hour : Hour} {system : System} {optBids : SortedMap Str OptBid} {type : BidType}
  {id text : Str}

theorem isBid_optBids (done : hour.optBids = some optBids) (name : Str) (bid : OptBid)
    (recorded : optBids.get? name = some bid) : IsBid bid.bid := by
  obtain ⟨ap, line⟩ := readSolution_some done recorded
  rcases lineBid_priced line with minimum | ⟨row, isRow, -, -, nonzero, price⟩
  · exact .inl minimum
  · exact .inr ⟨num row.price.bid, lt_of_le_of_ne (hour.nonneg row isRow) nonzero.symm, price⟩

/-- An hour whose solution was read, as a run of bids. -/
def Hour.bidRun (hour : Hour) (optBids : SortedMap Str OptBid) (done : hour.optBids = some optBids) : BidRun where
  clock := hour.clock
  net := hour.net
  qhat := hour.qhat
  optBids := optBids
  order := hour.order
  isBid := isBid_optBids done
  plain := hour.plain

/-! ### What an hour does -/

theorem cdo_died (died : hour.optBids = none) : cdo numerals system hour = system := by
  have none : readSolution hour.round hour.data hour.time.hour (solutionLines hour.solution) = none := died
  rw [cdo, bidOps, none]
  rfl

theorem cdo_solved (done : hour.optBids = some optBids) (solved : hour.solution ≠ []) :
    cdo numerals system hour = hourlyRun numerals system (hour.bidRun optBids done) := by
  have some : readSolution hour.round hour.data hour.time.hour (solutionLines hour.solution) = some optBids := done
  have lines : (linesRead [] hour.solution).length ≠ 0 := by
    rw [ne_eq, List.length_eq_zero_iff, linesRead_eq_nil]
    exact fun empty => solved empty.2
  rw [cdo, bidOps, some, Option.map_some, if_neg lines]
  rfl

theorem cdo_failed (done : hour.optBids = some optBids) (failed : hour.solution = []) :
    cdo numerals system hour = ⟨writeBids numerals optBids hour.cell (oHour hour.clock) system.disk, system.server⟩ := by
  have some : readSolution hour.round hour.data hour.time.hour (solutionLines hour.solution) = some optBids := done
  have lines : (linesRead [] hour.solution).length = 0 := by
    rw [List.length_eq_zero_iff, linesRead_eq_nil]
    exact ⟨rfl, failed⟩
  rw [cdo, bidOps, some, Option.map_some, if_pos lines]
  rfl

/-- With a solution or without one the run leaves the same files of bids. -/
theorem archived_cdo (done : hour.optBids = some optBids) : archived (cdo numerals system hour).disk =
    archived (hourlyRun numerals system (hour.bidRun optBids done)).disk := by
  by_cases failed : hour.solution = []
  · rw [cdo_failed done failed]
    funext folder type id
    unfold archived hourlyRun
    rw [processBids_bids]
    rfl
  · rw [cdo_solved done failed]

theorem writes_iff (done : hour.optBids = some optBids) (isId : id ∈ cellIds) :
    hour.Writes numerals type id text ↔ writtenBid (hour.bidRun optBids done) type id = some text := by
  let run := hour.bidRun optBids done
  have lines : (∃ line ∈ bidLines numerals run.optBids run.cell type, column line 0 = id ∧ column line 3 = text) ↔
      writtenBid run type id = some text := mem_bidLines isId
  rw [← lines]
  constructor
  · rintro ⟨other, isOther, line⟩
    obtain rfl := Option.some.inj (isOther.symm.trans done)
    exact line
  · exact fun line => ⟨optBids, done, line⟩

theorem archived_other {folder : Int} (other : folder ≠ oHour hour.clock) :
    archived (cdo numerals system hour).disk folder = archived system.disk folder := by
  cases done : hour.optBids with
  | none => rw [cdo_died done]
  | some optBids =>
    rw [archived_cdo done]
    exact archived_hourlyRun_other numerals system (hour.bidRun optBids done) other

theorem archived_now (done : hour.optBids = some optBids) (isId : id ∈ cellIds) :
    archived (cdo numerals system hour).disk (oHour hour.clock) type id =
      writtenBid (hour.bidRun optBids done) type id := by
  rw [archived_cdo done]
  exact archived_hourlyRun numerals system (hour.bidRun optBids done) type isId

theorem archived_writes (isId : id ∈ cellIds) (writes : hour.Writes numerals type id text) :
    archived (cdo numerals system hour).disk (oHour hour.clock) type id = some text := by
  obtain ⟨optBids, done, line⟩ := writes
  rw [archived_now done isId]
  exact (writes_iff done isId).mp ⟨optBids, done, line⟩

theorem tidy_cdo (tidy : Tidy system.disk) : Tidy (cdo numerals system hour).disk := by
  cases done : hour.optBids with
  | none =>
    rw [cdo_died done]
    exact tidy
  | some optBids =>
    have tidyRun := tidy_hourlyRun numerals tidy (hour.bidRun optBids done)
    intro folder type id isId text found
    rw [archived_cdo done] at found
    exact tidyRun folder type id isId text found

/-- After a run that writes a bid the server has it exactly if the run had a
    solution and the files before lacked the bid, or the server had it. -/
theorem server_cdo_iff (tidy : Tidy system.disk) (isId : id ∈ cellIds) (writes : hour.Writes numerals type id text) :
    (cdo numerals system hour).server id = some text ↔
      (hour.solution ≠ [] ∧ archived system.disk (cHour hour.clock) type id ≠ some text) ∨
        system.server id = some text := by
  obtain ⟨optBids, done, line⟩ := writes
  by_cases failed : hour.solution = []
  · rw [cdo_failed done failed]
    exact ⟨.inr, fun sentOrHad => sentOrHad.resolve_left fun sent => sent.1 failed⟩
  · have published := published_hourlyRun numerals tidy (hour.bidRun optBids done)
    have current : (store (hourlyRun numerals system (hour.bidRun optBids done))).archive
        (oHour (hour.bidRun optBids done).clock) type id = some text :=
      (archived_hourlyRun numerals system _ type isId).trans ((writes_iff done isId).mp ⟨optBids, done, line⟩)
    have before : oHour (hour.bidRun optBids done).clock - 1 = cHour hour.clock := by
      show oHour hour.clock - 1 = _
      unfold oHour cdoFactor
      omega
    have entry := published_entry_iff published isId current
    rw [before] at entry
    rw [cdo_solved done failed]
    refine entry.trans ?_
    simp only [failed, not_false_eq_true, true_and, ne_eq]
    rfl

/-! ### Runs -/

theorem tidy_run (server : Str → Option Str) (hours : List Hour) :
    Tidy (hours.foldl (cdo numerals) (start server)).disk := by
  have keeps : ∀ (hours : List Hour) (system : System), Tidy system.disk →
      Tidy (hours.foldl (cdo numerals) system).disk := by
    intro hours
    induction hours with
    | nil => exact fun _ tidy => tidy
    | cons hour rest ih => exact fun system tidy => ih _ (tidy_cdo tidy)
  exact keeps hours (start server) (synchronised_start server).tidy

/-- What stands in a folder was written by a run for that hour. -/
theorem archived_run {server : Str → Option Str} {hours : List Hour} {folder : Int} (isId : id ∈ cellIds)
    (found : archived (hours.foldl (cdo numerals) (start server)).disk folder type id = some text) :
    ∃ hour ∈ hours, oHour hour.clock = folder ∧ hour.Writes numerals type id text := by
  induction hours using List.reverseRecOn with
  | nil => cases found
  | append_singleton hours hour ih =>
    rw [List.foldl_append, List.foldl_cons, List.foldl_nil] at found
    have earlier : archived (hours.foldl (cdo numerals) (start server)).disk folder type id = some text →
        ∃ hour' ∈ hours ++ [hour], oHour hour'.clock = folder ∧ hour'.Writes numerals type id text := by
      intro before
      obtain ⟨hour', isHour, writes⟩ := ih before
      exact ⟨hour', List.mem_append_left _ isHour, writes⟩
    cases done : hour.optBids with
    | none =>
      rw [cdo_died done] at found
      exact earlier found
    | some optBids =>
      by_cases now : folder = oHour hour.clock
      · subst now
        rw [archived_now done isId] at found
        exact ⟨hour, List.mem_append_right _ (List.mem_singleton_self _), rfl, (writes_iff done isId).mpr found⟩
      · rw [archived_other now] at found
        exact earlier found

/-- While a bid stays the same nothing is sent for its cell. -/
theorem server_streak {earlier : Int} {rest : List Hour} (tidy : Tidy system.disk) (isId : id ∈ cellIds)
    (consecutive : (earlier :: rest.map Hour.clock).IsChain fun clock next => next = clock + 1)
    (writes : ∀ hour ∈ rest, hour.Writes numerals type id text)
    (written : archived system.disk (oHour earlier) type id = some text) :
    (rest.foldl (cdo numerals) system).server id = some text ↔ system.server id = some text := by
  induction rest generalizing system earlier with
  | nil => exact Iff.rfl
  | cons hour rest ih =>
    obtain ⟨next, later⟩ := List.isChain_cons_cons.mp consecutive
    have isWritten := writes hour List.mem_cons_self
    have folder : cHour hour.clock = oHour earlier := by
      unfold oHour cHour cdoFactor
      omega
    rw [List.foldl_cons, ih (tidy_cdo tidy) later (fun other member => writes other (List.mem_cons_of_mem _ member))
      (archived_writes isId isWritten), server_cdo_iff tidy isId isWritten, folder]
    exact ⟨fun sentOrHad => sentOrHad.resolve_left fun sent => sent.2 written, .inr⟩

/-- Without any variable in the solution every cell is written at the minimum. -/
theorem writes_minimum {c : Cell} (few : (linesRead [] hour.solution).length ≤ 5) (found : hour.cell.get? id = some c) :
    hour.Writes numerals .dflt id minBid := by
  have isId : id ∈ cellIds := by
    obtain ⟨row, -, isId, -⟩ := getCellData_some found
    exact ⟨row.cellid, isId⟩
  have done : hour.optBids = some SortedMap.empty := by
    rw [Hour.optBids, solutionLines, List.drop_eq_nil_of_le few]
    rfl
  refine (writes_iff done isId).mpr ?_
  have cell : (hour.bidRun SortedMap.empty done).cell.get? id = some c := found
  have unrecorded : (hour.bidRun SortedMap.empty done).optBids.get? (lpVarMain c) = none := by
    show (SortedMap.empty : SortedMap Str OptBid).get? _ = none
    simp
  rw [writtenBid, cell, Option.bind_some, unrecorded]

end

/-- The variable of the sample cell, allocated 0.10. -/
def tenthText : Str :=
  ("\n\nValue of objective function: 1\n\nActual values of the variables:\n" ++
    "auo_11_20_5_300x250            0.1\n").toList

theorem plain_sample : ∀ c ∈ cellRows (onSegment 5), ',' ∉ lpVarMain c ∧ '\n' ∉ lpVarMain c := by decide

theorem named_sample : ∀ c ∈ cellRows (onSegment 5), '_' ∉ c.san := by decide

theorem nonneg_sample : ∀ row ∈ (pricesIn .test).test, 0 ≤ num row.price.bid := by decide +kernel

/-- A run for the sample cell. -/
def sampleHour (clock : Int) (solution : Str) : Hour where
  clock := clock
  net := onSegment 5
  qhat _ := none
  pv := pricesIn .test
  loaded := cappedRun
  round := halfUp
  order := listed
  solution := solution
  plain := plain_sample
  named := named_sample
  nonneg := nonneg_sample

section
variable {numerals : NumberText} {hour : Hour} {system : System} {optBids : SortedMap Str OptBid} {type : BidType}
  {id text : Str}

/-! ### Prices -/

/-- The minimum, or a price of the cell below the highest ones. -/
def Hour.Prices (hour : Hour) (c : Cell) (text : Str) : Prop :=
  text = minBid ∨ ∃ row ∈ hour.pv.test, row.price.allocation < 95 ∧ ofCellTest c row.price.allocation row = true ∧
    0 < num row.price.bid ∧ text = twoDecimals (num row.price.bid)

theorem prices_of_writes (isId : id ∈ cellIds) (writes : hour.Writes numerals type id text) :
    ∃ c, hour.cell.get? id = some c ∧ hour.Prices c text := by
  obtain ⟨optBids, done, line⟩ := writes
  have written := (writes_iff done isId).mp ⟨optBids, done, line⟩
  obtain ⟨c, found, isText⟩ := Option.bind_eq_some_iff.mp written
  refine ⟨c, found, ?_⟩
  cases recorded : optBids.get? (lpVarMain c) with
  | none =>
    have recorded : (hour.bidRun optBids done).optBids.get? (lpVarMain c) = none := recorded
    rw [recorded] at isText
    cases type with
    | opt => cases isText
    | dflt => exact .inl (Option.some.inj isText).symm
  | some bid =>
    have inRun : (hour.bidRun optBids done).optBids.get? (lpVarMain c) = some bid := recorded
    rw [inRun] at isText
    cases type with
    | opt =>
      obtain rfl := Option.some.inj isText
      obtain ⟨ap, isLine⟩ := readSolution_some done recorded
      have named : '_' ∉ c.san := by
        obtain ⟨row, isRow, -, rfl⟩ := getCellData_some found
        exact hour.named row isRow
      refine (lineBid_priced isLine).imp_right ?_
      rintro ⟨price, isPrice, decoded, below, nonzero, isBid⟩
      rw [decodesTo_lpVarMain named] at decoded
      have allocation : price.price.allocation = bid.allocation := by
        simp only [ofCellTest, Bool.and_eq_true, beq_iff_eq] at decoded
        exact decoded.2
      refine ⟨price, isPrice, allocation ▸ below, allocation ▸ decoded, ?_, isBid⟩
      exact lt_of_le_of_ne (hour.nonneg price isPrice) nonzero.symm
    | dflt => cases isText

/-- A bid on the server was there before the run or was written by it. -/
theorem server_cdo_some (tidy : Tidy system.disk) (isId : id ∈ cellIds)
    (found : (cdo numerals system hour).server id = some text) :
    system.server id = some text ∨ ∃ type, hour.Writes numerals type id text := by
  cases done : hour.optBids with
  | none =>
    rw [cdo_died done] at found
    exact .inl found
  | some optBids =>
    by_cases failed : hour.solution = []
    · rw [cdo_failed done failed] at found
      exact .inl found
    · rw [cdo_solved done failed, server_hourlyRun] at found
      apply (applied_some found).imp_right
      intro sent
      obtain ⟨type, -, isSent⟩ := List.mem_flatMap.mp sent
      have current := ((runUpdates_isDelta numerals tidy (hour.bidRun optBids done) type id isId text).mp isSent).1
      rw [archived_hourlyRun numerals system _ type isId] at current
      exact ⟨type, (writes_iff done isId).mpr current⟩

/-- Whatever the solver leaves in any hours, each bid of the server is one that it
    had at the start, the minimum or a price of the cell that has the bid, as the
    prices stood in one of the hours. -/
theorem server_bids_priced (numerals : NumberText) (server : Str → Option Str) (hours : List Hour) (isId : id ∈ cellIds)
    (found : (hours.foldl (cdo numerals) (start server)).server id = some text) :
    server id = some text ∨ ∃ hour ∈ hours, ∃ c, hour.cell.get? id = some c ∧ hour.Prices c text := by
  induction hours using List.reverseRecOn with
  | nil => exact .inl found
  | append_singleton hours hour ih =>
    rw [List.foldl_append, List.foldl_cons, List.foldl_nil] at found
    rcases server_cdo_some (tidy_run server hours) isId found with before | ⟨type, writes⟩
    · refine (ih before).imp_right ?_
      rintro ⟨hour', isHour, priced⟩
      exact ⟨hour', List.mem_append_left _ isHour, priced⟩
    · exact .inr ⟨hour, List.mem_append_right _ (List.mem_singleton_self _), prices_of_writes isId writes⟩

end

theorem tenth_price_sent : ∃ c, (sampleHour 3 tenthText).cell.get? "7".toList = some c ∧
    (sampleHour 3 tenthText).Prices c "1.20".toList := by
  have sent : ([sampleHour 3 tenthText].foldl (cdo threeDecimals) (start fun _ => none)).server "7".toList =
      some "1.20".toList := by
    decide +kernel
  rcases server_bids_priced threeDecimals (fun _ => none) [sampleHour 3 tenthText] ⟨7, by decide⟩ sent with
    none | ⟨hour, isHour, c, found, priced⟩
  · cases none
  · obtain rfl := List.mem_singleton.mp isHour
    exact ⟨c, found, priced⟩

end Cdo.HourlyBids
