import Cdo.Misdelivery
import Cdo.Logs

/-!
How misdelivery is recorded (`populateMD` of `cdoPopulate.pm`). For one hour at a
time the logged impressions are filed beside those that the queued bids of that
hour had promised, and then older bids are deleted from the queue. The statement
that deletes them spells the name of the queue in another way, so that it may
fail. Either way, if the hours follow each other and bids are queued for hours
still to come, no bid is lost: each hour is recorded with all bids that were ever
queued for it (`misdelivery_recorded`).
-/
namespace Cdo.MisdeliveryRuns
open Cdo.Text Cdo.Query Cdo.Tables Cdo.Logs Cdo.Misdelivery

/-! ### Tables -/

/-- A row of `DisplayBidsQueueAol`, without its bid. -/
structure QueueRow where
  cellid : Int
  date : Date
  hour : Nat
  adid : Option Int
  siteid : Option Int
  segmentid : Option Int
  eimpressions : Option Int
deriving DecidableEq

def QueueRow.key (row : QueueRow) : Int × Date × Nat := (row.cellid, row.date, row.hour)

def QueueRow.time (row : QueueRow) : Date ×ₗ Nat := toLex (row.date, row.hour)

abbrev Queue := KeyedTable QueueRow.key

def misdeliveryKey (row : MisdeliveryRow) : Date × Nat × Int × Int × Int :=
  (row.date, row.hour, row.adid, row.siteid, row.segmentid)

abbrev MisdeliveryTable := KeyedTable misdeliveryKey

/-- An hour that is recorded, and the logs by then. -/
structure Call where
  date : Date
  hour : Nat
  logs : LogTable

def Call.time (call : Call) : Date ×ₗ Nat := toLex (call.date, call.hour)

def Call.pairs (call : Call) (dl : LogRow) (bq : QueueRow) : Bool :=
  some dl.adid == bq.adid && some dl.siteid == bq.siteid && some dl.segmentid == bq.segmentid &&
    dl.date == bq.date && dl.hour == bq.hour && dl.date == call.date && dl.hour == call.hour &&
    decide (0 < num dl.impressions) && decide (0 < num bq.eimpressions)

def misdeliveryRow (pair : LogRow × QueueRow) : MisdeliveryRow where
  date := pair.1.date
  hour := pair.1.hour
  adid := pair.1.adid
  siteid := pair.1.siteid
  segmentid := pair.1.segmentid
  eimpressions := pair.2.eimpressions
  impressions := pair.1.impressions

def Call.select (call : Call) (queue : Queue) : List MisdeliveryRow :=
  (join call.pairs call.logs.rows queue.rows).map misdeliveryRow

structure State where
  misdelivery : MisdeliveryTable
  queue : Queue

/-- The queue is deleted from under the name `DisplayBidsQueueAOL`, which a server
    may or may not take for the same table. -/
def populateMD (oneTable : Bool) (state : State) (call : Call) : State where
  misdelivery := (state.misdelivery.insert (call.select state.queue)).1
  queue :=
    if oneTable then state.queue.filter fun row => !(decide (row.date < call.date) && decide (row.hour ≤ call.hour))
    else state.queue

/-- Bids are queued, by another program, or an hour is recorded. -/
inductive Event where
  | queued (rows : List QueueRow)
  | recorded (call : Call)

/-- The bids that an event queues. -/
def Event.rows : Event → List QueueRow
  | .queued rows => rows
  | .recorded _ => []

def step (oneTable : Bool) (state : State) : Event → State
  | .queued rows => { state with queue := (state.queue.insert rows).1 }
  | .recorded call => populateMD oneTable state call

/-! ### Order -/

/-- What an event is about lies after some hour. -/
def Event.After (bound : WithBot (Date ×ₗ Nat)) : Event → Prop
  | .queued rows => ∀ row ∈ rows, bound < row.time
  | .recorded call => bound < call.time

/-- After an hour is recorded only later hours are recorded or queued for. -/
def Precedes : Event → Event → Prop
  | .queued _, _ => True
  | .recorded call, later => later.After call.time

/-- What each recorded hour selects, if nothing is ever deleted from the queue. -/
def selections (queue : Queue) : List Event → List (List MisdeliveryRow)
  | [] => []
  | .queued rows :: rest => selections (queue.insert rows).1 rest
  | .recorded call :: rest => call.select queue :: selections queue rest

/-! ### The queue after an hour -/

noncomputable def recent (bound : WithBot (Date ×ₗ Nat)) (row : QueueRow) : Bool := decide (bound < row.time)

section
variable {oneTable : Bool} {state : State} {queue : Queue} {call : Call} {events : List Event}
  {bound : WithBot (Date ×ₗ Nat)}

theorem recent_byKey (row other : QueueRow) (same : row.key = other.key) : recent bound row = recent bound other := by
  simp only [QueueRow.key, Prod.mk.injEq] at same
  rw [recent, recent, QueueRow.time, QueueRow.time, same.2.1, same.2.2]

/-- A later hour is recorded from the recent rows. -/
theorem select_recent (later : bound < call.time) : call.select (queue.filter (recent bound)) = call.select queue := by
  have others : ∀ dl, (queue.rows.filter (recent bound)).filter (call.pairs dl) = queue.rows.filter (call.pairs dl) := by
    intro dl
    rw [List.filter_filter]
    apply List.filter_congr
    intro bq _
    cases paired : call.pairs dl bq with
    | false => rfl
    | true =>
      simp only [Call.pairs, Bool.and_eq_true, beq_iff_eq] at paired
      have time : bq.time = call.time := by
        rw [QueueRow.time, Call.time, ← paired.1.1.1.1.1.2, ← paired.1.1.1.1.2, paired.1.1.1.2, paired.1.1.2]
      simp [recent, time, later]
  show ((call.logs.rows.flatMap fun dl => ((queue.rows.filter (recent bound)).filter (call.pairs dl)).map _).map _) = _
  simp only [others]
  rfl

/-- A deletion spares the rows after the recorded hour. -/
theorem filter_populateMD :
    (populateMD oneTable state call).queue.filter (recent call.time) = state.queue.filter (recent call.time) := by
  rw [populateMD]
  split
  · apply KeyedTable.filter_filter _
    intro row _ isRecent
    have later : call.time < row.time := by simpa [recent] using isRecent
    rcases Prod.Lex.toLex_lt_toLex.mp later with date | ⟨date, hour⟩
    · simp [show ¬ row.date < call.date from date.le.not_gt]
    · simp [show ¬ row.hour ≤ call.hour from hour.not_ge]
  · rfl

/-- With or without deletions the same rows are inserted. -/
theorem misdelivery_selections (plain : Queue) (chronological : events.Pairwise Precedes)
    (later : ∀ event ∈ events, event.After bound)
    (alike : state.queue.filter (recent bound) = plain.filter (recent bound)) :
    (events.foldl (step oneTable) state).misdelivery =
      (selections plain events).foldl (fun t rows => (t.insert rows).1) state.misdelivery := by
  induction events generalizing state plain bound with
  | nil => rfl
  | cons event rest ih =>
    obtain ⟨first, restChronological⟩ := List.pairwise_cons.mp chronological
    have now := later event List.mem_cons_self
    rw [List.foldl_cons]
    cases event with
    | queued rows =>
      have kept : ∀ row ∈ rows, recent bound row = true := fun row member => decide_eq_true (now row member)
      refine ih _ restChronological (fun other member => later other (List.mem_cons_of_mem _ member)) ?_
      rw [KeyedTable.filter_insert kept recent_byKey, ← alike]
      exact KeyedTable.filter_insert kept recent_byKey
    | recorded call =>
      have selected : call.select state.queue = call.select plain := by
        rw [← select_recent now, alike, select_recent now]
      rw [selections, List.foldl_cons, ← selected]
      refine ih plain restChronological first ?_
      have narrower : ∀ row : QueueRow, recent call.time row = true → recent bound row = true := by
        intro row isRecent
        exact decide_eq_true (now.trans (of_decide_eq_true isRecent))
      rw [step, filter_populateMD, ← KeyedTable.filter_filter state.queue fun row _ => narrower row, alike,
        KeyedTable.filter_filter plain fun row _ => narrower row]

/-! ### Recorded hours -/

/-- A cell is one ad on one segment of a site. -/
def OneCell (rows : List QueueRow) : Prop :=
  ∀ row ∈ rows, ∀ other ∈ rows, row.adid = other.adid → row.siteid = other.siteid → row.segmentid = other.segmentid →
    row.cellid = other.cellid

theorem OneCell.mono {rows more : List QueueRow} (oneCell : OneCell more) (sub : ∀ row ∈ rows, row ∈ more) :
    OneCell rows :=
  fun row member other otherMember => oneCell row (sub row member) other (sub other otherMember)

theorem select_time {selected : MisdeliveryRow} (isSelected : selected ∈ call.select queue) :
    toLex (selected.date, selected.hour) = call.time := by
  obtain ⟨pair, isPair, rfl⟩ := List.mem_map.mp isSelected
  have paired := (mem_join.mp isPair).2.2
  simp only [Call.pairs, Bool.and_eq_true, beq_iff_eq] at paired
  rw [Call.time, ← paired.1.1.1.2, ← paired.1.1.2]
  rfl

/-- No key is selected twice: a log row goes with the bid of one cell. -/
theorem select_keys (oneCell : OneCell queue.rows) : ((call.select queue).map misdeliveryKey).Nodup := by
  rw [Call.select, List.map_map]
  refine (nodup_join call.logs.nodup.of_map queue.nodup.of_map).map_on ?_
  rintro ⟨dl, bq⟩ isPair ⟨dl', bq'⟩ isPair' same
  obtain ⟨isLog, isBid, paired⟩ := mem_join.mp isPair
  obtain ⟨isLog', isBid', paired'⟩ := mem_join.mp isPair'
  obtain rfl : dl = dl' := call.logs.eq_of_key isLog isLog' same
  simp only [Call.pairs, Bool.and_eq_true, beq_iff_eq] at paired paired'
  obtain ⟨⟨⟨⟨⟨⟨⟨⟨ad, site⟩, segment⟩, date⟩, hour⟩, -⟩, -⟩, -⟩, -⟩ := paired
  obtain ⟨⟨⟨⟨⟨⟨⟨⟨ad', site'⟩, segment'⟩, date'⟩, hour'⟩, -⟩, -⟩, -⟩, -⟩ := paired'
  have cell := oneCell bq isBid bq' isBid' (ad.symm.trans ad') (site.symm.trans site') (segment.symm.trans segment')
  have sameKey : bq.key = bq'.key := by
    rw [QueueRow.key, QueueRow.key, cell, ← date, ← date', ← hour, ← hour']
  exact congrArg (Prod.mk dl) (queue.eq_of_key isBid isBid' sameKey)

theorem mem_selections {selected : MisdeliveryRow} (member : selected ∈ (selections queue events).flatten) :
    ∃ call, Event.recorded call ∈ events ∧ toLex (selected.date, selected.hour) = call.time := by
  induction events generalizing queue with
  | nil => exact absurd member List.not_mem_nil
  | cons event rest ih =>
    have later : ∀ queue, selected ∈ (selections queue rest).flatten →
        ∃ call, Event.recorded call ∈ event :: rest ∧ toLex (selected.date, selected.hour) = call.time := by
      intro queue inRest
      obtain ⟨call, isRecorded, time⟩ := ih inRest
      exact ⟨call, List.mem_cons_of_mem _ isRecorded, time⟩
    cases event with
    | queued rows => exact later _ member
    | recorded call =>
      rw [selections, List.flatten_cons] at member
      rcases List.mem_append.mp member with now | inRest
      · exact ⟨call, List.mem_cons_self, select_time now⟩
      · exact later _ inRest

theorem selections_keys (chronological : events.Pairwise Precedes)
    (oneCell : OneCell (queue.rows ++ events.flatMap Event.rows)) :
    ((selections queue events).flatten.map misdeliveryKey).Nodup := by
  induction events generalizing queue with
  | nil => exact List.nodup_nil
  | cons event rest ih =>
    obtain ⟨first, restChronological⟩ := List.pairwise_cons.mp chronological
    cases event with
    | queued rows =>
      refine ih restChronological (oneCell.mono fun row member => ?_)
      rw [List.flatMap_cons, Event.rows]
      rcases List.mem_append.mp member with inQueue | later
      · obtain ⟨inserted, left, split, rowsAre, -⟩ := queue.insert_spec rows
        rw [rowsAre] at inQueue
        rcases List.mem_append.mp inQueue with old | new
        · exact List.mem_append_left _ old
        · exact List.mem_append_right _ (List.mem_append_left _ (split ▸ List.mem_append_left _ new))
      · exact List.mem_append_right _ (List.mem_append_right _ later)
    | recorded call =>
      rw [selections, List.flatten_cons, List.map_append, List.nodup_append']
      refine ⟨select_keys (oneCell.mono fun row member => List.mem_append_left _ member), ih restChronological oneCell, ?_⟩
      apply List.disjoint_left.mpr
      intro key isNow isLater
      obtain ⟨now, isSelected, rfl⟩ := List.mem_map.mp isNow
      obtain ⟨later, inRest, same⟩ := List.mem_map.mp isLater
      obtain ⟨next, isRecorded, time⟩ := mem_selections inRest
      have sameTime : toLex (later.date, later.hour) = toLex (now.date, now.hour) := by
        simp only [misdeliveryKey, Prod.mk.injEq] at same
        rw [same.1, same.2.1]
      have after : call.time < next.time := WithBot.coe_lt_coe.mp (first _ isRecorded)
      rw [← time, sameTime, select_time isSelected] at after
      exact absurd after (lt_irrefl _)

/-- Hours that follow each other are recorded with all the bids that were queued for
    them, whether older ones are deleted or not. -/
theorem misdelivery_recorded (oneTable : Bool) (state : State) (events : List Event)
    (chronological : events.Pairwise Precedes) (oneCell : OneCell (state.queue.rows ++ events.flatMap Event.rows))
    (new : ∀ call, Event.recorded call ∈ events → ∀ row ∈ state.misdelivery.rows,
      toLex (row.date, row.hour) ≠ call.time) :
    (events.foldl (step oneTable) state).misdelivery.rows =
      state.misdelivery.rows ++ (selections state.queue events).flatten := by
  have always : ∀ event ∈ events, event.After ⊥ := by
    intro event _
    cases event with
    | queued rows => exact fun row _ => WithBot.bot_lt_coe _
    | recorded call => exact WithBot.bot_lt_coe _
  rw [misdelivery_selections state.queue chronological always rfl,
    KeyedTable.insert_blocks (selections_keys chronological oneCell)]
  intro row member taken
  obtain ⟨old, isOld, same⟩ := KeyedTable.has_iff.mp taken
  obtain ⟨call, isRecorded, time⟩ := mem_selections member
  simp only [misdeliveryKey, Prod.mk.injEq] at same
  exact new call isRecorded old isOld (by rw [same.1, same.2.1, time])

end

/-- A bid for the third hour of a day that promises 200 impressions. -/
def sampleBid (date : Date) : QueueRow := ⟨7, date, 3, some 11, some 20, some 5, some 200⟩

def sampleLog (date : Date) : LogRow :=
  ⟨date, 3, some "auo".toList, 11, none, none, 20, 5, some 150, some 100, some 2, some 1, some 0, some 75⟩

def sampleLogs : LogTable := ⟨[sampleLog 4, sampleLog 5], by decide⟩

/-- The hour is recorded on two days; the second time the first bid is deleted. -/
def twoDays : List Event :=
  [.queued [sampleBid 4], .recorded ⟨4, 3, sampleLogs⟩, .queued [sampleBid 5], .recorded ⟨5, 3, sampleLogs⟩]

theorem misdelivery_recorded_two_days :
    (twoDays.foldl (step true) ⟨.empty, .empty⟩).queue.rows = [sampleBid 5] ∧
      (twoDays.foldl (step true) ⟨.empty, .empty⟩).misdelivery.rows =
        [⟨4, 3, 11, 20, 5, some 200, some 100⟩, ⟨5, 3, 11, 20, 5, some 200, some 100⟩] := by
  refine ⟨by decide, ?_⟩
  have earlier : (toLex (4, 3) : Date ×ₗ Nat) < toLex (5, 3) := Prod.Lex.toLex_lt_toLex.mpr (.inl (by decide))
  have chronological : twoDays.Pairwise Precedes := by
    simp only [twoDays, List.pairwise_cons, List.forall_mem_cons, List.not_mem_nil, false_implies, implies_true,
      List.Pairwise.nil, and_true, Precedes, Event.After, true_and, WithBot.coe_lt_coe]
    exact ⟨earlier, earlier⟩
  have recorded := misdelivery_recorded true ⟨.empty, .empty⟩ twoDays chronological ?_ ?_
  · rw [recorded]
    decide
  · intro row member other otherMember _ _ _
    have sample : ∀ row ∈ twoDays.flatMap Event.rows, row.cellid = 7 := by decide
    exact (sample row member).trans (sample other otherMember).symm
  · exact fun _ _ row isRow => absurd isRow List.not_mem_nil

end Cdo.MisdeliveryRuns
