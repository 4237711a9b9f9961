import Cdo.LevelData

/-!
What `Qhat` reads for the cell itself, against the counters of
`DisplayLogsByDOWHour`. A campaign's mode says how much of the history of its
cells counts: the hour of the day of the week (3), the hour on any day (2) or
all of it (1). `cell` returns the hash of the first mode only; the rows of the
other two are written into another variable, so cells of those campaigns read as
cells without history (`cell_history_iff`).
-/
namespace Cdo.CellHistory
open Cdo.Text Cdo.Query Cdo.Tables Cdo.QHatAggregations
open Cdo.LevelData (noNull_zero oneCell theCell)

structure DowHourTable where
  rows : List DowHourRow
  key : (rows.map fun row => (row.dow, row.hour, row.adid, row.siteid, row.segmentid)).Nodup

def OfCell (c : Cell) (row : DowHourRow) : Bool :=
  row.adid == c.adid && row.siteid == c.siteid && row.segmentid == c.segmentid

/-- A cell has one row for an hour on a day of the week. -/
theorem DowHourTable.row_unique (table : DowHourTable) {c : Cell} {row row' : DowHourRow} (member : row ∈ table.rows)
    (member' : row' ∈ table.rows) (ofCell : OfCell c row = true) (ofCell' : OfCell c row' = true)
    (sameDow : row.dow = row'.dow) (sameHour : row.hour = row'.hour) : row = row' := by
  simp only [OfCell, Bool.and_eq_true, beq_iff_eq] at ofCell ofCell'
  refine List.inj_on_of_nodup_map table.key member member' ?_
  simp only [sameDow, sameHour, ofCell.1.1, ofCell.1.2, ofCell.2, ofCell'.1.1, ofCell'.1.2, ofCell'.2]

def counters (row : DowHourRow) : Int × Int := (num row.impressions, num row.actions)

def sums (rows : List DowHourRow) : Int × Int :=
  ((rows.map fun row => num row.impressions).sum, (rows.map fun row => num row.actions).sum)

/-- The history that counts for a cell in a campaign of a mode: the counters of
    the hour on that day of the week, the sums over the days at that hour, the
    sums over all days and hours; nothing is said of other modes. -/
def history (table : DowHourTable) (dow hour : Nat) (c : Cell) (timestatus : Option Int) : Option (Int × Int) :=
  if timestatus = some 3 then
    some (((table.rows.find? fun row => OfCell c row && row.dow == dow && row.hour == hour).map counters).getD (0, 0))
  else if timestatus = some 2 then some (sums (table.rows.filter fun row => OfCell c row && row.hour == hour))
  else if timestatus = some 1 then some (sums (table.rows.filter fun row => OfCell c row))
  else none

/-- When the estimator reads that history: in the day and hour mode unless a
    counter is negative, in the other two modes only if there is nothing to read. -/
def HistoryRead (table : DowHourTable) (dow hour : Nat) (c : Cell) (timestatus : Option Int) : Prop :=
  (timestatus = some 3 → ∀ row ∈ table.rows, OfCell c row = true → row.dow = dow → row.hour = hour →
    0 ≤ num row.impressions ∧ 0 ≤ num row.actions) ∧
  (timestatus = some 2 → sums (table.rows.filter fun row => OfCell c row && row.hour == hour) = (0, 0)) ∧
  (timestatus = some 1 → sums (table.rows.filter fun row => OfCell c row) = (0, 0))

/-! ### The returned hash -/

section
variable {net : Network} {table : DowHourTable} {dow hour : Nat} {c : Cell} {camp : Campaign}

theorem mem_loggedRows {logs : List DowHourRow} {timestatus : Int} {row : LoggedRow} :
    row ∈ loggedRows net logs timestatus ↔ row.1.1 ∈ logs ∧ row.1.2 ∈ net.media ∧ row.2 ∈ net.campaign ∧
      row.1.1.adid = row.1.2.adid ∧ row.1.2.active = some 1 ∧ row.1.2.san = row.2.san ∧ row.2.usepoe = some 1 ∧
      row.2.timestatus = some timestatus := by
  simp only [loggedRows, mem_join, Campaign.optimised, Bool.and_eq_true, beq_iff_eq]
  tauto

theorem campaign_unique (oneRow : (net.campaign.map Campaign.san).Nodup) {k k' : Campaign} (member : k ∈ net.campaign)
    (member' : k' ∈ net.campaign) (same : k.san = k'.san) : k = k' :=
  List.inj_on_of_nodup_map oneRow member member' same

theorem active_media (active : c ∈ cellRows net) :
    ∃ m ∈ net.media, m.adid = c.adid ∧ m.active = some 1 ∧ m.san = c.san ∧ m.size = c.size := by
  obtain ⟨cdo, -, m, member, _, -, ad, -, mActive, -, -, rfl⟩ := mem_cellRows.mp active
  exact ⟨m, member, ad.symm, mActive, rfl, rfl⟩

theorem loggedKey_eq {row : LoggedRow} (same : loggedKey row = lpInd c) :
    row.1.1.san = c.san ∧ OfCell c row.1.1 = true := by
  unfold loggedKey lpInd at same
  obtain ⟨san, fields⟩ := joined_tail_injective (by simp) (by simp [row.1.2.size.plain]) (by simp [c.size.plain]) same
  simp only [List.cons.injEq, and_true] at fields
  refine ⟨san, ?_⟩
  simp only [OfCell, Bool.and_eq_true, beq_iff_eq]
  exact ⟨⟨intText_injective fields.1, intText_injective fields.2.1⟩, intText_injective fields.2.2.1⟩

/-- The rows of the returned hash that are filed under a cell's index are the
    cell's rows at the hour, and their campaign is in the day and hour mode. -/
theorem returned_row (oneRow : (net.campaign.map Campaign.san).Nodup)
    (ownSan : ∀ row ∈ table.rows, ∀ m ∈ net.media, row.adid = m.adid → row.san = m.san)
    (campMember : camp ∈ net.campaign) (campSan : camp.san = c.san) {row : LoggedRow}
    (member : row ∈ (loggedRows net table.rows 3).filter fun row => row.1.1.dow == dow && row.1.1.hour == hour)
    (same : loggedKey row = lpInd c) :
    camp.timestatus = some 3 ∧ row.1.1 ∈ table.rows ∧ OfCell c row.1.1 = true ∧ row.1.1.dow = dow ∧
      row.1.1.hour = hour := by
  obtain ⟨logged, atTime⟩ := List.mem_filter.mp member
  obtain ⟨logMember, mMember, kMember, ad, -, kSan, -, mode⟩ := mem_loggedRows.mp logged
  obtain ⟨san, ofCell⟩ := loggedKey_eq same
  have campIs : row.2 = camp := by
    refine campaign_unique oneRow kMember campMember ?_
    rw [campSan, ← san, ownSan _ logMember _ mMember ad, kSan]
  simp only [Bool.and_eq_true, beq_iff_eq] at atTime
  exact ⟨campIs ▸ mode, logMember, ofCell, atTime.1, atTime.2⟩

/-- Cells of campaigns in the other modes read as cells without history. -/
theorem qhatCell_other (r : Rollups) (oneRow : (net.campaign.map Campaign.san).Nodup)
    (ownSan : ∀ row ∈ table.rows, ∀ m ∈ net.media, row.adid = m.adid → row.san = m.san)
    (campMember : camp ∈ net.campaign) (campSan : camp.san = c.san) (other : camp.timestatus ≠ some 3) :
    qhatCell (getOptimizationData net r table.rows dow hour) c = (0, 0) := by
  have none : (getOptimizationData net r table.rows dow hour).cellKNA.get? (lpInd c) = none := by
    refine SortedMap.get?_ofRows_none ?_
    intro row member same
    exact other (returned_row oneRow ownSan campMember campSan member same).1
  simp [qhatCell, none, noNull]

/-- A row that a search for the cell's row of an hour finds is that row. -/
theorem found_at {log : DowHourRow}
    (found : (table.rows.find? fun row => OfCell c row && row.dow == dow && row.hour == hour) = some log) :
    log ∈ table.rows ∧ OfCell c log = true ∧ log.dow = dow ∧ log.hour = hour := by
  have logIs := List.find?_some found
  simp only [Bool.and_eq_true, beq_iff_eq] at logIs
  obtain ⟨⟨ofCell, onDow⟩, atHour⟩ := logIs
  exact ⟨List.mem_of_find?_eq_some found, ofCell, onDow, atHour⟩

/-- In the day and hour mode the estimator reads the counters of the cell's row
    at the hour, and zeros without such a row. -/
theorem qhatCell_dowHour (r : Rollups) (oneRow : (net.campaign.map Campaign.san).Nodup)
    (ownSan : ∀ row ∈ table.rows, ∀ m ∈ net.media, row.adid = m.adid → row.san = m.san)
    (active : c ∈ cellRows net) (campMember : camp ∈ net.campaign) (campSan : camp.san = c.san)
    (used : camp.usepoe = some 1) (mode : camp.timestatus = some 3) :
    qhatCell (getOptimizationData net r table.rows dow hour) c =
      ((table.rows.find? fun row => OfCell c row && row.dow == dow && row.hour == hour).map fun row =>
        (max (num row.impressions) 0, max (num row.actions) 0)).getD (0, 0) := by
  cases found : table.rows.find? fun row => OfCell c row && row.dow == dow && row.hour == hour with
  | none =>
    have none : (getOptimizationData net r table.rows dow hour).cellKNA.get? (lpInd c) = none := by
      refine SortedMap.get?_ofRows_none ?_
      intro row member same
      obtain ⟨-, logMember, ofCell, onDow, atHour⟩ := returned_row oneRow ownSan campMember campSan member same
      have absent := List.find?_eq_none.mp found row.1.1 logMember
      exact absent (by simp [ofCell, onDow, atHour])
    simp [qhatCell, none, noNull]
  | some log =>
    obtain ⟨m, mMember, ad, mActive, mSan, mSize⟩ := active_media active
    obtain ⟨logMember, ofCell, onDow, atHour⟩ := found_at found
    have columns := ofCell
    simp only [OfCell, Bool.and_eq_true, beq_iff_eq] at columns
    obtain ⟨⟨logAd, logSite⟩, logSegment⟩ := columns
    -- the cell's row, joined with its ad and campaign, is one of the fetched rows
    have listed : ((log, m), camp) ∈
        (loggedRows net table.rows 3).filter fun row => row.1.1.dow == dow && row.1.1.hour == hour := by
      refine List.mem_filter.mpr ⟨mem_loggedRows.mpr ?_, by simp [onDow, atHour]⟩
      exact ⟨logMember, mMember, campMember, logAd.trans ad.symm, mActive, mSan.trans campSan.symm, used, mode⟩
    have key : loggedKey ((log, m), camp) = lpInd c := by
      have logSan : log.san = c.san := (ownSan log logMember m mMember (logAd.trans ad.symm)).trans mSan
      simp only [loggedKey, lpInd, logSan, logAd, logSite, logSegment, mSize]
    have fetched : (getOptimizationData net r table.rows dow hour).cellKNA.get? (lpInd c) =
        some (knaOf ((log, m), camp)) := by
      rw [← key]
      refine SortedMap.get?_ofRows_eq listed ?_
      intro other member same
      obtain ⟨-, otherMember, otherCell, otherDow, otherHour⟩ :=
        returned_row oneRow ownSan campMember campSan member (same.trans key)
      have equal : other.1.1 = log :=
        table.row_unique otherMember logMember otherCell ofCell (otherDow.trans onDow.symm) (otherHour.trans atHour.symm)
      simp only [knaOf, equal]
    simp [qhatCell, fetched, knaOf, noNull_zero]

end

/-! ### Agreement -/

/-- The estimator reads the history of a cell that its campaign's mode asks for
    exactly when the mode is the day and hour one, without negative counters, or
    there is nothing to read. -/
theorem cell_history_iff (net : Network) (r : Rollups) (table : DowHourTable) (dow hour : Nat) (c : Cell)
    (camp : Campaign) (oneRow : (net.campaign.map Campaign.san).Nodup)
    (ownSan : ∀ row ∈ table.rows, ∀ m ∈ net.media, row.adid = m.adid → row.san = m.san)
    (active : c ∈ cellRows net) (campMember : camp ∈ net.campaign) (campSan : camp.san = c.san)
    (used : camp.usepoe = some 1) :
    (∀ expected, history table dow hour c camp.timestatus = some expected →
      qhatCell (getOptimizationData net r table.rows dow hour) c = expected) ↔
    HistoryRead table dow hour c camp.timestatus := by
  by_cases byDow : camp.timestatus = some 3
  · rw [qhatCell_dowHour r oneRow ownSan active campMember campSan used byDow]
    simp only [history, HistoryRead, byDow, if_true, Option.some.injEq, forall_eq']
    cases found : table.rows.find? fun row => OfCell c row && row.dow == dow && row.hour == hour with
    | none =>
      have absent : ∀ row ∈ table.rows, OfCell c row = true → row.dow = dow → ¬ row.hour = hour := by
        intro row member ofCell onDow atHour
        exact List.find?_eq_none.mp found row member (by simp [ofCell, onDow, atHour])
      simp only [Option.map_none, Option.getD_none, true_iff]
      refine ⟨fun _ row member ofCell onDow atHour => ?_, by simp, by simp⟩
      exact absurd atHour (absent row member ofCell onDow)
    | some log =>
      obtain ⟨logMember, ofCell, onDow, atHour⟩ := found_at found
      simp only [Option.map_some, Option.getD_some, counters, Prod.mk.injEq, max_eq_left_iff]
      constructor
      · intro nonneg
        refine ⟨fun _ row member rowCell rowDow rowHour => ?_, by simp, by simp⟩
        rw [table.row_unique member logMember rowCell ofCell (rowDow.trans onDow.symm) (rowHour.trans atHour.symm)]
        exact nonneg
      · intro read
        exact read.1 trivial log logMember ofCell onDow atHour
  · rw [qhatCell_other r oneRow ownSan campMember campSan byDow]
    simp only [history, HistoryRead, byDow, if_false, false_imp_iff, true_and]
    by_cases byHour : camp.timestatus = some 2
    · simp [byHour, eq_comm]
    · by_cases life : camp.timestatus = some 1
      · simp [life, eq_comm]
      · simp [byHour, life]

def inMode (timestatus : Int) : Network where
  campaign := [⟨"auoapi1amdec10".toList, 1, some 100, some 1, some 1, some timestatus⟩]
  media := oneCell.media
  cdoCells := oneCell.cdoCells
  campaign_key := by simp
  media_key := oneCell.media_key
  cdoCells_key := oneCell.cdoCells_key

def noRollups : Rollups := ⟨[], [], [], [], [], [], [], []⟩

/-- One logged hour of `theCell`, on a Thursday at 3. -/
def oneLog : DowHourTable where
  rows := [⟨5, 3, "auoapi1amdec10".toList, 11, 20, 5, some 100, some 4, some 2⟩]
  key := by decide

theorem cell_history_day_and_hour :
    history oneLog 5 3 theCell (some 3) = some (100, 2) ∧
      qhatCell (getOptimizationData (inMode 3) noRollups oneLog.rows 5 3) theCell = (100, 2) := by
  have read := (cell_history_iff (inMode 3) noRollups oneLog 5 3 theCell
    ⟨"auoapi1amdec10".toList, 1, some 100, some 1, some 1, some 3⟩ (by decide) (by decide) (by decide) (by decide)
    (by decide) (by decide)).mpr ⟨by decide, by decide, by decide⟩
  exact ⟨by decide, read (100, 2) (by decide)⟩

/-- The history of a cell of a campaign in the hourly mode, and the zeros read
    for it. -/
theorem hourly_history_unread :
    theCell ∈ cellRows (inMode 2) ∧ ((inMode 2).campaign.map Campaign.san).Nodup ∧
      ⟨theCell.san, 1, some 100, some 1, some 1, some 2⟩ ∈ (inMode 2).campaign ∧
      (∀ row ∈ oneLog.rows, ∀ m ∈ (inMode 2).media, row.adid = m.adid → row.san = m.san) ∧
      history oneLog 5 3 theCell (some 2) = some (100, 2) ∧
      qhatCell (getOptimizationData (inMode 2) noRollups oneLog.rows 5 3) theCell = (0, 0) := by
  decide

end Cdo.CellHistory
