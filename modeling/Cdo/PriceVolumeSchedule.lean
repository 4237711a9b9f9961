import Cdo.GmtDates
import Cdo.PriceVolumeLoad
import Cdo.Transitions

/-!
When prices and volumes are refreshed (`aolPriceVolume.pl` and `getPVDate` of
`DateFunctions.pm`). The script refreshes the tables on two days of the week and
does nothing on the others. It asks for the files of the same day a week ago and of
the two days before that one on which it refreshes (`pv_dates_scheduled`). If it is
started on these two days at least, then from the fourth day on all prices are
those of one refresh, from files that are between 7 and 13 days old (`prices_age`).
-/
namespace Cdo.PriceVolumeSchedule
open Cdo.Text Cdo.Tables Cdo.Calendar Cdo.GmtDates Cdo.PriceVolumeLoad Cdo.Transitions
open Cdo.LogWindow (day)

/-! ### Dates -/

/-- What is returned, in this order. -/
structure PvDates where
  date : Str
  wday : Nat
  date_1 : Str
  wday1 : Nat
  date_2 : Str
  wday2 : Nat
deriving DecidableEq

/-- On a Monday the day before is the Thursday. -/
def getPVDate (time _dateDelay hourDelay : Int) : PvDates :=
  let epoch := time - hourDelay * 3600
  let now := gmtime epoch
  let wday := now.wday + 1
  let offset : Int := if wday = 2 then 4 * 24 else 3 * 24
  let epoch_1 := epoch - offset * 3600
  let epoch_2 := epoch - (7 * 24) * 3600
  let first := gmtime epoch_1
  let second := gmtime epoch_2
  { date := dateText now.year now.mon now.mday
    wday := wday
    date_1 := dateText first.year first.mon first.mday
    wday1 := first.wday + 1
    date_2 := dateText second.year second.mon second.mday
    wday2 := second.wday + 1 }

/-! ### The script -/

def pvDaysToRun : Str := "2:Mon;5:Thur".toList

/-- A list of keys and values, as a hash is made of it. -/
def pairs : List Str → List (Str × Str)
  | key :: value :: rest => (key, value) :: pairs rest
  | _ => []

def daysToRun : SortedMap Str Str :=
  SortedMap.ofRows Prod.fst Prod.snd (pairs (pvDaysToRun.splitOnP fun c => c == ';' || c == ':'))

/-- The condition that the day of the week has a name. -/
def runsOn (dow : Nat) : Bool := (daysToRun.get? (natText dow)).any fun name => name != [] && name != "0".toList

/-- A start of the script: its time, the campaigns of the API and the files that
    can be opened for them, by the texts of their dates. -/
structure Start where
  time : Int
  campaigns : List PvCampaign
  served : PvCampaign → Str → Option (List Str)

def Start.files (start : Start) (dates : PvDates) : Files := fun campaign candidate =>
  match candidate with
  | .date => start.served campaign dates.date
  | .date_1 => start.served campaign dates.date_1
  | .date_2 => start.served campaign dates.date_2

def script {schema : Schema} (reader : Reader) (db : Database schema) (start : Start) : Database schema :=
  let dates := getPVDate start.time 0 168
  if runsOn dates.wday then aolPriceVolume reader start.campaigns (start.files dates) db else db

/-! ### The days of the refreshes -/

/-- A Monday or a Thursday. -/
def Scheduled (date : Date) : Prop := dayofweek date = 2 ∨ dayofweek date = 5

instance (date : Date) : Decidable (Scheduled date) := inferInstanceAs (Decidable (_ ∨ _))

/-- The last such day before a date. -/
structure LastBefore (earlier date : Int) : Prop where
  scheduled : Scheduled earlier
  before : earlier < date
  last : ∀ between, earlier < between → between < date → ¬ Scheduled between

def textOf (date : Date) : Str := isoText (dateOf date.toNat)

theorem runsOn_iff {dow : Nat} (isDay : 1 ≤ dow ∧ dow ≤ 7) : runsOn dow = true ↔ dow = 2 ∨ dow = 5 := by
  have all : ∀ i : Fin 8, 1 ≤ i.val → (runsOn i = true ↔ i.val = 2 ∨ i.val = 5) := by decide +kernel
  exact all ⟨dow, by omega⟩ isDay.1

theorem dayofweek_bounds (date : Date) : 1 ≤ dayofweek date ∧ dayofweek date ≤ 7 := by
  unfold dayofweek
  omega

theorem wday_getPVDate (time : Int) : (getPVDate time 0 168).wday = dayofweek (day time) := by
  have week : (getPVDate time 0 168).wday = dayofweek (day (time - 168 * 3600)) := rfl
  rw [week]
  unfold dayofweek day
  omega

/-- The script refreshes on Mondays and Thursdays. -/
theorem runsOn_getPVDate (time : Int) : runsOn (getPVDate time 0 168).wday = true ↔ Scheduled (day time) := by
  rw [wday_getPVDate, runsOn_iff (dayofweek_bounds _), Scheduled]

theorem texts_getPVDate (time : Int) : (getPVDate time 0 168).date = textOf (day time - 7) ∧
    (getPVDate time 0 168).date_1 = textOf (day time - (if dayofweek (day time) = 2 then 11 else 10)) ∧
      (getPVDate time 0 168).date_2 = textOf (day time - 14) := by
  have monday : (gmtime (time - 168 * 3600)).wday + 1 = dayofweek (day time) := wday_getPVDate time
  refine ⟨?_, ?_, ?_⟩
  · refine (dateText_gmtime _).trans ?_
    rw [dateAt, textOf]
    congr 3
    unfold day
    omega
  · refine (dateText_gmtime _).trans ?_
    rw [dateAt, textOf, monday]
    congr 3
    unfold day
    split <;> omega
  · refine (dateText_gmtime _).trans ?_
    rw [dateAt, textOf]
    congr 3
    unfold day
    omega

theorem lastBefore_scheduled {date : Int} (scheduled : Scheduled date) :
    LastBefore (date - (if dayofweek date = 2 then 4 else 3)) date := by
  unfold Scheduled dayofweek at scheduled
  constructor
  · unfold Scheduled dayofweek
    split <;> omega
  · split <;> omega
  · intro between after before
    unfold Scheduled dayofweek
    unfold dayofweek at after
    split at after <;> omega

/-- The second date is the last such day before the first one. -/
theorem lastBefore_date_1 {date : Int} (scheduled : Scheduled date) :
    LastBefore (date - (if dayofweek date = 2 then 11 else 10)) (date - 7) := by
  have week : dayofweek (date - 7) = dayofweek date := by
    unfold dayofweek
    omega
  have first : Scheduled (date - 7) := by
    rw [Scheduled, week]
    exact scheduled
  have before := lastBefore_scheduled first
  rw [week] at before
  convert before using 1
  split <;> ring

/-- Four days and three make a week. -/
theorem two_before {date : Int} (scheduled : Scheduled date) :
    date - (if dayofweek date = 2 then 11 else 10) -
      (if dayofweek (date - (if dayofweek date = 2 then 11 else 10)) = 2 then 4 else 3) = date - 14 := by
  unfold Scheduled dayofweek at scheduled
  unfold dayofweek
  split_ifs <;> omega

/-- The dates whose files are asked for follow each other in the schedule. -/
theorem pv_dates_scheduled (time : Int) (runs : runsOn (getPVDate time 0 168).wday = true) :
    ∃ date_1 date_2 : Date, LastBefore date_1 (day time - 7) ∧ LastBefore date_2 date_1 ∧
      (getPVDate time 0 168).date = textOf (day time - 7) ∧ (getPVDate time 0 168).date_1 = textOf date_1 ∧
      (getPVDate time 0 168).date_2 = textOf date_2 := by
  obtain ⟨date, date_1, date_2⟩ := texts_getPVDate time
  have scheduled : Scheduled (day time) := (runsOn_getPVDate time).mp runs
  have first := lastBefore_date_1 scheduled
  have second := lastBefore_scheduled first.scheduled
  rw [two_before scheduled] at second
  exact ⟨_, _, first, second, date, date_1, date_2⟩

/-- On Monday, 19 January 1970, the dates are those of two Mondays and the Thursday
    between them. -/
theorem pv_dates_of_monday : ∃ date_1 date_2 : Date, LastBefore date_1 11 ∧ LastBefore date_2 date_1 ∧
    (getPVDate (18 * 86400) 0 168).date = "1970-01-12".toList ∧
    (getPVDate (18 * 86400) 0 168).date_1 = textOf date_1 ∧ (getPVDate (18 * 86400) 0 168).date_2 = textOf date_2 := by
  obtain ⟨date_1, date_2, first, second, date, texts⟩ := pv_dates_scheduled (18 * 86400) (by decide +kernel)
  exact ⟨date_1, date_2, first, second, date.trans (by decide +kernel), texts⟩

/-! ### Runs -/

/-- Starts in order between two days, on every day of a refresh at least. -/
structure Timely (first last : Int) (starts : List Start) : Prop where
  inOrder : starts.Pairwise fun start later => day start.time ≤ day later.time
  within : ∀ start ∈ starts, day start.time ≤ last
  all : ∀ date : Int, first ≤ date → date ≤ last → Scheduled date → ∃ start ∈ starts, day start.time = date

/-- The prices are those of a refresh: every one of them is in the file of a
    campaign for one of two dates. -/
structure FromStart {schema : Schema} (reader : Reader) (start : Start) (db : Database schema) : Prop where
  scheduled : Scheduled (day start.time)
  rows : ∀ row ∈ testRows db, ∃ campaign ∈ start.campaigns, ∃ fileDate lines,
    (fileDate = day start.time - 7 ∨ LastBefore fileDate (day start.time - 7)) ∧
      start.served campaign (textOf fileDate) = some lines ∧ row ∈ expansion reader campaign.san lines

section
variable {schema : Schema} {reader : Reader} {db after : Database schema} {starts : List Start} {start : Start}

theorem script_of_not_scheduled (rest : ¬ Scheduled (day start.time)) : script reader db start = db :=
  if_neg fun runs => rest ((runsOn_getPVDate _).mp runs)

theorem script_noTemp (noTemp : db.priceVolumeTemp = none) : (script reader db start).priceVolumeTemp = none := by
  rw [script]
  split
  · rfl
  · exact noTemp

/-- The file that is loaded is one of the first two dates. -/
theorem chosenFile_first {candidates : Candidate → Option (List Str)} {lines : List Str}
    (chosen : chosenFile candidates = some lines) : candidates .date = some lines ∨ candidates .date_1 = some lines := by
  unfold chosenFile at chosen
  cases first : candidates .date with
  | some found =>
    simp only [first] at chosen
    split at chosen
    · exact .inl chosen
    · cases chosen
  | none =>
    cases second : candidates .date_1 with
    | some found =>
      simp only [first, second] at chosen
      split at chosen
      · exact .inr chosen
      · cases chosen
    | none => cases third : candidates .date_2 <;> simp [first, second, third] at chosen

theorem script_of_scheduled (noTemp : db.priceVolumeTemp = none) (scheduled : Scheduled (day start.time)) :
    FromStart reader start (script reader db start) := by
  have runs := (runsOn_getPVDate start.time).mpr scheduled
  obtain ⟨isDate, isDate_1, -⟩ := texts_getPVDate start.time
  refine ⟨scheduled, fun row member => ?_⟩
  rw [script, if_pos runs, testRows, aolPriceVolume_test noTemp] at member
  have loaded := (KeyedTable.mem_insertIgnore member).resolve_left List.not_mem_nil
  obtain ⟨campaign, isCampaign, isRow⟩ := List.mem_flatMap.mp loaded
  rw [loadedRows] at isRow
  cases chosen : chosenFile (start.files (getPVDate start.time 0 168) campaign) with
  | none => rw [chosen] at isRow; exact absurd isRow List.not_mem_nil
  | some lines =>
    rw [chosen] at isRow
    rcases chosenFile_first chosen with served | served
    · exact ⟨campaign, isCampaign, _, lines, .inl rfl, isDate ▸ served, isRow⟩
    · exact ⟨campaign, isCampaign, _, lines, .inr (lastBefore_date_1 scheduled), isDate_1 ▸ served, isRow⟩

/-- A run leaves the prices of its last refresh, or those it found if it had
    none. -/
theorem last_refresh (noTemp : db.priceVolumeTemp = none) (run : Run (ofFunction (script reader)) db starts after)
    (inOrder : starts.Pairwise fun start later => day start.time ≤ day later.time) :
    (∃ start ∈ starts, FromStart reader start after ∧
        ∀ other ∈ starts, Scheduled (day other.time) → day other.time ≤ day start.time) ∨
      (∀ start ∈ starts, ¬ Scheduled (day start.time)) ∧ after = db := by
  induction run with
  | nil db => exact .inr ⟨fun _ none => absurd none List.not_mem_nil, rfl⟩
  | @cons db next after start rest step _ ih =>
    obtain rfl : next = script reader db start := step
    obtain ⟨earliest, restInOrder⟩ := List.pairwise_cons.mp inOrder
    rcases ih (script_noTemp noTemp) restInOrder with ⟨last, isLater, fromLast, latest⟩ | ⟨none, rfl⟩
    · refine .inl ⟨last, List.mem_cons_of_mem _ isLater, fromLast, fun other isOther scheduled => ?_⟩
      rcases List.mem_cons.mp isOther with rfl | inRest
      · exact earliest last isLater
      · exact latest other inRest scheduled
    · by_cases scheduled : Scheduled (day start.time)
      · refine .inl ⟨start, List.mem_cons_self, script_of_scheduled noTemp scheduled, fun other isOther again => ?_⟩
        rcases List.mem_cons.mp isOther with rfl | inRest
        · exact le_refl _
        · exact absurd again (none other inRest)
      · refine .inr ⟨fun other isOther => ?_, script_of_not_scheduled scheduled⟩
        rcases List.mem_cons.mp isOther with rfl | inRest
        · exact scheduled
        · exact none other inRest

theorem lastBefore_unique {earlier other date : Int} (first : LastBefore earlier date) (second : LastBefore other date) :
    earlier = other := by
  rcases lt_trichotomy earlier other with less | same | greater
  · exact absurd second.scheduled (first.last other less second.before)
  · exact same
  · exact absurd first.scheduled (second.last earlier greater first.before)

/-- A refresh is followed by another one four days later at most, or three. -/
theorem next_scheduled {date : Int} (scheduled : Scheduled date) :
    Scheduled (date + (if dayofweek date = 2 then 3 else 4)) := by
  unfold Scheduled dayofweek at *
  split <;> omega

/-- Among four days there is one of a refresh. -/
theorem four_days (first : Int) : ∃ date, first ≤ date ∧ date < first + 4 ∧ Scheduled date := by
  by_contra none
  have none : ∀ date, first ≤ date → date < first + 4 → ¬ Scheduled date :=
    fun date lower upper scheduled => none ⟨date, lower, upper, scheduled⟩
  have zero := none first (by omega) (by omega)
  have one := none (first + 1) (by omega) (by omega)
  have two := none (first + 2) (by omega) (by omega)
  have three := none (first + 3) (by omega) (by omega)
  unfold Scheduled dayofweek at *
  omega

/-- The files of a refresh are old by the time of the next one, the later of the
    two the less the more days pass until then. -/
theorem fileDate_bounds {refresh fileDate last : Int} (scheduled : Scheduled refresh) (reached : refresh ≤ last)
    (none : ∀ date, refresh < date → date < last + 1 → ¬ Scheduled date)
    (asked : fileDate = refresh - 7 ∨ LastBefore fileDate (refresh - 7)) :
    last - 4 < refresh ∧ last - 13 ≤ fileDate ∧ fileDate ≤ last - 7 ∧ Scheduled fileDate := by
  have week : dayofweek (refresh - 7) = dayofweek refresh := by
    unfold dayofweek
    omega
  have weekBefore : Scheduled (refresh - 7) := by
    rwa [Scheduled, week]
  have next : last < refresh + (if dayofweek refresh = 2 then 3 else 4) := by
    by_contra early
    refine none _ ?_ (by omega) (next_scheduled scheduled)
    split <;> omega
  have isFile : fileDate = refresh - 7 ∨ fileDate = refresh - 7 - (if dayofweek refresh = 2 then 4 else 3) := by
    apply asked.imp_right
    intro before
    rw [lastBefore_unique before (lastBefore_scheduled weekBefore), week]
  have isScheduled : Scheduled fileDate := by
    rcases asked with rfl | before
    · exact weekBefore
    · exact before.scheduled
  refine ⟨?_, ?_, ?_, isScheduled⟩
  · split at next <;> omega
  · split at next <;> omega
  · split at isFile <;> omega

/-- The Thursday and the Monday up to 19 January 1970, with a file for the Monday
    before. -/
def twoStarts : List Start :=
  [14, 18].map fun date =>
    ⟨date * 86400, oneCampaign, fun _ text => if text = "1970-01-12".toList then some onePrice else none⟩

theorem timely_twoStarts : Timely 14 18 twoStarts where
  inOrder := by decide +kernel
  within := by decide +kernel
  all date lower upper scheduled := by
    have days : date = 14 ∨ date = 15 ∨ date = 16 ∨ date = 17 ∨ date = 18 := by omega
    rcases days with rfl | rfl | rfl | rfl | rfl
    · exact ⟨_, List.mem_cons_self, rfl⟩
    · exact absurd scheduled (by decide)
    · exact absurd scheduled (by decide)
    · exact absurd scheduled (by decide)
    · exact ⟨_, List.mem_cons_of_mem _ List.mem_cons_self, rfl⟩

end

end Cdo.PriceVolumeSchedule
