import Cdo.BidFiles
import Cdo.LogWindow
import Cdo.Calendar

/-!
The dates and hours of a run (`getGMTDateHour` of `DateFunctions.pm`). Seven
instants around the current one are taken apart and put together again as dates.
For the instant an hour ago the day of the month is looked up under the current
instant's, so that its date is wrong where the day has just begun
(`gmt_dates_iff`).
-/
namespace Cdo.GmtDates
open Cdo.Text Cdo.Tables Cdo.Calendar
open Cdo.BidFiles (cdoFactor)
open Cdo.LogWindow (day hourOf)

/-! ### Instants -/

/-- The elements 2 to 6 of what `gmtime` returns, from 1970 on. -/
structure Gmtime where
  hour : Nat
  mday : Nat
  mon : Nat
  year : Nat
  wday : Nat

def gmtime (epoch : Int) : Gmtime where
  hour := (hourOf epoch).toNat
  mday := (dateOf (day epoch).toNat).day
  mon := (dateOf (day epoch).toNat).month - 1
  year := (dateOf (day epoch).toNat).year - 1900
  wday := ((day epoch + 4) % 7).toNat

def month : List Str := ["01", "02", "03", "04", "05", "06", "07", "08", "09", "10", "11", "12"].map String.toList

def days : List Str :=
  ["00", "01", "02", "03", "04", "05", "06", "07", "08", "09", "10", "11", "12", "13", "14", "15", "16", "17", "18",
    "19", "20", "21", "22", "23", "24", "25", "26", "27", "28", "29", "30", "31"].map String.toList

def dateText (year mon mday : Nat) : Str :=
  natText (year + 1900) ++ '-' :: month.getD mon [] ++ '-' :: days.getD mday []

/-! ### The dates of a run -/

def importDelay : Int := 2

def reimportDelay : Int := 5

def mdImportDelay : Int := 1

/-- What is returned, in this order. -/
structure DateHours where
  apiDate : Str
  gmtHour : Nat
  apiYDate : Str
  apiRDate : Str
  iHour : Nat
  apiIDate : Str
  rHour : Nat
  oHour : Nat
  wday : Nat
  yWDay : Nat
  oDOW : Nat
  apiCDODate : Str
  lastDate : Str
  lHour : Nat
  apiMDate : Str
  mHour : Nat
deriving DecidableEq

def getGMTDateHour (time _dateDelay hourDelay : Int) : DateHours :=
  let epoch := time - hourDelay * 3600
  let epochLast := epoch - 3600
  let epochYest := epoch - 24 * 3600
  let now := gmtime epoch
  let yest := gmtime epochYest
  let last := gmtime epochLast
  let epochTime := epoch - 3600 * importDelay
  let i := gmtime epochTime
  let rEpochTime := epochTime - 3600 * reimportDelay
  let r := gmtime rEpochTime
  let mEpochTime := epochTime - 3600 * mdImportDelay
  let m := gmtime mEpochTime
  let epochNextHour := epoch + cdoFactor * 3600
  let o := gmtime epochNextHour
  { apiDate := dateText now.year now.mon now.mday
    gmtHour := now.hour
    apiYDate := dateText yest.year yest.mon yest.mday
    apiRDate := dateText r.year r.mon r.mday
    iHour := i.hour
    apiIDate := dateText i.year i.mon i.mday
    rHour := r.hour
    oHour := o.hour
    wday := now.wday + 1
    yWDay := yest.wday + 1
    oDOW := o.wday + 1
    apiCDODate := dateText o.year o.mon o.mday
    -- the day is that of the current instant
    lastDate := dateText last.year last.mon now.mday
    lHour := last.hour
    apiMDate := dateText m.year m.mon m.mday
    mHour := m.hour }

/-! ### What the dates are for -/

/-- The date of an instant as a text. -/
def dateAt (epoch : Int) : Str := isoText (dateOf (day epoch).toNat)

def hourAt (epoch : Int) : Nat := (hourOf epoch).toNat

/-- The dates, hours and days of the week are those of the instants around the
    current one. -/
structure Denote (epoch : Int) (dates : DateHours) : Prop where
  current : dates.apiDate = dateAt epoch ∧ dates.gmtHour = hourAt epoch
  last : dates.lastDate = dateAt (epoch - 3600) ∧ dates.lHour = hourAt (epoch - 3600)
  imported : dates.apiIDate = dateAt (epoch - 2 * 3600) ∧ dates.iHour = hourAt (epoch - 2 * 3600)
  reimported : dates.apiRDate = dateAt (epoch - 7 * 3600) ∧ dates.rHour = hourAt (epoch - 7 * 3600)
  misdelivery : dates.apiMDate = dateAt (epoch - 3 * 3600) ∧ dates.mHour = hourAt (epoch - 3 * 3600)
  optimised : dates.apiCDODate = dateAt (epoch + 3600) ∧ dates.oHour = hourAt (epoch + 3600)
  yesterday : dates.apiYDate = dateAt (epoch - 24 * 3600)
  daysOfWeek : dates.wday = dayofweek (day epoch) ∧ dates.yWDay = dayofweek (day (epoch - 24 * 3600)) ∧
    dates.oDOW = dayofweek (day (epoch + 3600))

theorem month_text {number : Nat} (isMonth : 1 ≤ number ∧ number ≤ 12) : month.getD (number - 1) [] = padded 2 number := by
  have all : ∀ i : Fin 12, month.getD i [] = padded 2 (i + 1) := by decide
  have text := all ⟨number - 1, by omega⟩
  rwa [show number - 1 + 1 = number by omega] at text

theorem day_text {number : Nat} (isDay : number ≤ 31) : days.getD number [] = padded 2 number := by
  rcases Nat.eq_zero_or_pos number with rfl | positive
  · decide
  · have all : ∀ i : Fin 32, days.getD i [] = padded 2 i := by decide
    exact all ⟨number, by omega⟩

/-- The day of the month makes the date. -/
theorem dateText_eq_iff (epoch : Int) {mday : Nat} (isDay : mday ≤ 31) :
    dateText (gmtime epoch).year (gmtime epoch).mon mday = dateAt epoch ↔ mday = (gmtime epoch).mday := by
  have year : 1970 ≤ (dateOf (day epoch).toNat).year := year_dateOf _
  rw [dateText, dateAt, isoText, day_text isDay]
  simp only [gmtime]
  rw [month_text (dateOf (day epoch).toNat).isMonth, Nat.sub_add_cancel (by omega), padded_year (by omega)]
  constructor
  · intro same
    exact padded_injective (List.cons.inj (List.append_cancel_left same)).2
  · rintro rfl
    rfl

theorem dateText_gmtime (epoch : Int) :
    dateText (gmtime epoch).year (gmtime epoch).mon (gmtime epoch).mday = dateAt epoch :=
  (dateText_eq_iff epoch (CivilDate.day_le _)).mpr rfl

theorem wday_gmtime (epoch : Int) : (gmtime epoch).wday + 1 = dayofweek (day epoch) := rfl

/-- An hour ago it was the same day of the month unless the day has just begun. -/
theorem mday_last_iff {epoch : Int} (reach : 86400 ≤ epoch) :
    (gmtime epoch).mday = (gmtime (epoch - 3600)).mday ↔ hourAt epoch ≠ 0 := by
  simp only [gmtime, hourAt, hourOf, day]
  by_cases begun : epoch % 86400 / 3600 = 0
  · have next : (epoch / 86400).toNat = ((epoch - 3600) / 86400).toNat + 1 := by omega
    rw [next, dateOf_succ, begun]
    simp [CivilDate.next_day_ne]
  · have same : (epoch - 3600) / 86400 = epoch / 86400 := by omega
    rw [same]
    simp
    omega

/-- The dates and hours denote their instants exactly where the current hour is
    not the first of the day. -/
theorem gmt_dates_iff (time dateDelay hourDelay : Int) (reach : 0 ≤ time - 3600 * (hourDelay + 26)) :
    Denote (time - hourDelay * 3600) (getGMTDateHour time dateDelay hourDelay) ↔
      hourAt (time - hourDelay * 3600) ≠ 0 := by
  have isDay : (gmtime (time - hourDelay * 3600)).mday ≤ 31 := CivilDate.day_le _
  rw [← mday_last_iff (by omega), ← dateText_eq_iff (time - hourDelay * 3600 - 3600) isDay]
  constructor
  · intro denote
    exact denote.last.1
  · intro last
    have reimport : time - hourDelay * 3600 - 3600 * importDelay - 3600 * reimportDelay =
        time - hourDelay * 3600 - 7 * 3600 := by
      unfold importDelay reimportDelay
      ring
    have misdelivery : time - hourDelay * 3600 - 3600 * importDelay - 3600 * mdImportDelay =
        time - hourDelay * 3600 - 3 * 3600 := by
      unfold importDelay mdImportDelay
      ring
    exact {
      current := ⟨dateText_gmtime _, rfl⟩
      last := ⟨last, rfl⟩
      imported := ⟨dateText_gmtime _, rfl⟩
      reimported := reimport ▸ ⟨dateText_gmtime _, rfl⟩
      misdelivery := misdelivery ▸ ⟨dateText_gmtime _, rfl⟩
      optimised := ⟨dateText_gmtime _, rfl⟩
      yesterday := dateText_gmtime _
      daysOfWeek := ⟨wday_gmtime _, wday_gmtime _, wday_gmtime _⟩ }

/-- A run at noon of the second of January. -/
theorem gmt_dates_noon : Denote (3600 * 37 - 1 * 3600) (getGMTDateHour (3600 * 37) 0 1) :=
  (gmt_dates_iff (3600 * 37) 0 1 (by decide)).mpr (by decide)

/-- In the first hour of February the last hour is said to be one of the first of
    January. -/
theorem last_date_of_new_month :
    (getGMTDateHour (86400 * 31 + 3600) 0 1).lastDate = "1970-01-01".toList ∧
      dateAt (86400 * 31 - 3600) = "1970-01-31".toList ∧
      ¬ Denote (86400 * 31) (getGMTDateHour (86400 * 31 + 3600) 0 1) := by
  have written : (getGMTDateHour (86400 * 31 + 3600) 0 1).lastDate = "1970-01-01".toList := by decide +kernel
  have was : dateAt (86400 * 31 - 3600) = "1970-01-31".toList := by decide +kernel
  refine ⟨written, was, fun denote => ?_⟩
  have same := denote.last.1
  rw [written, was] at same
  exact absurd same (by decide)

end Cdo.GmtDates
