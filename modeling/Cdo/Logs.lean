import Cdo.Tables
import Cdo.KeyedTable

/-!
The hourly logs (`DisplayLogsHourly`) and the ads they are joined with (`Media`)
as the aggregations read them. Amounts of money are counted in hundredths, as
the columns keep them.
-/
namespace Cdo.Logs
open Cdo.Text Cdo.Tables

/-- A row of `DisplayLogsHourly`: the counters of an ad on a segment of a site in
    an hour. -/
structure LogRow where
  date : Date
  hour : Nat
  san : Option Str
  adid : Int
  mediatext : Option Str
  placement : Option Str
  siteid : Int
  segmentid : Int
  bid : Option Int
  impressions : Option Int
  clicks : Option Int
  actions : Option Int
  conversions : Option Int
  spend : Option Int
deriving DecidableEq

def LogRow.key (row : LogRow) : Date × Nat × Int × Int × Int :=
  (row.date, row.hour, row.adid, row.siteid, row.segmentid)

abbrev LogTable := KeyedTable LogRow.key

/-- A row of `Media`, with the columns that the aggregations read. -/
structure MediaRow where
  adid : Int
  size : Option Str
  adgroup : Option Int
deriving DecidableEq

abbrev MediaTable := KeyedTable MediaRow.adid

/-- The log rows with their ads. A row whose ad is not in `Media` is in no pair. -/
def withMedia (logs : LogTable) (media : MediaTable) : List (LogRow × MediaRow) :=
  Query.join (fun dl m => dl.adid == m.adid) logs.rows media.rows

/-- A nullable column as it is sorted, NULL before all values. -/
def nullFirst {α : Type} : Option α → WithBot α
  | none => ⊥
  | some value => value

/-- A nullable column that was sorted, as it is stored. -/
def nullable {α : Type} (value : WithBot α) : Option α := value

end Cdo.Logs
