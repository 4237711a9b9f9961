import Cdo.Logs

/-!
The import and re-import of an hour (`hourlyImport` and `hourlyReImport` of
`dataImport.pm`, `getHourlyFile` of `apiUtils.pm`, `hourly` of `fileToDb.pm`).
`getHourlyFile` returns the name of the file it has stored and the status of the
download. The import takes the first of the two. The re-import asks for a single
value and gets the last one, the status, which it uses as the name of the file;
no file has such a name, so that a re-import never changes the logs
(`hourlyReImport_logs`) and replaces the hour only if there was nothing to
replace (`reimport_replaces_iff`).
-/
namespace Cdo.HourlyImport
open Cdo.Text Cdo.Tables Cdo.Logs

/-! ### Downloads -/

/-- A line of an hourly report, by its fields. -/
structure HourlyLine where
  date_hour : Str
  siteId : Str
  adId : Str
  segmentId : Str
  bid : Str
  impressions : Str
  clicks : Str
  actions : Str
  conversions : Str
  spend : Str
deriving DecidableEq

/-- The files in the folder `hourly` of a campaign. They are stored there by
    `getHourlyFile` only, under names without blanks. -/
structure Folder where
  files : Str → Option (List HourlyLine)
  plain : ∀ name, ' ' ∈ name → files name = none

/-- The report of a campaign for an hour; the date is written `YYYY-MM-DD`. -/
structure Report where
  campId : Nat
  date : Str
  hour : Nat
  plain : ' ' ∉ date

def Report.file (report : Report) : Str :=
  joined '_' [natText report.campId, "hourly".toList, report.date, natText report.hour ++ ".csv".toList]

theorem Report.blank_file (report : Report) : ' ' ∉ report.file := by
  rw [Report.file, mem_joined (by decide)]
  simp only [List.mem_cons, List.not_mem_nil, or_false, exists_eq_or_imp, exists_eq_left, not_or, List.mem_append]
  refine ⟨not_mem_natText (by decide) _, by decide, report.plain, not_mem_natText (by decide) _, by decide⟩

structure Response where
  code : Nat
  message : Str
  content : List HourlyLine

def Response.is_success (response : Response) : Bool := 200 ≤ response.code && response.code < 300

def Response.is_error (response : Response) : Bool := 400 ≤ response.code && response.code < 600

def Response.status_line (response : Response) : Str := natText response.code ++ ' ' :: response.message

/-- The folder after a download: its content is stored if it succeeds; a file
    that has not been modified is left as it is. -/
def mirror (response : Response) (report : Report) (folder : Folder) : Folder where
  files := if response.is_success then Function.update folder.files report.file (some response.content) else folder.files
  plain name blank := by
    have other : name ≠ report.file := by
      rintro rfl
      exact report.blank_file blank
    split
    · rw [Function.update_of_ne other]
      exact folder.plain name blank
    · exact folder.plain name blank

/-- The folder after a download and the list that is returned. -/
def getHourlyFile (response : Response) (report : Report) (returnFile : Int) (folder : Folder) : Folder × List Str :=
  let mirrored := mirror response report folder
  if returnFile = 1 then
    if response.is_error then (mirrored, ["0".toList, response.status_line])
    else (mirrored, [report.file, response.status_line])
  else (mirrored, [[]])

/-! ### Statements -/

/-- The texts of a tuple of values. -/
structure Tuple where
  date : Str
  hour : Str
  san : Str
  adid : Str
  siteid : Str
  segmentid : Str
  bid : Str
  impressions : Str
  clicks : Str
  actions : Str
  conversions : Str
  spend : Str
deriving DecidableEq

/-- How a number in a text is printed (`%d` and `%.2f`), and what the database
    reads in a tuple and in a date; a tuple that is no SQL is not read. -/
structure Reader where
  percentD : Str → Str
  percent2f : Str → Str
  row : Tuple → Option LogRow
  date : Str → Option Date

def aol2mysqlDate (datein : Str) : Str :=
  let pieces := datein.splitOn '/'
  pieces.getD 2 [] ++ pieces.getD 0 [] ++ pieces.getD 1 []

/-- The tuple of a line. Its date and hour are those of the line. -/
def tuple (reader : Reader) (san : Str) (line : HourlyLine) : Tuple :=
  let pieces := line.date_hour.splitOnP Char.isWhitespace
  { date := aol2mysqlDate (pieces.getD 0 [])
    hour := reader.percentD (pieces.getD 1 [])
    san := san
    adid := line.adId
    siteid := line.siteId
    segmentid := line.segmentId
    bid := reader.percent2f line.bid
    impressions := line.impressions
    clicks := line.clicks
    actions := line.actions
    conversions := line.conversions
    spend := line.spend }

/-- The rows that the re-import of an hour deletes. -/
def ofHour (reader : Reader) (san date : Str) (hour : Nat) (row : LogRow) : Bool :=
  row.san == some san && reader.date date == some row.date && row.hour == hour

/-- The logs after a file is loaded. A statement without tuples, or with one
    that cannot be read, fails. -/
def hourly (reader : Reader) (folder : Folder) (file san date : Str) (hour : Nat) (reimport : Int) (logs : LogTable) :
    LogTable :=
  match folder.files file with
  | none => logs
  | some lines =>
    let tuples := (lines.foldl (afterFirst fun line => [tuple reader san line]) (0, [])).2
    let kept := if reimport = 1 then logs.filter fun row => !ofHour reader san date hour row else logs
    if tuples = [] then kept
    else match tuples.mapM reader.row with
      | none => kept
      | some rows => (kept.insert rows).1

/-! ### Import and re-import -/

/-- `== 0` of a text that begins with digits or is no number. -/
def equalsZero (text : Str) : Bool := (text.takeWhile Char.isDigit).all (· == '0')

/-- A text that holds in a condition. -/
def truthy (text : Str) : Bool := text != [] && text != "0".toList

def hourlyImport (reader : Reader) (response : Response) (report : Report) (san : Str) (folder : Folder)
    (logs : LogTable) : LogTable :=
  let (mirrored, returned) := getHourlyFile response report 1 folder
  let file := returned.getD 0 []
  if equalsZero file then logs else hourly reader mirrored file san report.date report.hour 0 logs

/-- The list that `getHourlyFile` returns is wanted as a single value, which is
    its last one. -/
def hourlyReImport (reader : Reader) (response : Response) (report : Report) (san : Str) (folder : Folder)
    (logs : LogTable) : LogTable :=
  let (mirrored, returned) := getHourlyFile response report 1 folder
  let file := returned.getLastD []
  if truthy file then hourly reader mirrored file san report.date report.hour 1 logs else logs

section
variable {reader : Reader} {response : Response} {report : Report} {san : Str} {folder : Folder} {logs : LogTable}

theorem hourly_no_file {file date : Str} {hour : Nat} {reimport : Int} (blank : ' ' ∈ file) :
    hourly reader folder file san date hour reimport logs = logs := by
  rw [hourly, folder.plain file blank]

theorem blank_status_line (response : Response) : ' ' ∈ response.status_line := by
  simp [Response.status_line]

theorem getHourlyFile_last : (getHourlyFile response report 1 folder).2.getLastD [] = response.status_line := by
  rw [getHourlyFile, if_pos rfl]
  cases response.is_error with
  | true => rfl
  | false => rfl

/-- Whatever the download gives, a re-import leaves the logs as they are. -/
theorem hourlyReImport_logs : hourlyReImport reader response report san folder logs = logs := by
  simp only [hourlyReImport, getHourlyFile_last]
  split
  · exact hourly_no_file (blank_status_line response)
  · rfl

/-- The first import of a campaign does load the file that was stored. -/
theorem hourlyImport_loads (positive : 0 < report.campId) (succeeded : response.is_error = false) :
    hourlyImport reader response report san folder logs =
      hourly reader (mirror response report folder) report.file san report.date report.hour 0 logs := by
  have nonzero : equalsZero report.file = false := by
    have leading : report.file.takeWhile Char.isDigit = natText report.campId := by
      rw [Report.file, joined_cons_cons, List.takeWhile_append_of_pos fun c member => natText_isDigit member]
      simp
    rw [equalsZero, leading, ← Bool.not_eq_true, List.all_eq_true]
    intro zeros
    obtain ⟨c, member, other⟩ := List.any_eq_true.mp (any_natText positive)
    rw [beq_iff_eq.mp (zeros c member)] at other
    exact absurd other (by decide)
  simp [hourlyImport, getHourlyFile, succeeded, nonzero]

end

/-! ### What a re-import is for -/

/-- The rows that the lines after the first one are read as. -/
def dataRows (reader : Reader) (san : Str) (lines : List HourlyLine) : List LogRow :=
  lines.tail.filterMap fun line => reader.row (tuple reader san line)

/-- The rows of the hour are those of the file, and all others are as before. -/
structure Replaced (reader : Reader) (san : Str) (report : Report) (lines : List HourlyLine) (before after : LogTable) :
    Prop where
  hour : (after.rows.filter (ofHour reader san report.date report.hour)).Perm (dataRows reader san lines)
  others : (after.rows.filter fun row => !ofHour reader san report.date report.hour row).Perm
    (before.rows.filter fun row => !ofHour reader san report.date report.hour row)

/-- Every line after the first one is read as a row of the hour. -/
def OfThatHour (reader : Reader) (san : Str) (report : Report) (lines : List HourlyLine) : Prop :=
  ∀ line ∈ lines.tail, ∃ row, reader.row (tuple reader san line) = some row ∧
    ofHour reader san report.date report.hour row = true

theorem mapM_eq_filterMap {α β : Type} {read : α → Option β} {items : List α}
    (all : ∀ item ∈ items, ∃ value, read item = some value) : items.mapM read = some (items.filterMap read) := by
  induction items with
  | nil => rfl
  | cons item rest ih =>
    obtain ⟨value, isRead⟩ := all item List.mem_cons_self
    rw [List.mapM_cons, isRead, ih fun other member => all other (List.mem_cons_of_mem _ member)]
    simp [isRead]

/-- Under the name of the stored file the hour would be replaced, if no other
    row of the logs has a key of the file. -/
theorem hourly_replaces {reader : Reader} {san : Str} {report : Report} {folder : Folder} {file : Str}
    {lines : List HourlyLine} {logs : LogTable} (stored : folder.files file = some lines)
    (ofThatHour : OfThatHour reader san report lines) (own : ((dataRows reader san lines).map LogRow.key).Nodup)
    (free : ∀ row ∈ dataRows reader san lines, ∀ other ∈ logs.rows,
      ofHour reader san report.date report.hour other = false → other.key ≠ row.key) :
    Replaced reader san report lines logs (hourly reader folder file san report.date report.hour 1 logs) := by
  have ofRow : ∀ row ∈ dataRows reader san lines, ofHour reader san report.date report.hour row = true := by
    intro row member
    obtain ⟨line, inLines, isRead⟩ := List.mem_filterMap.mp member
    obtain ⟨other, otherRead, isHour⟩ := ofThatHour line inLines
    obtain rfl := Option.some.inj (isRead.symm.trans otherRead)
    exact isHour
  have rows : (hourly reader folder file san report.date report.hour 1 logs).rows =
      (logs.rows.filter fun row => !ofHour reader san report.date report.hour row) ++ dataRows reader san lines := by
    have readAll : (lines.tail.map (tuple reader san)).mapM reader.row = some (dataRows reader san lines) := by
      rw [mapM_eq_filterMap, List.filterMap_map]
      · rfl
      · intro values member
        obtain ⟨line, inLines, rfl⟩ := List.mem_map.mp member
        obtain ⟨row, isRead, -⟩ := ofThatHour line inLines
        exact ⟨row, isRead⟩
    simp only [hourly, stored, afterFirst_all, ← List.map_eq_flatMap, if_pos, readAll]
    split
    · next none =>
      have noLines : lines.tail = [] := List.map_eq_nil_iff.mp none
      simp [dataRows, noLines, KeyedTable.filter]
    · refine KeyedTable.insert_rows_of_fresh own fun row member => KeyedTable.not_has_filter fun other isOther same => ?_
      by_contra kept
      exact free row member other isOther (by simpa using kept) same
  constructor
  · rw [rows, List.filter_append, List.filter_eq_self.mpr ofRow, List.filter_filter]
    simp
  · rw [rows, List.filter_append, List.filter_filter]
    have none : (dataRows reader san lines).filter (fun row => !ofHour reader san report.date report.hour row) = [] :=
      List.filter_eq_nil_iff.mpr fun row member => by simp [ofRow row member]
    simp [none]

/-- A re-import after a failed download leaves the logs as they are. After one
    that succeeds it replaces the hour by the stored file exactly if the logs had
    the rows of the file for that hour already. -/
theorem reimport_replaces_iff (reader : Reader) (response : Response) (report : Report) (san : Str) (folder : Folder)
    (logs : LogTable) :
    (response.is_error = true → hourlyReImport reader response report san folder logs = logs) ∧
      (response.is_error = false → ∀ lines, (mirror response report folder).files report.file = some lines →
        OfThatHour reader san report lines →
          (Replaced reader san report lines logs (hourlyReImport reader response report san folder logs) ↔
            (logs.rows.filter (ofHour reader san report.date report.hour)).Perm (dataRows reader san lines))) := by
  refine ⟨fun _ => hourlyReImport_logs, fun _ lines _ _ => ?_⟩
  rw [hourlyReImport_logs]
  exact ⟨Replaced.hour, fun already => ⟨already, List.Perm.refl _⟩⟩

/-! ### A corrected hour -/

def sampleReport : Report := ⟨77, "2011-01-24".toList, 3, by decide⟩

def sampleLine (impressions : Str) : HourlyLine :=
  ⟨"01/24/2011 03".toList, "20".toList, "11".toList, "5".toList, "1.5".toList, impressions, "2".toList, "1".toList,
    "0".toList, "0.75".toList⟩

def sampleRow (impressions : Int) : LogRow :=
  ⟨14998, 3, some "auo".toList, 11, none, none, 20, 5, some 150, some impressions, some 2, some 1, some 0, some 75⟩

def headerLine : HourlyLine :=
  ⟨"date".toList, "site".toList, "ad".toList, "segment".toList, "bid".toList, "impressions".toList, "clicks".toList,
    "actions".toList, "conversions".toList, "spend".toList⟩

/-- The texts of the sample lines, as they are printed and read. -/
def sampleReader : Reader where
  percentD text := if text = "03".toList then "3".toList else text
  percent2f text := if text = "1.5".toList then "1.50".toList else text
  row values :=
    if values.date = "20110124".toList ∧ values.hour = "3".toList ∧ values.bid = "1.50".toList then
      if values.impressions = "100".toList then some (sampleRow 100)
      else if values.impressions = "120".toList then some (sampleRow 120)
      else none
    else none
  date text := if text = "2011-01-24".toList then some 14998 else none

def emptyFolder : Folder := ⟨fun _ => none, fun _ _ => rfl⟩

def downloaded (impressions : Str) : Response := ⟨200, "OK".toList, [headerLine, sampleLine impressions]⟩

def oneHour : LogTable := ⟨[sampleRow 100], List.nodup_singleton _⟩

theorem reimport_replaces_same_hour :
    OfThatHour sampleReader "auo".toList sampleReport [headerLine, sampleLine "100".toList] ∧
      Replaced sampleReader "auo".toList sampleReport [headerLine, sampleLine "100".toList] oneHour
        (hourlyReImport sampleReader (downloaded "100".toList) sampleReport "auo".toList emptyFolder oneHour) := by
  have ofThatHour : OfThatHour sampleReader "auo".toList sampleReport [headerLine, sampleLine "100".toList] := by
    intro line member
    obtain rfl := List.mem_singleton.mp member
    exact ⟨sampleRow 100, by decide, by decide⟩
  obtain ⟨-, replaces⟩ :=
    reimport_replaces_iff sampleReader (downloaded "100".toList) sampleReport "auo".toList emptyFolder oneHour
  refine ⟨ofThatHour, (replaces rfl _ (by decide) ofThatHour).mpr ?_⟩
  have same : oneHour.rows.filter (ofHour sampleReader "auo".toList sampleReport.date sampleReport.hour) =
      dataRows sampleReader "auo".toList [headerLine, sampleLine "100".toList] := by decide
  rw [same]

/-- A report with more impressions is downloaded, and the logs keep the old
    number. -/
theorem reimport_keeps_old_row :
    (mirror (downloaded "120".toList) sampleReport emptyFolder).files sampleReport.file =
        some [headerLine, sampleLine "120".toList] ∧
      OfThatHour sampleReader "auo".toList sampleReport [headerLine, sampleLine "120".toList] ∧
      (hourlyReImport sampleReader (downloaded "120".toList) sampleReport "auo".toList emptyFolder oneHour).rows =
        [sampleRow 100] ∧
      ¬ Replaced sampleReader "auo".toList sampleReport [headerLine, sampleLine "120".toList] oneHour
        (hourlyReImport sampleReader (downloaded "120".toList) sampleReport "auo".toList emptyFolder oneHour) := by
  refine ⟨by decide, fun line member => ?_, by rw [hourlyReImport_logs]; rfl, fun replaced => ?_⟩
  · obtain rfl := List.mem_singleton.mp member
    exact ⟨sampleRow 120, by decide, by decide⟩
  · have hour := replaced.hour
    rw [hourlyReImport_logs] at hour
    exact absurd (hour.mem_iff.mpr (by decide : sampleRow 120 ∈ _)) (by decide)

end Cdo.HourlyImport
