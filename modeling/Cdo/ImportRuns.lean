import Cdo.ExactRollups
import Cdo.GmtDates
import Cdo.HourlyImport
import Cdo.Transitions

/-!
Daily imports (`cdoImport.pl`). Every day the reports of the 24 hours of the day
before are downloaded for each campaign and inserted in the logs, and the rows of
that date are rolled up. After any number of days each of the nine tables has for
every one of these dates exactly the sums of the reports that were served for it
(`imports_counted`). The imports of every hour (`getAllApiData`) ask for a report
again five hours later and on the next day; an hour that was not served at first
stays empty all the same (`missed_hour_stays_empty`). Counters and their sums are
integers without bound, where `cdoTables.sql` declares INT columns.
-/
namespace Cdo.ImportRuns
open Cdo.Text Cdo.Query Cdo.Tables Cdo.Logs Cdo.ByHour Cdo.RollupLevels Cdo.ExactRollups Cdo.Calendar Cdo.GmtDates
  Cdo.HourlyImport Cdo.Transitions
open Cdo.LogWindow (day)

/-! ### The script -/

/-- A start of the script: its time, the ids and account names of the campaigns of
    the API, what is downloaded for an hour of a campaign, and the known ads. -/
structure Start where
  time : Int
  campaigns : List (Nat × Str)
  response : Nat → Nat → Response
  media : MediaTable

def Start.yesterdayDate (start : Start) : Str := (getGMTDateHour start.time 0 0).apiYDate

/-- The date that is written so. -/
def Start.date (start : Start) : Date := day (start.time - 86400)

theorem blank_isoText (date : CivilDate) : ' ' ∉ isoText date := by
  have padded : ∀ width n, ' ' ∉ padded width n := by
    intro width n member
    rcases List.mem_append.mp member with zeros | digits
    · exact absurd (List.eq_of_mem_replicate zeros) (by decide)
    · exact not_mem_natText (by decide) n digits
  simp [isoText, padded]

theorem blank_dateText (epoch : Int) :
    ' ' ∉ dateText (gmtime epoch).year (gmtime epoch).mon (gmtime epoch).mday := by
  rw [dateText_gmtime]
  exact blank_isoText _

def Start.report (start : Start) (cid hour : Nat) : Report := ⟨cid, start.yesterdayDate, hour, blank_dateText _⟩

/-- The stored reports of the campaigns, and the logs. -/
structure Loaded where
  folders : Nat → Folder
  logs : LogTable

def importHour (reader : Reader) (start : Start) (campaign : Nat × Str) (loaded : Loaded) (h : Nat) : Loaded :=
  let response := start.response campaign.1 h
  let report := start.report campaign.1 h
  { folders := Function.update loaded.folders campaign.1 (mirror response report (loaded.folders campaign.1))
    logs := hourlyImport reader response report campaign.2 (loaded.folders campaign.1) loaded.logs }

/-- The script's own `hourly`. -/
def scriptHourly (reader : Reader) (start : Start) (loaded : Loaded) : Loaded :=
  start.campaigns.foldl (fun loaded campaign => (List.range 24).foldl (importHour reader start campaign) loaded) loaded

structure State extends Loaded where
  tables : HourTables

/-- What the script does to the logs and the roll-ups. -/
def cdoImport (reader : Reader) (state : State) (start : Start) : State :=
  let loaded := scriptHourly reader start state.toLoaded
  { loaded with tables := byHour loaded.logs start.media start.date start.date 1 state.tables }

/-! ### What is served -/

/-- The rows of a file; one line that cannot be read spoils the statement. -/
def readRows (reader : Reader) (san : Str) (lines : List HourlyLine) : List LogRow :=
  ((lines.tail.map (tuple reader san)).mapM reader.row).getD []

/-- The rows of a report, if it is served. -/
def servedRows (reader : Reader) (san : Str) (response : Response) : List LogRow :=
  if response.is_success then readRows reader san response.content else []

def Start.served (start : Start) (reader : Reader) (campaign : Nat × Str) (h : Nat) : List LogRow :=
  servedRows reader campaign.2 (start.response campaign.1 h)

/-- The served rows, in the order in which they are loaded. -/
def Start.rows (start : Start) (reader : Reader) : List LogRow :=
  start.campaigns.flatMap fun campaign => (List.range 24).flatMap (start.served reader campaign)

section
variable {reader : Reader} {logs : LogTable}

theorem hourly_eq (folder : Folder) (file san date : Str) (hour : Nat) : hourly reader folder file san date hour 0 logs =
    match folder.files file with
    | none => logs
    | some lines => (logs.insert (readRows reader san lines)).1 := by
  rw [hourly]
  cases folder.files file with
  | none => rfl
  | some lines =>
    simp only [afterFirst_all, ← List.map_eq_flatMap, readRows]
    split
    · next none => simp [none, KeyedTable.insert]
    · cases (lines.tail.map (tuple reader san)).mapM reader.row with
      | none => simp [KeyedTable.insert]
      | some rows => simp

/-- A download succeeds or fails; it has not been left out for a file that is
    there already. -/
def Settled (response : Response) : Prop := response.is_success = true ∨ response.is_error = true

/-- A settled download loads what is served, if that is anything. -/
theorem hourlyImport_settled {response : Response} {report : Report} {san : Str} {folder : Folder}
    (positive : 0 < report.campId) (settled : Settled response) :
    hourlyImport reader response report san folder logs = (logs.insert (servedRows reader san response)).1 := by
  rw [servedRows]
  by_cases succeeded : response.is_success = true
  · have noError : response.is_error = false := by
      rw [Response.is_success, Bool.and_eq_true, decide_eq_true_iff, decide_eq_true_iff] at succeeded
      rw [Response.is_error, Bool.and_eq_false_iff, decide_eq_false_iff_not]
      exact .inl (by omega)
    have stored : (mirror response report folder).files report.file = some response.content := by
      simp [mirror, succeeded]
    simp only [hourlyImport_loads positive noError, hourly_eq, stored, if_pos succeeded]
  · have failed := settled.resolve_left succeeded
    rw [if_neg succeeded]
    simp [hourlyImport, getHourlyFile, failed, equalsZero, KeyedTable.insert]

/-- A served row is of the hour of its report. -/
theorem servedRows_ofHour {response : Response} {report : Report} {san : Str} {row : LogRow}
    (ofThatHour : response.is_success = true → OfThatHour reader san report response.content)
    (served : row ∈ servedRows reader san response) : response.is_success = true ∧
      ofHour reader san report.date report.hour row = true ∧ ∃ line, reader.row (tuple reader san line) = some row := by
  rw [servedRows] at served
  split at served
  · next succeeded =>
    have readAll : (response.content.tail.map (tuple reader san)).mapM reader.row =
        some (dataRows reader san response.content) := by
      rw [mapM_eq_filterMap, List.filterMap_map]
      · rfl
      · intro values member
        obtain ⟨line, inLines, rfl⟩ := List.mem_map.mp member
        obtain ⟨row, isRead, -⟩ := ofThatHour succeeded line inLines
        exact ⟨row, isRead⟩
    rw [readRows, readAll, Option.getD_some] at served
    obtain ⟨line, inLines, isRead⟩ := List.mem_filterMap.mp served
    obtain ⟨other, otherRead, isHour⟩ := ofThatHour succeeded line inLines
    obtain rfl := Option.some.inj (isRead.symm.trans otherRead)
    exact ⟨succeeded, isHour, line, isRead⟩
  · exact absurd served List.not_mem_nil

end

/-! ### Clean reports -/

/-- The load leaves the text of an ad empty; the statement does not name the
    column. -/
def NoText (reader : Reader) : Prop := ∀ values row, reader.row values = some row → row.mediatext = none

/-- What is relied on for a day: each report is served or not, has rows of its
    hour only and none of them twice, and no ad is reported for two campaigns. -/
structure Clean (reader : Reader) (start : Start) : Prop where
  date : reader.date start.yesterdayDate = some start.date
  ids : ∀ campaign ∈ start.campaigns, 0 < campaign.1
  once : start.campaigns.Nodup
  settled : ∀ cid h, Settled (start.response cid h)
  hours : ∀ campaign ∈ start.campaigns, ∀ h < 24, (start.response campaign.1 h).is_success = true →
    OfThatHour reader campaign.2 (start.report campaign.1 h) (start.response campaign.1 h).content
  own : ∀ campaign ∈ start.campaigns, ∀ h < 24, ((start.served reader campaign h).map LogRow.key).Nodup
  ads : ∀ campaign ∈ start.campaigns, ∀ other ∈ start.campaigns, ∀ h h', ∀ row ∈ start.served reader campaign h,
    ∀ row' ∈ start.served reader other h', row.adid = row'.adid → campaign = other
  sized : Sized start.media

section
variable {reader : Reader} {start : Start} {campaign : Nat × Str}

/-- A served row is one of its hour. -/
theorem served_row (clean : Clean reader start) (isCampaign : campaign ∈ start.campaigns) {h : Nat} (early : h < 24)
    {row : LogRow} (served : row ∈ start.served reader campaign h) : row.date = start.date ∧ row.hour = h ∧
      row.san = some campaign.2 ∧ ∃ line, reader.row (tuple reader campaign.2 line) = some row := by
  obtain ⟨-, isHour, line, isRead⟩ := servedRows_ofHour (clean.hours campaign isCampaign h early) served
  simp only [ofHour, Bool.and_eq_true, beq_iff_eq, Start.report, clean.date, Option.some.injEq] at isHour
  exact ⟨isHour.1.2.symm, isHour.2, isHour.1.1, line, isRead⟩

theorem mem_rows (row : LogRow) : row ∈ start.rows reader ↔
    ∃ campaign ∈ start.campaigns, ∃ h < 24, row ∈ start.served reader campaign h := by
  simp [Start.rows, List.mem_flatMap]

/-- Rows of two hours or of two campaigns have other keys. -/
theorem rows_keys (clean : Clean reader start) : ((start.rows reader).map LogRow.key).Nodup := by
  rw [Start.rows, List.map_flatMap, List.nodup_flatMap]
  refine ⟨fun campaign isCampaign => ?_, ?_⟩
  · rw [List.map_flatMap, List.nodup_flatMap]
    refine ⟨fun h early => clean.own campaign isCampaign h (List.mem_range.mp early), ?_⟩
    apply List.nodup_range.pairwise_of_forall_ne
    intro h early h' early' differ
    refine List.disjoint_left.mpr fun key isKey isKey' => differ ?_
    obtain ⟨row, served, rfl⟩ := List.mem_map.mp isKey
    obtain ⟨row', served', same⟩ := List.mem_map.mp isKey'
    obtain ⟨-, hour, -⟩ := served_row clean isCampaign (List.mem_range.mp early) served
    obtain ⟨-, hour', -⟩ := served_row clean isCampaign (List.mem_range.mp early') served'
    rw [← hour, ← hour']
    exact (congrArg (fun key => key.2.1) same).symm
  · apply clean.once.pairwise_of_forall_ne
    intro campaign isCampaign other isOther differ
    refine List.disjoint_left.mpr fun key isKey isKey' => differ ?_
    obtain ⟨row, isRow, rfl⟩ := List.mem_map.mp isKey
    obtain ⟨row', isRow', same⟩ := List.mem_map.mp isKey'
    obtain ⟨h, -, served⟩ := List.mem_flatMap.mp isRow
    obtain ⟨h', -, served'⟩ := List.mem_flatMap.mp isRow'
    exact clean.ads campaign isCampaign other isOther h h' row served row' served'
      (congrArg (fun key => key.2.2.1) same).symm

theorem date_rows (clean : Clean reader start) {row : LogRow} (isRow : row ∈ start.rows reader) : row.date = start.date := by
  obtain ⟨campaign, isCampaign, h, early, served⟩ := (mem_rows row).mp isRow
  exact (served_row clean isCampaign early served).1

/-- The imports of a day are insertions of what is served. -/
theorem scriptHourly_logs (clean : Clean reader start) (loaded : Loaded) :
    (scriptHourly reader start loaded).logs = (start.campaigns.flatMap fun campaign =>
      (List.range 24).map (start.served reader campaign)).foldl (fun logs rows => (logs.insert rows).1) loaded.logs := by
  have hours : ∀ campaign, 0 < campaign.1 → ∀ (list : List Nat) (loaded : Loaded),
      (list.foldl (importHour reader start campaign) loaded).logs =
        (list.map (start.served reader campaign)).foldl (fun logs rows => (logs.insert rows).1) loaded.logs := by
    intro campaign positive list
    induction list with
    | nil => exact fun _ => rfl
    | cons h rest ih =>
      intro loaded
      rw [List.foldl_cons, ih, List.map_cons, List.foldl_cons, importHour]
      exact congrArg (List.foldl _ · _) (hourlyImport_settled positive (clean.settled _ _))
  have ids := clean.ids
  rw [scriptHourly]
  generalize start.campaigns = campaigns at ids
  induction campaigns generalizing loaded with
  | nil => rfl
  | cons campaign rest ih =>
    rw [List.foldl_cons, ih _ fun other member => ids other (List.mem_cons_of_mem _ member),
      hours campaign (ids campaign List.mem_cons_self), List.flatMap_cons, List.foldl_append]

/-- On a date without rows all that is served gets into the logs. -/
theorem scriptHourly_rows (clean : Clean reader start) {loaded : Loaded}
    (new : ∀ row ∈ loaded.logs.rows, row.date ≠ start.date) :
    (scriptHourly reader start loaded).logs.rows = loaded.logs.rows ++ start.rows reader := by
  have all : (start.campaigns.flatMap fun campaign => (List.range 24).map (start.served reader campaign)).flatten =
      start.rows reader := by
    rw [Start.rows, ← List.flatMap_id, List.flatMap_assoc]
    apply List.flatMap_congr
    intro campaign _
    rw [List.flatMap_map]
    rfl
  rw [scriptHourly_logs clean, KeyedTable.insert_blocks, all]
  · rw [all]
    exact rows_keys clean
  · rw [all]
    intro row isRow taken
    obtain ⟨old, isOld, same⟩ := KeyedTable.has_iff.mp taken
    exact new old isOld ((congrArg Prod.fst same).trans (date_rows clean isRow))

end

/-! ### Sums over a date -/

section
variable {σ τ κ γ π : Type} [DecidableEq γ]

/-- For a date there is one row for each group of the sources, with the sums of the
    group. -/
structure Counts (log : σ → LogRow) (columns : σ → Option γ) (date : Date) (sources : List σ) (rows : List (HourRow γ)) :
    Prop where
  groups : ∀ source ∈ sources, ∃! row, row ∈ rows ∧ RowOf log columns row source
  only : ∀ row ∈ rows, row.date = date → ∃ source ∈ sources, RowOf log columns row source
  sums : ∀ row ∈ rows, row.date = date →
    let group := sources.filter fun source => RowOf log columns row source
    row.impressions = sumColumn (fun source => (log source).impressions) group ∧
      row.clicks = sumColumn (fun source => (log source).clicks) group ∧
      row.actions = sumColumn (fun source => (log source).actions) group ∧
      row.num_cells = some group.length

/-- The rows of the date are all that matters. -/
theorem Counts.congr {log : σ → LogRow} {columns : σ → Option γ} {date : Date} {sources : List σ}
    {rows rows' : List (HourRow γ)} (dated : ∀ source ∈ sources, (log source).date = date)
    (same : ∀ row, row.date = date → (row ∈ rows' ↔ row ∈ rows)) (counts : Counts log columns date sources rows) :
    Counts log columns date sources rows' where
  groups source isSource := by
    obtain ⟨row, ⟨member, rowOf⟩, unique⟩ := counts.groups source isSource
    have isDate : ∀ row, RowOf log columns row source → row.date = date :=
      fun row rowOf => rowOf.1.trans (dated source isSource)
    refine ⟨row, ⟨(same row (isDate row rowOf)).mpr member, rowOf⟩, ?_⟩
    rintro other ⟨otherMember, otherOf⟩
    exact unique other ⟨(same other (isDate other otherOf)).mp otherMember, otherOf⟩
  only row member isDate := counts.only row ((same row isDate).mp member) isDate
  sums row member isDate := counts.sums row ((same row isDate).mp member) isDate

variable [LinearOrder κ] [DecidableEq π] {key : HourRow γ → π} {query : HourQuery σ κ γ} {columns : σ → Option γ}
  {date : Date} {sources : List σ}

theorem counts_new (rebuilds : Rebuilds key query columns date date sources)
    (dated : ∀ source ∈ sources, (query.log source).date = date) (table : KeyedTable key) :
    Counts query.log columns date sources (query.repopulate date date 1 sources table).rows := by
  obtain ⟨rebuilt, -⟩ := rebuilds table
  have inside : ∀ {other : Date}, other = date → inRange date date other = true := by
    intro other same
    simp [inRange_self, same]
  exact ⟨fun source isSource => rebuilt.groups source isSource (inside (dated source isSource)),
    fun row member isDate => rebuilt.only row member (inside isDate),
    fun row member isDate => rebuilt.sums row member (inside isDate)⟩

/-- The rows of another date stay. -/
theorem counts_kept (rebuilds : Rebuilds key query columns date date sources) {other : Date} (differ : other ≠ date)
    {log : τ → LogRow} {columns' : τ → Option γ} {others : List τ} (dated : ∀ source ∈ others, (log source).date = other)
    {table : KeyedTable key} (counts : Counts log columns' other others table.rows) :
    Counts log columns' other others (query.repopulate date date 1 sources table).rows := by
  obtain ⟨rebuilt, -⟩ := rebuilds table
  apply counts.congr dated
  intro row isDate
  have outside : (!inRange date date row.date) = true := by simp [inRange_self, isDate, differ]
  have mem : ∀ rows : List (HourRow γ), row ∈ rows ↔ row ∈ rows.filter fun row => !inRange date date row.date := by
    intro rows
    rw [List.mem_filter, and_iff_left outside]
  rw [mem, rebuilt.outside, ← mem]

omit [DecidableEq γ] in
/-- Sources outside the range are not read. -/
theorem repopulate_filter {startDate endDate : Date} {re_populate : Int} (table : KeyedTable key) :
    query.repopulate startDate endDate re_populate
        (sources.filter fun source => inRange startDate endDate (query.log source).date) table =
      query.repopulate startDate endDate re_populate sources table := by
  simp [HourQuery.repopulate, List.filter_filter]

end

theorem withMedia_filter (logs : LogTable) (media : MediaTable) (keep : LogRow → Bool) :
    withMedia (logs.filter keep) media = (withMedia logs media).filter fun pair => keep pair.1 := by
  simp only [withMedia, Query.join, KeyedTable.filter]
  induction logs.rows with
  | nil => rfl
  | cons row rest ih =>
    rw [List.flatMap_cons, List.filter_append, List.filter_map]
    by_cases kept : keep row = true
    · rw [List.filter_cons_of_pos kept, List.flatMap_cons, ih]
      congr 2
      exact (List.filter_eq_self.mpr fun _ _ => kept).symm
    · rw [List.filter_cons_of_neg kept, ih]
      simp [Function.comp_def, kept]

/-- Only the logs of the range are rolled up. -/
theorem byHour_filter (logs : LogTable) (media : MediaTable) (startDate endDate : Date) (re_populate : Int)
    (tables : HourTables) : byHour (logs.filter fun row => inRange startDate endDate row.date) media startDate endDate
      re_populate tables = byHour logs media startDate endDate re_populate tables := by
  simp only [byHour, withMedia_filter]
  congr 1 <;> exact repopulate_filter _

/-! ### Days -/

/-- The served rows with the ads that were known on the day. -/
def Start.pairs (start : Start) (reader : Reader) : List (LogRow × MediaRow) :=
  join (fun dl m => dl.adid == m.adid) (start.rows reader) start.media.rows

/-- The tables have the sums of what was served for the day before a start. -/
structure Counted (reader : Reader) (start : Start) (tables : HourTables) : Prop where
  campaignHour : Counts id campaignColumns start.date (start.rows reader) tables.campaignHour.rows
  mediaHour : Counts id mediaColumns start.date (start.rows reader) tables.mediaHour.rows
  siteSizeSegmentHour :
    Counts Prod.fst siteSizeSegmentColumns start.date (start.pairs reader) tables.siteSizeSegmentHour.rows
  siteSizeHour : Counts Prod.fst siteSizeColumns start.date (start.pairs reader) tables.siteSizeHour.rows
  siteSegmentHour : Counts id siteSegmentColumns start.date (start.rows reader) tables.siteSegmentHour.rows
  segmentHour : Counts id segmentColumns start.date (start.rows reader) tables.segmentHour.rows
  cpsHour : Counts Prod.fst cpsColumns start.date (start.pairs reader) tables.cpsHour.rows
  cpsSegmentHour : Counts Prod.fst cpsSegmentColumns start.date (start.pairs reader) tables.cpsSegmentHour.rows
  cpsSiteSegmentHour : Counts Prod.fst cpsSiteSegmentColumns start.date (start.pairs reader) tables.cpsSiteSegmentHour.rows

section
variable {reader : Reader} {start : Start} {state after : State} {starts : List Start}

theorem date_pairs (clean : Clean reader start) {pair : LogRow × MediaRow} (isPair : pair ∈ start.pairs reader) :
    pair.1.date = start.date := date_rows clean (mem_join.mp isPair).1

/-- The logs of the date, after its import. -/
def dayLogs (reader : Reader) (start : Start) (loaded : Loaded) : LogTable :=
  (scriptHourly reader start loaded).logs.filter fun row => inRange start.date start.date row.date

theorem dayLogs_rows (clean : Clean reader start) {loaded : Loaded} (new : ∀ row ∈ loaded.logs.rows, row.date ≠ start.date) :
    (dayLogs reader start loaded).rows = start.rows reader := by
  have before : loaded.logs.rows.filter (fun row => inRange start.date start.date row.date) = [] := by
    apply List.filter_eq_nil_iff.mpr
    intro row isOld
    simp [inRange_self, new row isOld]
  have served : (start.rows reader).filter (fun row => inRange start.date start.date row.date) = start.rows reader := by
    apply List.filter_eq_self.mpr
    intro row isRow
    simp [inRange_self, date_rows clean isRow]
  show (scriptHourly reader start loaded).logs.rows.filter _ = _
  rw [scriptHourly_rows clean new, List.filter_append, before, served, List.nil_append]

theorem oneName_dayLogs (noText : NoText reader) (clean : Clean reader start) {loaded : Loaded}
    (new : ∀ row ∈ loaded.logs.rows, row.date ≠ start.date) : OneName (dayLogs reader start loaded) := by
  constructor
  · intro row member
    rw [dayLogs_rows clean new, mem_rows] at member
    obtain ⟨campaign, isCampaign, h, early, served⟩ := member
    rw [(served_row clean isCampaign early served).2.2.1]
    exact Option.some_ne_none _
  · intro row member other otherMember sameAd
    rw [dayLogs_rows clean new, mem_rows] at member otherMember
    obtain ⟨campaign, isCampaign, h, early, served⟩ := member
    obtain ⟨campaign', isCampaign', h', early', served'⟩ := otherMember
    obtain rfl := clean.ads campaign isCampaign campaign' isCampaign' h h' row served other served' sameAd
    obtain ⟨-, -, san, line, isRead⟩ := served_row clean isCampaign early served
    obtain ⟨-, -, san', line', isRead'⟩ := served_row clean isCampaign early' served'
    rw [san, san', noText _ _ isRead, noText _ _ isRead']
    exact ⟨rfl, rfl⟩

theorem cdoImport_tables (state : State) : (cdoImport reader state start).tables =
    byHour (dayLogs reader start state.toLoaded) start.media start.date start.date 1 state.tables :=
  (byHour_filter _ _ _ _ _ _).symm

/-- A day that had no logs is counted. -/
theorem counted_cdoImport (noText : NoText reader) (clean : Clean reader start)
    (new : ∀ row ∈ state.logs.rows, row.date ≠ start.date) : Counted reader start (cdoImport reader state start).tables := by
  have oneName := oneName_dayLogs noText clean new
  have logs := dayLogs_rows clean new
  have pairs : withMedia (dayLogs reader start state.toLoaded) start.media = start.pairs reader := by
    rw [withMedia, logs]
    rfl
  have sized := clean.sized
  have rowDates : ∀ row ∈ start.rows reader, row.date = start.date := fun row isRow => date_rows clean isRow
  have pairDates : ∀ pair ∈ start.pairs reader, pair.1.date = start.date := fun pair isPair => date_pairs clean isPair
  rw [cdoImport_tables]
  rw [← logs] at rowDates
  rw [← pairs] at pairDates
  constructor
  · rw [← logs]; exact counts_new (campaignHour_rebuilds oneName) rowDates _
  · rw [← logs]; exact counts_new (mediaHour_rebuilds oneName) rowDates _
  · rw [← pairs]; exact counts_new (siteSizeSegmentHour_rebuilds sized) pairDates _
  · rw [← pairs]; exact counts_new (siteSizeHour_rebuilds sized) pairDates _
  · rw [← logs]; exact counts_new siteSegmentHour_rebuilds rowDates _
  · rw [← logs]; exact counts_new segmentHour_rebuilds rowDates _
  · rw [← pairs]; exact counts_new (cpsHour_rebuilds oneName sized) pairDates _
  · rw [← pairs]; exact counts_new (cpsSegmentHour_rebuilds oneName sized) pairDates _
  · rw [← pairs]; exact counts_new (cpsSiteSegmentHour_rebuilds oneName sized) pairDates _

/-- A day that is counted stays so when another one is imported. -/
theorem counted_kept (noText : NoText reader) (clean : Clean reader start)
    (new : ∀ row ∈ state.logs.rows, row.date ≠ start.date) {earlier : Start} (cleanEarlier : Clean reader earlier)
    (differ : earlier.date ≠ start.date) (counted : Counted reader earlier state.tables) :
    Counted reader earlier (cdoImport reader state start).tables := by
  have oneName := oneName_dayLogs noText clean new
  have sized := clean.sized
  have rowDates : ∀ row ∈ earlier.rows reader, row.date = earlier.date := fun row isRow => date_rows cleanEarlier isRow
  have pairDates : ∀ pair ∈ earlier.pairs reader, pair.1.date = earlier.date :=
    fun pair isPair => date_pairs cleanEarlier isPair
  rw [cdoImport_tables]
  constructor
  · exact counts_kept (campaignHour_rebuilds oneName) differ rowDates counted.campaignHour
  · exact counts_kept (mediaHour_rebuilds oneName) differ rowDates counted.mediaHour
  · exact counts_kept (siteSizeSegmentHour_rebuilds sized) differ pairDates counted.siteSizeSegmentHour
  · exact counts_kept (siteSizeHour_rebuilds sized) differ pairDates counted.siteSizeHour
  · exact counts_kept siteSegmentHour_rebuilds differ rowDates counted.siteSegmentHour
  · exact counts_kept segmentHour_rebuilds differ rowDates counted.segmentHour
  · exact counts_kept (cpsHour_rebuilds oneName sized) differ pairDates counted.cpsHour
  · exact counts_kept (cpsSegmentHour_rebuilds oneName sized) differ pairDates counted.cpsSegmentHour
  · exact counts_kept (cpsSiteSegmentHour_rebuilds oneName sized) differ pairDates counted.cpsSiteSegmentHour

/-- The dates of the starts to come are still without logs after a day. -/
theorem new_cdoImport (clean : Clean reader start) (dates : ((start :: starts).map Start.date).Nodup)
    (new : ∀ other ∈ start :: starts, ∀ row ∈ state.logs.rows, row.date ≠ other.date) :
    ∀ other ∈ starts, ∀ row ∈ (cdoImport reader state start).logs.rows, row.date ≠ other.date := by
  intro other isOther row member
  have member : row ∈ (scriptHourly reader start state.toLoaded).logs.rows := member
  rw [scriptHourly_rows clean (new start List.mem_cons_self)] at member
  rcases List.mem_append.mp member with old | served
  · exact new other (List.mem_cons_of_mem _ isOther) row old
  · rw [date_rows clean served]
    rw [List.map_cons, List.nodup_cons] at dates
    exact fun same => dates.1 (same ▸ List.mem_map_of_mem isOther)

/-- What is counted at the start of a run stays so, and each of its days is
    counted. -/
theorem counted_run (noText : NoText reader) (run : Run (ofFunction (cdoImport reader)) state starts after)
    (clean : ∀ start ∈ starts, Clean reader start) (dates : (starts.map Start.date).Nodup)
    (new : ∀ start ∈ starts, ∀ row ∈ state.logs.rows, row.date ≠ start.date) :
    (∀ earlier, Clean reader earlier → (∀ start ∈ starts, earlier.date ≠ start.date) →
        Counted reader earlier state.tables → Counted reader earlier after.tables) ∧
      ∀ start ∈ starts, Counted reader start after.tables := by
  induction run with
  | nil state => exact ⟨fun _ _ _ counted => counted, fun _ none => absurd none List.not_mem_nil⟩
  | @cons state next after start rest step _ ih =>
    obtain rfl : next = cdoImport reader state start := step
    have cleanStart := clean start List.mem_cons_self
    have newStart := new start List.mem_cons_self
    obtain ⟨stays, counted⟩ := ih (fun other member => clean other (List.mem_cons_of_mem _ member))
      (List.nodup_cons.mp dates).2 (new_cdoImport cleanStart dates new)
    refine ⟨fun earlier cleanEarlier apart before => ?_, fun other isOther => ?_⟩
    · refine stays earlier cleanEarlier (fun other member => apart other (List.mem_cons_of_mem _ member)) ?_
      exact counted_kept noText cleanStart newStart cleanEarlier (apart start List.mem_cons_self) before
    · rcases List.mem_cons.mp isOther with rfl | later
      · refine stays other cleanStart (fun later member same => ?_) (counted_cdoImport noText cleanStart newStart)
        exact (List.nodup_cons.mp dates).1 (same ▸ List.mem_map_of_mem member)
      · exact counted other later

end

/-- The sample row, of 5 January 1970. -/
def januaryRow : LogRow := { sampleRow 100 with date := 4 }

def januaryReader : Reader where
  percentD := sampleReader.percentD
  percent2f := sampleReader.percent2f
  row values := if values.date = "19700105".toList ∧ values.impressions = "100".toList then some januaryRow else none
  date text := if text = "1970-01-05".toList then some 4 else none

def januaryLine : HourlyLine := { sampleLine "100".toList with date_hour := "01/05/1970 03".toList }

def servedReport : Response := ⟨200, "OK".toList, [headerLine, januaryLine]⟩

def notFound : Response := ⟨404, "Not Found".toList, []⟩

/-- Only the report of one hour is served. -/
def januaryStart : Start where
  time := 5 * 86400
  campaigns := [(77, "auo".toList)]
  response _ h := if h = 3 then servedReport else notFound
  media := bothKnown

theorem response_january {cid h : Nat} (other : h ≠ 3) : januaryStart.response cid h = notFound := if_neg other

theorem served_january {campaign : Nat × Str} (isCampaign : campaign ∈ januaryStart.campaigns) (h : Nat) :
    januaryStart.served januaryReader campaign h = if h = 3 then [januaryRow] else [] := by
  obtain rfl := List.mem_singleton.mp isCampaign
  rw [Start.served, servedRows]
  by_cases third : h = 3
  · subst third
    decide
  · rw [response_january third, if_neg third]
    rfl

theorem clean_january : Clean januaryReader januaryStart where
  date := by decide +kernel
  ids := by decide
  once := List.nodup_singleton _
  settled cid h := by
    by_cases third : h = 3
    · subst third
      exact .inl rfl
    · rw [response_january third]
      exact .inr rfl
  hours campaign isCampaign h _ succeeded := by
    obtain rfl := List.mem_singleton.mp isCampaign
    by_cases third : h = 3
    · subst third
      intro line member
      obtain rfl := List.mem_singleton.mp member
      exact ⟨januaryRow, by decide, by decide +kernel⟩
    · rw [response_january third] at succeeded
      exact absurd succeeded (by decide)
  own campaign isCampaign h _ := by
    rw [served_january isCampaign]
    split
    · exact List.nodup_singleton _
    · exact List.nodup_nil
  ads campaign isCampaign other isOther _ _ _ _ _ _ _ :=
    (List.mem_singleton.mp isCampaign).trans (List.mem_singleton.mp isOther).symm
  sized := ⟨by decide, by decide⟩

def nothingLoaded : State := ⟨⟨fun _ => emptyFolder, .empty⟩, noTables⟩

/-- An hourly call (`getAllApiData` of `dataLoader.pm`): its time, the campaigns of
    the API, and what is downloaded for a campaign by its import, its re-import and
    the refresh of the day before. -/
structure Call where
  time : Int
  campaigns : List (Str × Nat)
  response : Nat → Response
  reResponse : Nat → Response
  refreshed : Nat → Nat → Response

def Call.dates (call : Call) : DateHours := getGMTDateHour call.time 0 1

def hourToGetDaily : Nat := 11

def hourToRefreshPrevDay : Nat := 10

/-- The report that a call imports for a campaign. -/
def Call.report (call : Call) (cid : Nat) : Report := ⟨cid, call.dates.apiIDate, call.dates.iHour, blank_dateText _⟩

/-- The report that it imports again. -/
def Call.reReport (call : Call) (cid : Nat) : Report := ⟨cid, call.dates.apiRDate, call.dates.rHour, blank_dateText _⟩

/-- The import and the re-import of a campaign. -/
def importCampaign (reader : Reader) (call : Call) (loaded : Loaded) (c : Str × Nat) : Loaded :=
  let report := call.report c.2
  let reReport := call.reReport c.2
  let folder := loaded.folders c.2
  let imported := mirror (call.response c.2) report folder
  { folders := Function.update loaded.folders c.2 (mirror (call.reResponse c.2) reReport imported)
    logs := hourlyReImport reader (call.reResponse c.2) reReport c.1 imported
      (hourlyImport reader (call.response c.2) report c.1 folder loaded.logs) }

def refreshHour (reader : Reader) (call : Call) (c : Str × Nat) (loaded : Loaded) (h : Nat) : Loaded :=
  let report : Report := ⟨c.2, call.dates.apiYDate, h, blank_dateText _⟩
  let folder := loaded.folders c.2
  { folders := Function.update loaded.folders c.2 (mirror (call.refreshed c.2 h) report folder)
    logs := hourlyReImport reader (call.refreshed c.2 h) report c.1 folder loaded.logs }

/-- What a call does to the stored reports and the logs. In the hour of the daily
    reports it ends with a method that does not exist. -/
def getAllApiData (reader : Reader) (loaded : Loaded) (call : Call) : Loaded :=
  let imported := call.campaigns.foldl (importCampaign reader call) loaded
  if call.dates.iHour = hourToGetDaily then imported
  else if call.dates.iHour = hourToRefreshPrevDay then
    call.campaigns.foldl (fun loaded c => (List.range 24).foldl (refreshHour reader call c) loaded) imported
  else imported

section
variable {reader : Reader} {call : Call} {calls : List Call} {loaded after : Loaded}

/-- A refresh does nothing to the logs. -/
theorem refresh_logs (campaigns : List (Str × Nat)) :
    (campaigns.foldl (fun loaded c => (List.range 24).foldl (refreshHour reader call c) loaded) loaded).logs =
      loaded.logs := by
  have hours : ∀ c (list : List Nat) (loaded : Loaded),
      (list.foldl (refreshHour reader call c) loaded).logs = loaded.logs := by
    intro c list
    induction list with
    | nil => exact fun _ => rfl
    | cons h rest ih =>
      intro loaded
      rw [List.foldl_cons, ih, refreshHour]
      exact hourlyReImport_logs
  induction campaigns generalizing loaded with
  | nil => rfl
  | cons c rest ih => rw [List.foldl_cons, ih, hours]

theorem getAllApiData_logs (ids : ∀ c ∈ call.campaigns, 0 < c.2) (settled : ∀ cid, Settled (call.response cid)) :
    (getAllApiData reader loaded call).logs =
      (call.campaigns.map fun c => servedRows reader c.1 (call.response c.2)).foldl
        (fun logs rows => (logs.insert rows).1) loaded.logs := by
  have imported : (call.campaigns.foldl (importCampaign reader call) loaded).logs =
      (call.campaigns.map fun c => servedRows reader c.1 (call.response c.2)).foldl
        (fun logs rows => (logs.insert rows).1) loaded.logs := by
    generalize call.campaigns = campaigns at ids
    induction campaigns generalizing loaded with
    | nil => rfl
    | cons c rest ih =>
      rw [List.foldl_cons, ih fun other member => ids other (List.mem_cons_of_mem _ member), importCampaign,
        hourlyReImport_logs, hourlyImport_settled (ids c List.mem_cons_self) (settled _)]
      rfl
  rw [getAllApiData, ← imported]
  split
  · rfl
  · split
    · exact refresh_logs _
    · rfl

/-- Insertions bring in no other rows. -/
theorem mem_inserts {blocks : List (List LogRow)} {logs : LogTable} {row : LogRow}
    (member : row ∈ (blocks.foldl (fun logs rows => (logs.insert rows).1) logs).rows) :
    row ∈ logs.rows ∨ ∃ rows ∈ blocks, row ∈ rows := by
  induction blocks generalizing logs with
  | nil => exact .inl member
  | cons rows rest ih =>
    rw [List.foldl_cons] at member
    rcases ih member with before | ⟨later, isLater, isRow⟩
    · obtain ⟨inserted, left, split, rowsAre, -⟩ := logs.insert_spec rows
      rw [rowsAre] at before
      rcases List.mem_append.mp before with old | new
      · exact .inl old
      · exact .inr ⟨rows, List.mem_cons_self, split ▸ List.mem_append_left _ new⟩
    · exact .inr ⟨later, List.mem_cons_of_mem _ isLater, isRow⟩

/-- A row of the logs after a call was there, or it is of one of the imports. -/
theorem row_of_import (ids : ∀ c ∈ call.campaigns, 0 < c.2) (settled : ∀ cid, Settled (call.response cid)) {row : LogRow}
    (member : row ∈ (getAllApiData reader loaded call).logs.rows) :
    row ∈ loaded.logs.rows ∨ ∃ c ∈ call.campaigns, row ∈ servedRows reader c.1 (call.response c.2) := by
  rw [getAllApiData_logs ids settled] at member
  rcases mem_inserts member with old | ⟨rows, isImport, isRow⟩
  · exact .inl old
  · obtain ⟨c, isCampaign, rfl⟩ := List.mem_map.mp isImport
    exact .inr ⟨c, isCampaign, isRow⟩

/-- An hour that is not served when it is imported stays without rows, whatever is
    served for it afterwards. -/
theorem missed_hour_stays_empty (run : Run (ofFunction (getAllApiData reader)) loaded calls after)
    (ids : ∀ call ∈ calls, ∀ c ∈ call.campaigns, 0 < c.2) (settled : ∀ call ∈ calls, ∀ cid, Settled (call.response cid))
    (hours : ∀ call ∈ calls, ∀ c ∈ call.campaigns, (call.response c.2).is_success = true →
      OfThatHour reader c.1 (call.report c.2) (call.response c.2).content)
    {san date : Str} {hour : Nat} (missed : ∀ call ∈ calls, ∀ c ∈ call.campaigns, c.1 = san →
      reader.date (call.report c.2).date = reader.date date → (call.report c.2).hour = hour →
        (call.response c.2).is_success = false)
    (none : ∀ row ∈ loaded.logs.rows, ofHour reader san date hour row = false) :
    ∀ row ∈ after.logs.rows, ofHour reader san date hour row = false := by
  refine run.invariant (P := fun loaded => ∀ row ∈ loaded.logs.rows, ofHour reader san date hour row = false)
    (fun {before call next} isCall empty step => ?_) none
  obtain rfl : next = getAllApiData reader before call := step
  intro row member
  rcases row_of_import (ids call isCall) (settled call isCall) member with old | ⟨c, isCampaign, served⟩
  · exact empty row old
  · obtain ⟨succeeded, isHour, -⟩ := servedRows_ofHour (hours call isCall c isCampaign) served
    apply Bool.eq_false_iff.mpr
    intro asked
    simp only [ofHour, Bool.and_eq_true, beq_iff_eq] at isHour asked
    have name : c.1 = san := Option.some.inj (isHour.1.1.symm.trans asked.1.1)
    have sameDate := isHour.1.2.trans asked.1.2.symm
    have sameHour := isHour.2.symm.trans asked.2
    rw [missed call isCall c isCampaign name sameDate sameHour] at succeeded
    cases succeeded

end

/-- The import of the third hour of 5 January 1970. -/
def missedCall : Call where
  time := 4 * 86400 + 6 * 3600
  campaigns := [("auo".toList, 77)]
  response _ := notFound
  reResponse _ := notFound
  refreshed _ _ := notFound

/-- Five hours later the report is there. -/
def laterCall : Call := { missedCall with time := 4 * 86400 + 11 * 3600, reResponse := fun _ => servedReport }

theorem missed_hour_reimported :
    (laterCall.reReport 77).date = "1970-01-05".toList ∧ (laterCall.reReport 77).hour = 3 ∧
      (laterCall.reResponse 77).is_success = true ∧
      ofHour januaryReader "auo".toList "1970-01-05".toList 3 januaryRow = true ∧
      ∀ row ∈ ([missedCall, laterCall].foldl (getAllApiData januaryReader) nothingLoaded.toLoaded).logs.rows,
        ofHour januaryReader "auo".toList "1970-01-05".toList 3 row = false := by
  have onlyMissed : ∀ call ∈ [missedCall, laterCall], call.campaigns = [("auo".toList, 77)] ∧
      ∀ cid, call.response cid = notFound := by
    intro call isCall
    rcases List.mem_pair.mp isCall with rfl | rfl
    · exact ⟨rfl, fun _ => rfl⟩
    · exact ⟨rfl, fun _ => rfl⟩
  refine ⟨by decide +kernel, by decide +kernel, rfl, by decide +kernel, ?_⟩
  refine missed_hour_stays_empty (run_ofFunction.mpr rfl) (fun call isCall c isCampaign => ?_) (fun call isCall cid => ?_)
    (fun call isCall c _ succeeded => ?_) (fun call isCall c _ _ _ _ => ?_) fun _ isRow => absurd isRow List.not_mem_nil
  · rw [(onlyMissed call isCall).1] at isCampaign
    obtain rfl := List.mem_singleton.mp isCampaign
    decide
  · rw [(onlyMissed call isCall).2]
    exact .inr rfl
  · rw [(onlyMissed call isCall).2] at succeeded
    exact absurd succeeded (by decide)
  · rw [(onlyMissed call isCall).2]
    rfl

end Cdo.ImportRuns
