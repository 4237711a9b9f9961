import Cdo.CellHistory
import Cdo.Logs
import Cdo.Transitions

/-!
The campaigns and their modes (`checkNewCamps` and `updateCampaignStatus` of
`campOps.pm`, the queries of `commonData.pm`). A campaign of the ad server that is
not known is entered in mode 1. It moves to mode 2 when each hour of the day has
more impressions than a threshold in its logs (`hourly_mode_iff`). The query that
is to decide on mode 3 is no statement, so that no run ever leads to that mode;
what the estimator reads of the history of single cells it reads in that mode only
(`history_never_read`).
-/
namespace Cdo.CampaignModes
open Cdo.Text Cdo.Query Cdo.Tables Cdo.Logs Cdo.QHatAggregations Cdo.CellHistory Cdo.Transitions

/-! ### Campaigns -/

def campaignKey (c : Campaign) : Str × Int := (c.san, c.cid)

abbrev CampaignTable := KeyedTable campaignKey

/-- An ad as the ad server lists it. -/
structure ApiMedia where
  id : Int
  sizeCode : Str
deriving DecidableEq

/-- A campaign as the ad server lists it, with its ads. -/
structure ApiCampaign where
  id : Int
  systemAccountName : Str
  mediaList : List ApiMedia
deriving DecidableEq

def isSpace (c : Char) : Bool := c.isWhitespace || c == Char.ofNat 12

/-- The account name without white space. -/
def accountName (c : ApiCampaign) : Str := c.systemAccountName.filter fun ch => !isSpace ch

/-- What the database reads where a text stands between quotes. There is no
    reading if the quoted text makes the text around it no statement. -/
abbrev Literals := Str → Option Str

/-- The campaigns of the ad server under their account names. -/
def getCampaigns (campaigns : CampaignTable) : SortedMap Str Campaign :=
  SortedMap.ofRows Campaign.san id (campaigns.rows.filter fun c => c.isapi == some 1)

/-- Those of them that are not in the highest mode. -/
def getNewCampaigns (campaigns : CampaignTable) : SortedMap Str Campaign :=
  SortedMap.ofRows Campaign.san id
    (campaigns.rows.filter fun c => c.isapi == some 1 && c.timestatus.any fun status => decide (status < 3))

def defaultBudget : Int := 100

/-- The row that is inserted for a campaign; `usepoe` has its default. -/
def newCampaign (san : Str) (c : ApiCampaign) : Campaign where
  san := san
  cid := c.id
  totalbudget := some defaultBudget
  usepoe := some 0
  isapi := some 1
  timestatus := some 1

/-- The statement for a campaign, which fails if its key is taken. -/
def insertCampaign (reads : Literals) (campaigns : CampaignTable) (c : ApiCampaign) : CampaignTable :=
  match reads (accountName c) with
  | none => campaigns
  | some san => campaigns.insertIgnore [newCampaign san c]

/-- A turn of the loop over the listed campaigns. -/
def checkCampaign (reads : Literals) (campRef : SortedMap Str Campaign) (campaigns : CampaignTable) (c : ApiCampaign) :
    CampaignTable :=
  if (campRef.get? (accountName c)).isNone then insertCampaign reads campaigns c else campaigns

/-- The known campaigns are read once, before the first statement. -/
def checkNewCamps (reads : Literals) (cI : List ApiCampaign) (campaigns : CampaignTable) : CampaignTable :=
  cI.foldl (checkCampaign reads (getCampaigns campaigns)) campaigns

/-! ### Modes -/

def hourlyImpsThreshold : Int := 10000

/-- The impressions of an account by hour, where they exceed the threshold. -/
def impsByHour (reads : Literals) (logs : LogTable) (san : Str) : List (Nat × Option Int) :=
  ((groupRows LogRow.hour (logs.rows.filter fun row => row.san.isSome && row.san == reads san)).map fun group =>
    (group.1, sumColumn LogRow.impressions group.2)).filter fun group =>
      group.2.any fun impressions => decide (hourlyImpsThreshold < impressions)

/-- The fetched hours of an account, by their texts. The other query has two
    commas side by side and is no statement, so that nothing is fetched for it. -/
def getCampaignImpsData (reads : Literals) (type : Str) (logs : LogTable) (san : Str) : SortedMap Str (Option Int) :=
  if type = "hour".toList then SortedMap.ofRows (fun group => natText group.1) Prod.snd (impsByHour reads logs san)
  else SortedMap.empty

/-- The statement that sets the mode of all campaigns of an account. -/
def setStatus (reads : Literals) (san : Str) (status : Int) (campaigns : CampaignTable) : CampaignTable :=
  campaigns.modify (fun c => if reads san = some c.san then { c with timestatus := some status } else c) fun c => by
    split <;> rfl

/-- A turn of the loop over the accounts. The mode that is compared is the one
    that was fetched. -/
def updateStatus (reads : Literals) (logs : LogTable) (newCamps : SortedMap Str Campaign) (campaigns : CampaignTable)
    (san : Str) : CampaignTable :=
  let timeStatus := (newCamps.get? san).bind Campaign.timestatus
  let campaigns :=
    if timeStatus = some 1 ∧ (getCampaignImpsData reads "hour".toList logs san).keys.length = 24 then
      setStatus reads san 2 campaigns
    else campaigns
  if timeStatus = some 2 ∧ (getCampaignImpsData reads "dowHour".toList logs san).keys.length = 168 then
    setStatus reads san 3 campaigns
  else campaigns

def updateCampaignStatus (reads : Literals) (logs : LogTable) (campaigns : CampaignTable) : CampaignTable :=
  let newCamps := getNewCampaigns campaigns
  newCamps.keys.foldl (updateStatus reads logs newCamps) campaigns

/-! ### Operations -/

inductive Operation where
  | checkNewCamps (cI : List ApiCampaign)
  | updateCampaignStatus (logs : LogTable)

def perform (reads : Literals) (campaigns : CampaignTable) : Operation → CampaignTable
  | .checkNewCamps cI => checkNewCamps reads cI campaigns
  | .updateCampaignStatus logs => updateCampaignStatus reads logs campaigns

/-! ### Full days -/

/-- The impressions of an account in an hour of the day, over all dates. -/
def impressionsAt (logs : LogTable) (san : Str) (hour : Nat) : Int :=
  ((logs.rows.filter fun row => row.san = some san ∧ row.hour = hour).map fun row => num row.impressions).sum

/-- Each hour of the day has more impressions than the threshold. -/
def FullDay (logs : LogTable) (san : Str) : Prop := ∀ hour < 24, hourlyImpsThreshold < impressionsAt logs san hour

instance (logs : LogTable) (san : Str) : Decidable (FullDay logs san) :=
  inferInstanceAs (Decidable (∀ hour < 24, _))

section
variable {reads : Literals} {logs : LogTable} {san : Str}

theorem mem_impsByHour (plain : reads san = some san) {hour : Nat} :
    hour ∈ (impsByHour reads logs san).map Prod.fst ↔ hourlyImpsThreshold < impressionsAt logs san hour := by
  have rows : ∀ hour, (logs.rows.filter fun row => row.san.isSome && row.san == reads san).filter
      (fun row => row.hour = hour) = logs.rows.filter fun row => row.san = some san ∧ row.hour = hour := by
    intro hour
    rw [List.filter_filter]
    apply List.filter_congr
    intro row _
    rw [plain]
    cases isSan : row.san with
    | none => simp
    | some other =>
      by_cases same : other = san
      · simp [same]
      · simp [same]
  have exceeds : ∀ group : List LogRow, (sumColumn LogRow.impressions group).any (fun impressions =>
      decide (hourlyImpsThreshold < impressions)) = true ↔
        hourlyImpsThreshold < (group.map fun row => num row.impressions).sum := by
    intro group
    rw [← num_sumColumn]
    cases sumColumn LogRow.impressions group with
    | none => simp [hourlyImpsThreshold]
    | some sum => simp
  simp only [impsByHour, List.mem_map, List.mem_filter, groupRows, List.mem_dedup, Prod.exists]
  constructor
  · rintro ⟨_, _, ⟨⟨⟨_, _, ⟨hour', -, equal⟩, same⟩, above⟩, rfl⟩⟩
    cases equal
    cases same
    rw [exceeds, rows] at above
    exact above
  · intro above
    refine ⟨hour, _, ⟨⟨⟨hour, _, ⟨hour, ?_, rfl⟩, rfl⟩, ?_⟩, rfl⟩⟩
    · -- without a row the sum would be 0
      by_contra none
      have empty : logs.rows.filter (fun row => row.san = some san ∧ row.hour = hour) = [] := by
        rw [← rows, List.filter_eq_nil_iff]
        exact fun row member isHour => none ⟨row, List.mem_filter.mp member, by simpa using isHour⟩
      rw [impressionsAt, empty] at above
      exact absurd above (by decide)
    · rw [exceeds, rows]
      exact above

/-- In logs whose hours are those of a day, 24 hours are fetched exactly if the
    day is full. -/
theorem hours_fetched_iff (plain : reads san = some san) (hours : ∀ row ∈ logs.rows, row.hour < 24) :
    (getCampaignImpsData reads "hour".toList logs san).keys.length = 24 ↔ FullDay logs san := by
  have keys : (getCampaignImpsData reads "hour".toList logs san).keys.toFinset =
      ((impsByHour reads logs san).map Prod.fst).toFinset.image natText := by
    ext text
    simp only [List.mem_toFinset, Finset.mem_image, getCampaignImpsData, if_pos, SortedMap.mem_keys]
    constructor
    · rintro ⟨value, found⟩
      obtain ⟨group, member, same, -⟩ := SortedMap.get?_ofRows_some found
      exact ⟨group.1, List.mem_map_of_mem member, same⟩
    · rintro ⟨hour, isHour, rfl⟩
      obtain ⟨group, member, rfl⟩ := List.mem_map.mp isHour
      exact SortedMap.get?_ofRows_mem (fun group => natText group.1) Prod.snd member
  have inDay : ((impsByHour reads logs san).map Prod.fst).toFinset ⊆ Finset.range 24 := by
    intro hour isHour
    rw [List.mem_toFinset, mem_impsByHour plain] at isHour
    rw [Finset.mem_range]
    by_contra late
    have empty : logs.rows.filter (fun row => row.san = some san ∧ row.hour = hour) = [] := by
      apply List.filter_eq_nil_iff.mpr
      intro row member
      have := hours row member
      simp
      omega
    rw [impressionsAt, empty] at isHour
    exact absurd isHour (by decide)
  rw [← List.toFinset_card_of_nodup (SortedMap.nodup_keys _), keys,
    Finset.card_image_of_injective _ fun _ _ => natText_injective]
  constructor
  · intro all hour early
    have same := Finset.eq_of_subset_of_card_le inDay (by rw [all, Finset.card_range])
    have isHour : hour ∈ ((impsByHour reads logs san).map Prod.fst).toFinset := by
      rw [same]
      exact Finset.mem_range.mpr early
    exact (mem_impsByHour plain).mp (List.mem_toFinset.mp isHour)
  · intro full
    have same : ((impsByHour reads logs san).map Prod.fst).toFinset = Finset.range 24 := by
      apply Finset.Subset.antisymm inDay
      intro hour early
      exact List.mem_toFinset.mpr ((mem_impsByHour plain).mpr (full hour (Finset.mem_range.mp early)))
    rw [same, Finset.card_range]

end

/-! ### What the operations do to a campaign -/

def setTo (status : Int) (c : Campaign) : Campaign := { c with timestatus := some status }

section
variable {reads : Literals} {logs : LogTable} {newCamps : SortedMap Str Campaign} {campaigns : CampaignTable}

/-- The account moves to mode 2. -/
def Moves (reads : Literals) (logs : LogTable) (newCamps : SortedMap Str Campaign) (san : Str) : Prop :=
  (newCamps.get? san).bind Campaign.timestatus = some 1 ∧
    (getCampaignImpsData reads "hour".toList logs san).keys.length = 24

instance (san : Str) : Decidable (Moves reads logs newCamps san) := inferInstanceAs (Decidable (_ ∧ _))

/-- No account is ever moved to mode 3. -/
theorem updateStatus_eq (san : Str) : updateStatus reads logs newCamps campaigns san =
    if Moves reads logs newCamps san then setStatus reads san 2 campaigns else campaigns := by
  have none : (getCampaignImpsData reads "dowHour".toList logs san).keys.length ≠ 168 := by
    have other : "dowHour".toList ≠ "hour".toList := by decide
    rw [getCampaignImpsData, if_neg other]
    decide
  simp only [updateStatus, none, and_false, if_false]
  rfl

theorem get?_updateStatuses (sans : List Str) (k : Str × Int) :
    (sans.foldl (updateStatus reads logs newCamps) campaigns).get? k = (campaigns.get? k).map fun c =>
      if ∃ san ∈ sans, Moves reads logs newCamps san ∧ reads san = some c.san then setTo 2 c else c := by
  induction sans generalizing campaigns with
  | nil => simp
  | cons san rest ih =>
    rw [List.foldl_cons, ih, updateStatus_eq]
    by_cases moves : Moves reads logs newCamps san
    · rw [if_pos moves, setStatus, KeyedTable.get?_modify, Option.map_map]
      refine congrArg (fun change => (campaigns.get? k).map change) (funext fun c => ?_)
      by_cases first : reads san = some c.san
      · have listed : ∃ san' ∈ san :: rest, Moves reads logs newCamps san' ∧ reads san' = some c.san :=
          ⟨san, List.mem_cons_self, moves, first⟩
        rw [Function.comp_apply, if_pos first, if_pos listed]
        split <;> rfl
      · rw [Function.comp_apply, if_neg first]
        simp [first]
    · rw [if_neg moves]
      simp [moves]

/-- The only campaign of an account, which is one of the ad server. -/
structure Single (campaigns : CampaignTable) (c : Campaign) : Prop where
  member : c ∈ campaigns.rows
  api : c.isapi = some 1
  alone : ∀ other ∈ campaigns.rows, other.san = c.san → other = c

/-- The stored account names are read as they are. -/
def PlainNames (reads : Literals) (campaigns : CampaignTable) : Prop := ∀ c ∈ campaigns.rows, reads c.san = some c.san

theorem updateCampaignStatus_rows {c : Campaign} : c ∈ (updateCampaignStatus reads logs campaigns).rows ↔
    ∃ old ∈ campaigns.rows, c = if ∃ san ∈ (getNewCampaigns campaigns).keys,
      Moves reads logs (getNewCampaigns campaigns) san ∧ reads san = some old.san then setTo 2 old else old := by
  have found : c ∈ (updateCampaignStatus reads logs campaigns).rows ↔
      (updateCampaignStatus reads logs campaigns).get? (campaignKey c) = some c := by
    rw [KeyedTable.get?_eq_some, and_iff_left rfl]
  rw [found, updateCampaignStatus, get?_updateStatuses, Option.map_eq_some_iff]
  constructor
  · rintro ⟨old, isOld, rfl⟩
    exact ⟨old, (KeyedTable.get?_eq_some.mp isOld).1, rfl⟩
  · rintro ⟨old, member, rfl⟩
    refine ⟨old, KeyedTable.get?_eq_some.mpr ⟨member, ?_⟩, rfl⟩
    split <;> rfl

theorem plainNames_updateCampaignStatus (plain : PlainNames reads campaigns) :
    PlainNames reads (updateCampaignStatus reads logs campaigns) := by
  intro c member
  obtain ⟨old, isOld, rfl⟩ := updateCampaignStatus_rows.mp member
  split <;> exact plain old isOld

/-- The only campaign of an account moves to mode 2 exactly if it is in mode 1
    and its day is full. -/
theorem single_updateCampaignStatus {c : Campaign} (single : Single campaigns c) (plain : PlainNames reads campaigns)
    (hours : ∀ row ∈ logs.rows, row.hour < 24) :
    Single (updateCampaignStatus reads logs campaigns)
      (if c.timestatus = some 1 ∧ FullDay logs c.san then setTo 2 c else c) := by
  have moves : (∃ san ∈ (getNewCampaigns campaigns).keys,
      Moves reads logs (getNewCampaigns campaigns) san ∧ reads san = some c.san) ↔
        c.timestatus = some 1 ∧ FullDay logs c.san := by
    have fetched : c.timestatus = some 1 → (getNewCampaigns campaigns).get? c.san = some c := by
      intro mode
      refine SortedMap.get?_ofRows_eq (List.mem_filter.mpr ⟨single.member, by simp [single.api, mode]⟩) ?_
      exact fun other member same => single.alone other (List.mem_filter.mp member).1 same
    constructor
    · rintro ⟨san, isKey, ⟨mode, full⟩, same⟩
      obtain ⟨row, found⟩ := SortedMap.mem_keys.mp isKey
      obtain ⟨row, member, rfl, rfl⟩ := SortedMap.get?_ofRows_some found
      have inTable := (List.mem_filter.mp member).1
      have sameSan : row.san = c.san := Option.some.inj ((plain row inTable).symm.trans same)
      obtain rfl := single.alone row inTable sameSan
      rw [hours_fetched_iff (plain row inTable) hours] at full
      rw [found] at mode
      exact ⟨mode, full⟩
    · rintro ⟨mode, full⟩
      refine ⟨c.san, SortedMap.mem_keys.mpr ⟨c, fetched mode⟩, ⟨?_, ?_⟩, plain c single.member⟩
      · rw [fetched mode]
        exact mode
      · exact (hours_fetched_iff (plain c single.member) hours).mpr full
  have isRow : (if c.timestatus = some 1 ∧ FullDay logs c.san then setTo 2 c else c) ∈
      (updateCampaignStatus reads logs campaigns).rows :=
    updateCampaignStatus_rows.mpr ⟨c, single.member, by simp only [moves]⟩
  have keepsSan : ∀ (p : Prop) [Decidable p] (old : Campaign), (if p then setTo 2 old else old).san = old.san := by
    intro p _ old
    split <;> rfl
  refine ⟨isRow, ?_, ?_⟩
  · split <;> exact single.api
  · intro other member same
    obtain ⟨old, isOld, rfl⟩ := updateCampaignStatus_rows.mp member
    rw [keepsSan, keepsSan] at same
    obtain rfl := single.alone old isOld same
    simp only [moves]

/-! ### New campaigns -/

theorem mem_checkCampaign {campRef : SortedMap Str Campaign} {c : ApiCampaign} {row : Campaign}
    (member : row ∈ (checkCampaign reads campRef campaigns c).rows) : row ∈ campaigns.rows ∨
      campRef.get? (accountName c) = none ∧ ∃ san, reads (accountName c) = some san ∧ row = newCampaign san c := by
  rw [checkCampaign] at member
  split at member
  · rename_i unknown
    rw [insertCampaign] at member
    cases isText : reads (accountName c) with
    | none => rw [isText] at member; exact .inl member
    | some san =>
      rw [isText] at member
      rcases KeyedTable.mem_insertIgnore member with before | inserted
      · exact .inl before
      · exact .inr ⟨by simpa using unknown, san, rfl, List.mem_singleton.mp inserted⟩
  · exact .inl member

theorem kept_checkCampaign {campRef : SortedMap Str Campaign} {c : ApiCampaign} {row : Campaign}
    (member : row ∈ campaigns.rows) : row ∈ (checkCampaign reads campRef campaigns c).rows := by
  rw [checkCampaign]
  split
  · rw [insertCampaign]
    cases reads (accountName c) with
    | none => exact member
    | some san => exact KeyedTable.mem_insertIgnore_of_mem member
  · exact member

theorem kept_checkCampaigns {campRef : SortedMap Str Campaign} (cI : List ApiCampaign) {row : Campaign}
    (member : row ∈ campaigns.rows) : row ∈ (cI.foldl (checkCampaign reads campRef) campaigns).rows := by
  induction cI generalizing campaigns with
  | nil => exact member
  | cons c rest ih => exact ih (kept_checkCampaign member)

/-- A campaign is entered if its account is none of the ad server's and its name
    can be read. -/
theorem mem_checkNewCamps {cI : List ApiCampaign} {row : Campaign} (member : row ∈ (checkNewCamps reads cI campaigns).rows) :
    row ∈ campaigns.rows ∨ ∃ c ∈ cI, (getCampaigns campaigns).get? (accountName c) = none ∧
      ∃ san, reads (accountName c) = some san ∧ row = newCampaign san c := by
  rw [checkNewCamps] at member
  generalize getCampaigns campaigns = campRef at *
  induction cI generalizing campaigns with
  | nil => exact .inl member
  | cons c rest ih =>
    rcases ih member with old | ⟨later, isLater, new⟩
    · rcases mem_checkCampaign old with before | ⟨unknown, new⟩
      · exact .inl before
      · exact .inr ⟨c, List.mem_cons_self, unknown, new⟩
    · exact .inr ⟨later, List.mem_cons_of_mem _ isLater, new⟩

theorem kept_checkNewCamps {cI : List ApiCampaign} {row : Campaign} (member : row ∈ campaigns.rows) :
    row ∈ (checkNewCamps reads cI campaigns).rows := kept_checkCampaigns cI member

/-- Every listed campaign has a row of its account afterwards. -/
theorem account_checkNewCamps {cI : List ApiCampaign} {c : ApiCampaign} (listed : c ∈ cI)
    (plain : reads (accountName c) = some (accountName c)) :
    ∃ row ∈ (checkNewCamps reads cI campaigns).rows, row.san = accountName c := by
  cases known : (getCampaigns campaigns).get? (accountName c) with
  | some old =>
    obtain ⟨row, member, same, -⟩ := SortedMap.get?_ofRows_some known
    exact ⟨row, kept_checkNewCamps (List.mem_filter.mp member).1, same⟩
  | none =>
    obtain ⟨earlier, later, rfl⟩ := List.append_of_mem listed
    rw [checkNewCamps, List.foldl_append, List.foldl_cons]
    generalize earlier.foldl (checkCampaign reads (getCampaigns campaigns)) campaigns = reached
    have entered : (checkCampaign reads (getCampaigns campaigns) reached c).Has (accountName c, c.id) := by
      rw [checkCampaign, known, Option.isNone_none, if_pos rfl, insertCampaign, plain]
      exact KeyedTable.has_insertIgnore.mpr (.inr ⟨_, List.mem_singleton_self _, rfl⟩)
    obtain ⟨row, member, same⟩ := KeyedTable.has_iff.mp entered
    exact ⟨row, kept_checkCampaigns later member, congrArg Prod.fst same⟩

theorem plainNames_checkNewCamps {cI : List ApiCampaign} (plain : PlainNames reads campaigns)
    (names : ∀ c ∈ cI, reads (accountName c) = some (accountName c)) :
    PlainNames reads (checkNewCamps reads cI campaigns) := by
  intro row member
  rcases mem_checkNewCamps member with old | ⟨c, listed, -, san, isText, rfl⟩
  · exact plain row old
  · obtain rfl := Option.some.inj ((names c listed).symm.trans isText)
    exact names c listed

/-- The only campaign of an account of the ad server stays the only one. -/
theorem single_checkNewCamps {cI : List ApiCampaign} {c : Campaign} (single : Single campaigns c)
    (names : ∀ c ∈ cI, reads (accountName c) = some (accountName c)) : Single (checkNewCamps reads cI campaigns) c := by
  refine ⟨kept_checkNewCamps single.member, single.api, fun other member same => ?_⟩
  rcases mem_checkNewCamps member with old | ⟨listed, isListed, unknown, san, isText, rfl⟩
  · exact single.alone other old same
  · obtain rfl := Option.some.inj ((names listed isListed).symm.trans isText)
    have isApi : c ∈ campaigns.rows.filter fun c => c.isapi == some 1 :=
      List.mem_filter.mpr ⟨single.member, by simp [single.api]⟩
    obtain ⟨row, found⟩ := SortedMap.get?_ofRows_mem Campaign.san id isApi
    rw [← show accountName listed = c.san from same] at found
    rw [getCampaigns, found] at unknown
    cases unknown

end

/-! ### Runs -/

/-- The names that are listed are read as they are, and the logs have the hours
    of a day. -/
def Operation.Plain (reads : Literals) : Operation → Prop
  | .checkNewCamps cI => ∀ c ∈ cI, reads (accountName c) = some (accountName c)
  | .updateCampaignStatus logs => ∀ row ∈ logs.rows, row.hour < 24

/-- A check finds the day of an account full. -/
def Operation.Full (san : Str) : Operation → Prop
  | .checkNewCamps _ => False
  | .updateCampaignStatus logs => FullDay logs san

/-- The campaign of the sample cell, as it is entered. -/
def enteredCampaign : Campaign := ⟨"auoapi1amdec10".toList, 1, some 100, some 1, some 1, some 1⟩

def enteredCampaigns : CampaignTable := ⟨[enteredCampaign], List.nodup_singleton _⟩

/-- A row for each hour of a day, above the threshold. -/
def fullLogs : LogTable where
  rows := (List.range 24).map fun hour =>
    ⟨15000, hour, some "auoapi1amdec10".toList, 11, none, none, 20, 5, none, some 10001, some 0, some 0, some 0, none⟩
  nodup := by decide +kernel

section
variable {reads : Literals} {campaigns after : CampaignTable} {operations : List Operation}

theorem single_perform {c : Campaign} {operation : Operation} (single : Single campaigns c)
    (plain : PlainNames reads campaigns) (isPlain : operation.Plain reads) :
    PlainNames reads (perform reads campaigns operation) ∧
      ∃ c', Single (perform reads campaigns operation) c' ∧ c' = { c with timestatus := c'.timestatus } ∧
        (c.timestatus = some 1 →
          (c'.timestatus = some 2 ∧ operation.Full c.san ∨ c'.timestatus = some 1 ∧ ¬ operation.Full c.san)) ∧
        (c.timestatus ≠ some 1 → c'.timestatus = c.timestatus) := by
  cases operation with
  | checkNewCamps cI =>
    exact ⟨plainNames_checkNewCamps plain isPlain, c, single_checkNewCamps single isPlain, rfl,
      fun mode => .inr ⟨mode, id⟩, fun _ => rfl⟩
  | updateCampaignStatus logs =>
    refine ⟨plainNames_updateCampaignStatus plain, _, single_updateCampaignStatus single plain isPlain, ?_, fun mode => ?_,
      fun other => ?_⟩
    · split <;> rfl
    · by_cases full : FullDay logs c.san
      · exact .inl ⟨by rw [if_pos ⟨mode, full⟩]; rfl, full⟩
      · exact .inr ⟨by rw [if_neg fun both => full both.2]; exact mode, full⟩
    · rw [if_neg fun both => other both.1]

theorem single_run {c : Campaign} (single : Single campaigns c) (plain : PlainNames reads campaigns)
    (arePlain : ∀ operation ∈ operations, operation.Plain reads)
    (run : Run (ofFunction (perform reads)) campaigns operations after) :
    ∃ c', Single after c' ∧ c' = { c with timestatus := c'.timestatus } ∧
      (c.timestatus = some 1 → c'.timestatus = some 2 ∧ (∃ operation ∈ operations, operation.Full c.san) ∨
        c'.timestatus = some 1 ∧ ∀ operation ∈ operations, ¬ operation.Full c.san) ∧
      (c.timestatus ≠ some 1 → c'.timestatus = c.timestatus) := by
  induction run generalizing c with
  | nil campaigns => exact ⟨c, single, rfl, fun mode => .inr ⟨mode, by simp⟩, fun _ => rfl⟩
  | @cons campaigns next after operation rest first _ ih =>
    obtain rfl : next = perform reads campaigns operation := first
    obtain ⟨plainNext, c₁, single₁, same₁, fromOne₁, other₁⟩ := single_perform single plain (arePlain _ List.mem_cons_self)
    obtain ⟨c₂, single₂, same₂, fromOne₂, other₂⟩ :=
      ih single₁ plainNext fun operation member => arePlain operation (List.mem_cons_of_mem _ member)
    have sameSan : c₁.san = c.san := by rw [same₁]
    refine ⟨c₂, single₂, by rw [same₂, same₁], fun mode => ?_, fun notOne => ?_⟩
    · simp only [List.mem_cons, exists_eq_or_imp, forall_eq_or_imp]
      rcases fromOne₁ mode with ⟨moved, full⟩ | ⟨stayed, notFull⟩
      · exact .inl ⟨(other₂ (by simp [moved])).trans moved, .inl full⟩
      · rcases fromOne₂ stayed with ⟨moved, later⟩ | ⟨stays, never⟩
        · exact .inl ⟨moved, .inr (sameSan ▸ later)⟩
        · exact .inr ⟨stays, notFull, sameSan ▸ never⟩
    · have same := other₁ notOne
      exact (other₂ (by rwa [same])).trans same

/-- No operation leads to mode 3. -/
theorem perform_below {operation : Operation} (below : ∀ c ∈ campaigns.rows, c.timestatus ≠ some 3) :
    ∀ c ∈ (perform reads campaigns operation).rows, c.timestatus ≠ some 3 := by
  intro c member
  cases operation with
  | checkNewCamps cI =>
    rcases mem_checkNewCamps member with old | ⟨listed, -, -, san, -, rfl⟩
    · exact below c old
    · simp [newCampaign]
  | updateCampaignStatus logs =>
    obtain ⟨old, isOld, rfl⟩ := updateCampaignStatus_rows.mp member
    split
    · simp [setTo]
    · exact below old isOld

/-- However the campaigns are checked, the estimator reads every cell as one
    without a history of its own. -/
theorem history_never_read (start : ∀ c ∈ campaigns.rows, c.timestatus ≠ some 3)
    (run : Run (ofFunction (perform reads)) campaigns operations after) {net : Network} (same : net.campaign = after.rows)
    (r : Rollups) (logs : List DowHourRow) (dow hour : Nat) (c : Cell) :
    qhatCell (getOptimizationData net r logs dow hour) c = (0, 0) := by
  have below := run.invariant (P := fun campaigns => ∀ c ∈ campaigns.rows, c.timestatus ≠ some 3)
    (fun _ before step => by cases step; exact perform_below before) start
  have none : (getOptimizationData net r logs dow hour).cellKNA.get? (lpInd c) = none := by
    apply SortedMap.get?_ofRows_none
    intro row member
    obtain ⟨-, -, isCampaign, -, -, -, -, mode⟩ := mem_loggedRows.mp (List.mem_filter.mp member).1
    exact absurd mode (below row.2 (same ▸ isCampaign))
  simp [qhatCell, none, LevelData.noNull_zero]

/-- The cell has logged impressions, its campaign moved to the hourly mode, and
    nothing of it is read. -/
theorem full_day_history_unread : ∃ net : Network,
    net.campaign = (perform some enteredCampaigns (.updateCampaignStatus fullLogs)).rows ∧
      LevelData.theCell ∈ cellRows net ∧
      qhatCell (getOptimizationData net noRollups oneLog.rows 5 3) LevelData.theCell = (0, 0) := by
  let moved := perform some enteredCampaigns (.updateCampaignStatus fullLogs)
  refine ⟨⟨moved.rows, LevelData.oneCell.media, LevelData.oneCell.cdoCells, moved.nodup, LevelData.oneCell.media_key,
    LevelData.oneCell.cdoCells_key⟩, rfl, by decide +kernel, ?_⟩
  have run : Run (ofFunction (perform some)) enteredCampaigns [.updateCampaignStatus fullLogs] moved := .cons rfl (.nil _)
  exact history_never_read (by decide) run rfl _ _ _ _ _

end

end Cdo.CampaignModes
