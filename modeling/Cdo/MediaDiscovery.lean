import Cdo.CampaignModes
import Cdo.ExactRollups

/-!
The discovery of campaigns and ads (`checkNewMedia` of `mediaOps.pm`, and
`downstreamImport` of `campConfig.pm`, which calls it after `checkNewCamps`). Over
any number of imports the row of an ad is that of its first listing with a known
size, and it never changes (`ad_stored_iff`). A campaign with exactly one ad is
parsed into something that is no list, and the script dies there: the campaigns
from that one on are not reached, and an ad that is only listed alone is never
entered, so that its cells are never optimised (`lone_ad_left_out`). What is
entered fits the keys of the roll-up tables, whose levels with sizes add up
exactly where all logged ads were found (`discovered_sizes_add_up_iff`).
-/
namespace Cdo.MediaDiscovery
open Cdo.Text Cdo.Query Cdo.Tables Cdo.Logs Cdo.Transitions Cdo.CampaignModes

/-! ### The import of ads -/

abbrev AdTable := KeyedTable Media.adid

/-- The ads of a campaign, as the parser gives them. A single element is no list. -/
def mediaArray (c : ApiCampaign) : Option (List ApiMedia) :=
  match c.mediaList with
  | [_] => none
  | mI => some mI

/-- The row that is inserted for an ad; `active` and `adgroup` have their defaults. -/
def newMedia (san : Str) (size : Size) (m : ApiMedia) : Media where
  adid := m.id
  size := size
  san := san
  active := some 1
  adgroup := 1

/-- The ads that are known before the first statement. -/
def getMedia (media : AdTable) : SortedMap Str Media := SortedMap.ofRows (fun m => intText m.adid) id media.rows

/-- The row for an ad of a campaign, if its size is known and its statement is one. -/
def mediaRow (reads : Literals) (c : ApiCampaign) (m : ApiMedia) : Option Media :=
  match convertSizeCode m.sizeCode, reads (accountName c) with
  | some size, some san => some (newMedia san size m)
  | _, _ => none

/-- A turn of the loop over the ads of a campaign. -/
def checkMedia (reads : Literals) (mediaRef : SortedMap Str Media) (c : ApiCampaign) (media : AdTable) (m : ApiMedia) :
    AdTable :=
  if (mediaRef.get? (intText m.id)).isNone then media.insertIgnore (mediaRow reads c m).toList else media

/-- The loop over the campaigns, and whether it came to its end. -/
def checkCampaigns (reads : Literals) (mediaRef : SortedMap Str Media) : List ApiCampaign → AdTable → AdTable × Bool
  | [], media => (media, true)
  | c :: rest, media =>
    match mediaArray c with
    | none => (media, false)
    | some mI => checkCampaigns reads mediaRef rest (mI.foldl (checkMedia reads mediaRef c) media)

def checkNewMedia (reads : Literals) (cI : List ApiCampaign) (media : AdTable) : AdTable × Bool :=
  checkCampaigns reads (getMedia media) cI media

/-- The tables of campaigns and ads. -/
structure Catalog where
  campaigns : CampaignTable
  media : AdTable

/-- The import; the script may die in its second step. -/
def downstreamImport (reads : Literals) (catalog : Catalog) (cI : List ApiCampaign) : Catalog where
  campaigns := checkNewCamps reads cI catalog.campaigns
  media := (checkNewMedia reads cI catalog.media).1

/-! ### What an import finds -/

/-- The campaigns before the first one with exactly one ad. -/
def reached (cI : List ApiCampaign) : List ApiCampaign := cI.takeWhile fun c => (mediaArray c).isSome

/-- The rows for the ads that are reached, known ones or not. -/
def found (reads : Literals) (cI : List ApiCampaign) : List Media :=
  (reached cI).flatMap fun c => c.mediaList.filterMap (mediaRow reads c)

theorem mediaArray_some {c : ApiCampaign} {mI : List ApiMedia} (isList : mediaArray c = some mI) : mI = c.mediaList := by
  rw [mediaArray] at isList
  split at isList
  · cases isList
  · exact (Option.some.inj isList).symm

theorem mediaArray_none {c : ApiCampaign} : mediaArray c = none ↔ c.mediaList.length = 1 := by
  rw [mediaArray]
  split
  · rename_i single
    simp [single]
  · rename_i other
    apply iff_of_false (by simp)
    intro one
    obtain ⟨m, single⟩ := List.length_eq_one_iff.mp one
    exact other m single

section
variable {reads : Literals} {known media : AdTable}

theorem mediaRow_adid {c : ApiCampaign} {m : ApiMedia} {row : Media} (isRow : mediaRow reads c m = some row) :
    row.adid = m.id := by
  rw [mediaRow] at isRow
  split at isRow
  · obtain rfl := Option.some.inj isRow
    rfl
  · cases isRow

/-- An ad that was known before has a row by now, so that to pass over it is to
    insert it in vain. -/
theorem checkMedia_eq {c : ApiCampaign} {m : ApiMedia} (later : ∀ id, known.Has id → media.Has id) :
    checkMedia reads (getMedia known) c media m = media.insertIgnore (mediaRow reads c m).toList := by
  rw [checkMedia]
  split
  · rfl
  · rename_i isKnown
    have has : media.Has m.id := by
      obtain ⟨row, isRow⟩ := Option.ne_none_iff_exists'.mp (by simpa using isKnown)
      obtain ⟨old, member, same, -⟩ := SortedMap.get?_ofRows_some isRow
      exact later _ (KeyedTable.has_iff.mpr ⟨old, member, intText_injective same⟩)
    cases isRow : mediaRow reads c m with
    | none => rfl
    | some row =>
      have taken : media.Has row.adid := (mediaRow_adid isRow).symm ▸ has
      simp [KeyedTable.insertIgnore, taken]

theorem has_insertIgnore_of_has {rows : List Media} {id : Int} (has : media.Has id) : (media.insertIgnore rows).Has id :=
  KeyedTable.has_insertIgnore.mpr (.inl has)

theorem checkMedias_eq {c : ApiCampaign} (mI : List ApiMedia) (later : ∀ id, known.Has id → media.Has id) :
    mI.foldl (checkMedia reads (getMedia known) c) media = media.insertIgnore (mI.filterMap (mediaRow reads c)) := by
  induction mI generalizing media with
  | nil => rfl
  | cons m rest ih =>
    rw [List.foldl_cons, checkMedia_eq later, ih fun id has => has_insertIgnore_of_has (later id has),
      ← KeyedTable.insertIgnore_append]
    congr 1
    cases isRow : mediaRow reads c m <;> simp [isRow]

theorem checkCampaigns_eq (cI : List ApiCampaign) (later : ∀ id, known.Has id → media.Has id) :
    (checkCampaigns reads (getMedia known) cI media).1 = media.insertIgnore (found reads cI) := by
  induction cI generalizing media with
  | nil => rfl
  | cons c rest ih =>
    cases isList : mediaArray c with
    | none => simp [checkCampaigns, isList, found, reached, KeyedTable.insertIgnore]
    | some mI =>
      obtain rfl := mediaArray_some isList
      simp only [checkCampaigns, isList]
      rw [checkMedias_eq _ later, ih fun id has => has_insertIgnore_of_has (later id has),
        ← KeyedTable.insertIgnore_append]
      simp [found, reached, isList]

theorem checkNewMedia_eq (cI : List ApiCampaign) : (checkNewMedia reads cI media).1 = media.insertIgnore (found reads cI) :=
  checkCampaigns_eq cI fun _ has => has

end

/-! ### Runs of imports -/

/-- Two campaigns with two ads each, and between them one with a single ad. -/
def listing : List ApiCampaign :=
  [⟨1, "auo".toList, [⟨11, "300250".toList⟩, ⟨12, "72890".toList⟩]⟩, ⟨2, "chp".toList, [⟨13, "160600".toList⟩]⟩,
    ⟨3, "abc".toList, [⟨14, "300600".toList⟩, ⟨15, "46860".toList⟩]⟩]

def nothingKnown : Catalog := ⟨.empty, .empty⟩

section
variable {reads : Literals} {catalog after : Catalog} {lists : List (List ApiCampaign)}

/-- A run inserts what all its imports find, in order. -/
theorem media_run (run : Run (ofFunction (downstreamImport reads)) catalog lists after) :
    after.media = catalog.media.insertIgnore (lists.flatMap (found reads)) := by
  induction run with
  | nil catalog => rfl
  | @cons catalog next after cI rest first _ ih =>
    obtain rfl : next = downstreamImport reads catalog cI := first
    rw [ih, downstreamImport, checkNewMedia_eq, ← KeyedTable.insertIgnore_append, List.flatMap_cons]

/-- An ad was there before a run or is found by one of its imports. -/
theorem mem_run (run : Run (ofFunction (downstreamImport reads)) catalog lists after) {row : Media}
    (member : row ∈ after.media.rows) : row ∈ catalog.media.rows ∨ ∃ cI ∈ lists, row ∈ found reads cI := by
  rw [media_run run] at member
  exact (KeyedTable.mem_insertIgnore member).imp_right List.mem_flatMap.mp

/-- The rows of ads after a run are those before it and, for an ad that had none,
    the one of its first listing that is reached with a known size. -/
theorem ad_stored_iff (run : Run (ofFunction (downstreamImport reads)) catalog lists after) (row : Media) :
    row ∈ after.media.rows ↔ row ∈ catalog.media.rows ∨ ¬ catalog.media.Has row.adid ∧
      ∃ earlier later, lists.flatMap (found reads) = earlier ++ row :: later ∧ ∀ other ∈ earlier, other.adid ≠ row.adid := by
  have isRow : row ∈ after.media.rows ↔ after.media.get? row.adid = some row := by
    rw [KeyedTable.get?_eq_some, and_iff_left rfl]
  rw [isRow, media_run run, KeyedTable.get?_insertIgnore]
  cases before : catalog.media.get? row.adid with
  | some old =>
    obtain ⟨member, same⟩ := KeyedTable.get?_eq_some.mp before
    have has : catalog.media.Has row.adid := KeyedTable.has_iff.mpr ⟨old, member, same⟩
    rw [Option.some_or, Option.some.injEq]
    constructor
    · rintro rfl
      exact .inl member
    · rintro (isOld | ⟨free, -⟩)
      · exact catalog.media.eq_of_key member isOld same
      · exact absurd has free
  | none =>
    have free := KeyedTable.get?_eq_none.mp before
    rw [Option.none_or, List.find?_eq_some_iff_append]
    constructor
    · rintro ⟨-, earlier, later, split, none⟩
      exact .inr ⟨free, earlier, later, split, fun other member => by simpa using none other member⟩
    · rintro (isOld | ⟨-, earlier, later, split, none⟩)
      · exact absurd (KeyedTable.has_iff.mpr ⟨row, isOld, rfl⟩) free
      · exact ⟨by simp, earlier, later, split, fun other member => by simpa using none other member⟩

theorem listed_ads_stored :
    ⟨12, ⟨"728x90".toList, by decide⟩, "auo".toList, some 1, 1⟩ ∈
      (downstreamImport some nothingKnown listing).media.rows := by
  have run : Run (ofFunction (downstreamImport some)) nothingKnown [listing] _ := .cons rfl (.nil _)
  refine (ad_stored_iff run _).mpr (.inr ⟨by decide,
    [newMedia "auo".toList ⟨"300x250".toList, by decide⟩ ⟨11, "300250".toList⟩], [], ?_, ?_⟩)
  · decide +kernel
  · decide

/-- What is found is an ad of a campaign with another number of ads than one, which
    has a known size. -/
theorem mem_found {cI : List ApiCampaign} {row : Media} (member : row ∈ found reads cI) :
    ∃ c ∈ cI, c.mediaList.length ≠ 1 ∧ ∃ m ∈ c.mediaList, m.id = row.adid ∧ convertSizeCode m.sizeCode = some row.size ∧
      reads (accountName c) = some row.san ∧ row.adgroup = 1 := by
  obtain ⟨c, isReached, isRow⟩ := List.mem_flatMap.mp member
  obtain ⟨m, isMedia, made⟩ := List.mem_filterMap.mp isRow
  have isList := List.mem_takeWhile_imp (p := fun c => (mediaArray c).isSome) isReached
  refine ⟨c, (List.takeWhile_prefix _).subset isReached, ?_, m, isMedia, (mediaRow_adid made).symm, ?_⟩
  · intro one
    rw [mediaArray_none.mpr one] at isList
    cases isList
  · rw [mediaRow] at made
    split at made
    · rename_i size san isSize isSan
      obtain rfl := Option.some.inj made
      exact ⟨isSize, isSan, rfl⟩
    · cases made

/-- An ad that is only ever listed as the single ad of its campaign is not
    entered: none of its cells is optimised, and its logs are in no roll-up with a
    size. -/
theorem lone_ad_left_out (run : Run (ofFunction (downstreamImport reads)) catalog lists after) {id : Int}
    (unknown : ¬ catalog.media.Has id)
    (lone : ∀ cI ∈ lists, ∀ c ∈ cI, ∀ m ∈ c.mediaList, m.id = id → c.mediaList.length = 1) :
    ¬ after.media.Has id ∧
      (∀ net : Network, net.media = after.media.rows → ∀ cell ∈ cellRows net, cell.adid ≠ id) ∧
      ∀ (media : MediaTable) (logs : LogTable), media.rows.map MediaRow.adid = after.media.rows.map Media.adid →
        ∀ pair ∈ withMedia logs media, pair.1.adid ≠ id := by
  have absent : ¬ after.media.Has id := by
    intro has
    obtain ⟨row, member, rfl⟩ := KeyedTable.has_iff.mp has
    rcases mem_run run member with old | ⟨cI, isList, inList⟩
    · exact unknown (KeyedTable.has_iff.mpr ⟨row, old, rfl⟩)
    · obtain ⟨c, isCampaign, several, m, isMedia, same, -⟩ := mem_found inList
      exact several (lone cI isList c isCampaign m isMedia same)
  refine ⟨absent, fun net isMedia cell member same => ?_, fun media logs keys pair member same => ?_⟩
  · obtain ⟨cdo, -, m, inMedia, c, -, ad, -, -, -, -, rfl⟩ := mem_cellRows.mp member
    rw [isMedia] at inMedia
    exact absent (KeyedTable.has_iff.mpr ⟨m, inMedia, ad.symm.trans same⟩)
  · obtain ⟨-, inMedia, joined⟩ := mem_join.mp member
    have isKey : pair.2.adid ∈ after.media.rows.map Media.adid := keys ▸ List.mem_map_of_mem inMedia
    have ad : pair.1.adid = pair.2.adid := eq_of_beq joined
    exact absent (same ▸ ad ▸ isKey)

theorem single_ad_left_out : ¬ (downstreamImport some nothingKnown listing).media.Has 13 := by
  have run : Run (ofFunction (downstreamImport some)) nothingKnown [listing] _ := .cons rfl (.nil _)
  have alone : ∀ cI ∈ [listing], ∀ c ∈ cI, ∀ m ∈ c.mediaList, m.id = 13 → c.mediaList.length = 1 := by decide +kernel
  exact (lone_ad_left_out run (by decide) alone).1

/-! ### Roll-ups over discovered ads -/

/-- The ads as the aggregations read them. -/
def rollupMedia (media : AdTable) : MediaTable where
  rows := media.rows.map fun m => ⟨m.adid, some m.size.text, some m.adgroup⟩
  nodup := by
    rw [List.map_map]
    exact media.nodup

theorem has_rollupMedia {media : AdTable} {id : Int} : (rollupMedia media).Has id ↔ media.Has id := by
  simp [KeyedTable.Has, rollupMedia]

theorem short_ite {p : Prop} [Decidable p] {size : Size} {others : Option Size} (short : size.text.length ≤ 10)
    (rest : ∀ other ∈ others, other.text.length ≤ 10) :
    ∀ other ∈ (if p then some size else others), other.text.length ≤ 10 := by
  split
  · intro other isSize
    cases isSize
    exact short
  · exact rest

theorem length_convertSizeCode (code : Str) : ∀ size ∈ convertSizeCode code, size.text.length ≤ 10 := by
  unfold convertSizeCode
  repeat refine short_ite (by decide) ?_
  intro size isSize
  cases isSize

/-- Whatever is discovered fits the columns and keys of the roll-up tables. -/
theorem sized_discovered (fits : ∀ m ∈ catalog.media.rows, m.size.text.length ≤ 10)
    (run : Run (ofFunction (downstreamImport reads)) catalog lists after) :
    ExactRollups.Sized (rollupMedia after.media) := by
  have short : ∀ m ∈ after.media.rows, m.size.text.length ≤ 10 := by
    intro m member
    rcases mem_run run member with old | ⟨cI, -, inList⟩
    · exact fits m old
    · obtain ⟨-, -, -, ad, -, -, isSize, -⟩ := mem_found inList
      exact length_convertSizeCode ad.sizeCode _ isSize
  constructor
  · rintro row member
    obtain ⟨m, inMedia, rfl⟩ := List.mem_map.mp member
    exact ⟨m.size.text, rfl, short m inMedia⟩
  · rintro row member
    obtain ⟨m, -, rfl⟩ := List.mem_map.mp member
    exact Option.some_ne_none _

/-- After any run of imports and the roll-up of a day, the sizes add up to a site
    and segment exactly if all ads that were logged there were found. -/
theorem discovered_sizes_add_up_iff (empty : catalog.media.rows = [])
    (run : Run (ofFunction (downstreamImport reads)) catalog lists after) (logs : LogTable) (tables : ByHour.HourTables)
    (date : Date) (hour : Nat) (siteid segmentid : Int) :
    RollupLevels.SizesAddUp (ByHour.byHour logs (rollupMedia after.media) date date 1 tables) date hour siteid segmentid ↔
      ∀ row ∈ logs.rows, row.date = date → row.hour = hour → row.siteid = siteid → row.segmentid = segmentid →
        ∃ cI ∈ lists, ∃ m ∈ found reads cI, m.adid = row.adid := by
  have sized := sized_discovered (fun m member => by rw [empty] at member; cases member) run
  have apart : RollupLevels.SizesApart (rollupMedia after.media) := by
    intro m member m' member' same
    rw [ExactRollups.size_stored sized member, ExactRollups.size_stored sized member', same]
  have has : ∀ id, (rollupMedia after.media).Has id ↔ ∃ cI ∈ lists, ∃ m ∈ found reads cI, m.adid = id := by
    intro id
    have none : ¬ catalog.media.Has id := by simp [KeyedTable.Has, empty]
    rw [has_rollupMedia, media_run run, KeyedTable.has_insertIgnore, or_iff_right none]
    simp only [List.mem_flatMap]
    constructor
    · rintro ⟨m, ⟨cI, isList, isFound⟩, same⟩
      exact ⟨cI, isList, m, isFound, same⟩
    · rintro ⟨cI, isList, m, isFound, same⟩
      exact ⟨m, ⟨cI, isList, isFound⟩, same⟩
  rw [RollupLevels.sizes_add_up_iff apart]
  simp only [has]

theorem listed_sizes_add_up :
    RollupLevels.SizesAddUp (ByHour.byHour RollupLevels.twoAds
      (rollupMedia (downstreamImport some nothingKnown listing).media) 15000 15000 1 RollupLevels.noTables) 15000 3 20 5 := by
  have run : Run (ofFunction (downstreamImport some)) nothingKnown [listing] _ := .cons rfl (.nil _)
  have allFound : ∀ row ∈ RollupLevels.twoAds.rows, ∃ cI ∈ [listing], ∃ m ∈ found some cI, m.adid = row.adid := by
    decide +kernel
  exact (discovered_sizes_add_up_iff rfl run _ _ _ _ _ _).mpr fun row member _ _ _ _ => allFound row member

/-- The ads are those of entered campaigns, none of which a run has switched on. -/
theorem ads_have_campaigns (names : ∀ cI ∈ lists, ∀ c ∈ cI, reads (accountName c) = some (accountName c))
    (start : ∀ m ∈ catalog.media.rows, ∃ c ∈ catalog.campaigns.rows, c.san = m.san)
    (run : Run (ofFunction (downstreamImport reads)) catalog lists after) :
    (∀ m ∈ after.media.rows, ∃ c ∈ after.campaigns.rows, c.san = m.san) ∧
      ∀ c ∈ after.campaigns.rows, c.usepoe = some 1 → c ∈ catalog.campaigns.rows := by
  refine run.invariant (P := fun reached : Catalog =>
    (∀ m ∈ reached.media.rows, ∃ c ∈ reached.campaigns.rows, c.san = m.san) ∧
    ∀ c ∈ reached.campaigns.rows, c.usepoe = some 1 → c ∈ catalog.campaigns.rows) ?_ ⟨start, fun c member _ => member⟩
  rintro reached cI next isList ⟨accounts, switched⟩ rfl
  refine ⟨fun m member => ?_, fun c member used => ?_⟩
  · rw [downstreamImport, checkNewMedia_eq] at member
    rcases KeyedTable.mem_insertIgnore member with old | isFound
    · obtain ⟨c, isCampaign, same⟩ := accounts m old
      exact ⟨c, kept_checkNewCamps isCampaign, same⟩
    · obtain ⟨c, listed, -, ad, -, -, -, isSan, -⟩ := mem_found isFound
      have plain := names cI isList c listed
      obtain ⟨row, entered, same⟩ := account_checkNewCamps listed plain
      exact ⟨row, entered, same.trans (Option.some.inj (plain.symm.trans isSan))⟩
  · rcases mem_checkNewCamps member with old | ⟨listed, -, -, san, -, rfl⟩
    · exact switched c old used
    · cases used

theorem listed_ads_have_campaigns :
    (∃ c ∈ (downstreamImport some nothingKnown listing).campaigns.rows, c.san = "auo".toList) ∧
      ¬ ∃ c ∈ (downstreamImport some nothingKnown listing).campaigns.rows, c.usepoe = some 1 := by
  have run : Run (ofFunction (downstreamImport some)) nothingKnown [listing] _ := .cons rfl (.nil _)
  obtain ⟨owned, switched⟩ := ads_have_campaigns (fun _ _ _ _ => rfl) (fun _ member => absurd member List.not_mem_nil) run
  refine ⟨owned ⟨12, ⟨"728x90".toList, by decide⟩, "auo".toList, some 1, 1⟩ (by decide +kernel), ?_⟩
  rintro ⟨c, member, used⟩
  exact absurd (switched c member used) List.not_mem_nil

end

end Cdo.MediaDiscovery
