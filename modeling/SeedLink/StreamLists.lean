import SeedLink.Lib.Spacing
import SeedLink.Streams
import Mathlib.Data.List.ReduceOption

/-!
# Stream lists in both notations (`parse_streamlist`, `read_streamlist_file`)

A list of entries may be written in one text, its entries parted by commas, or in a file, one entry a line. What
either notation leaves to its writer is said as a relation between the entries and the text: blank entries or lines,
white space and, in a file, comments and the kind of line end. Whatever the layout, both readers return the streams
of the entries.
-/

namespace SeedLink

open Text

/-- An entry of a stream list: a station ID and its own selectors, `[]` when it has none. -/
structure StreamEntry where
  stationId : Text
  selectors : List Text
  word_stationId : Word stationId
  plain_stationId : ',' ∉ stationId ∧ ':' ∉ stationId ∧ '#' ∉ stationId
  word_selectors : ∀ sel ∈ selectors, Word sel
  plain_selectors : ∀ sel ∈ selectors, ',' ∉ sel ∧ '#' ∉ sel

namespace StreamEntry
variable (d : Option Text) (e : StreamEntry)

/-- The stream of an entry. -/
def stream : Stream :=
  { stationId := e.stationId,
    selectors := if e.selectors = [] then defaultSelectorList d else e.selectors }

/-- `ID:sel sel`, or `ID`. -/
def commaItem : Text :=
  if e.selectors = [] then e.stationId else e.stationId ++ ':' :: List.intercalate [' '] e.selectors

/-- `ID sel sel`. -/
def fileLine : Text := List.intercalate [' '] (e.stationId :: e.selectors)

end StreamEntry

/-! ### The layouts -/

/-- What may stand between two commas for an entry, or for none. -/
inductive CommaItem : Option StreamEntry → Text → Prop
  | blank {s : Text} (h : Blank s) : CommaItem none s
  | station {e : StreamEntry} {lead trail : Text} (hlead : Blank lead) (hsel : e.selectors = []) (htrail : Blank trail) :
    CommaItem (some e) (lead ++ (e.stationId ++ trail))
  | selected {e : StreamEntry} {lead mid t : Text} (hlead : Blank lead) (hmid : Blank mid) (hsel : e.selectors ≠ [])
    (ht : Spaced e.selectors t) : CommaItem (some e) (lead ++ (e.stationId ++ (mid ++ ':' :: t)))

/-- What may stand in a line for an entry, or for none. -/
inductive FileLine : Option StreamEntry → Text → Prop
  | blank {s comment : Text} (h : Blank s) (hc : ∀ c ∈ comment.head?, c = '#') : FileLine none (s ++ comment)
  | entry {e : StreamEntry} {s comment : Text} (h : Spaced (e.stationId :: e.selectors) s)
    (hc : ∀ c ∈ comment.head?, c = '#') : FileLine (some e) (s ++ comment)

/-- The text writes the entries, with commas. -/
def CommaList (entries : List StreamEntry) (text : Text) : Prop :=
  ∃ items parts, items.reduceOption = entries ∧ List.Forall₂ CommaItem items parts ∧ text = List.intercalate [','] parts

/-- The file's text writes the entries, one a line. -/
def LineList (entries : List StreamEntry) (content : Text) : Prop :=
  ∃ items lines eol, items.reduceOption = entries ∧ List.Forall₂ FileLine items lines ∧
    (∀ line ∈ lines, OneLine line) ∧ eol ∈ lineEnds ∧ content = List.intercalate eol lines

theorem forall₂_plain {R : Option StreamEntry → Text → Prop} {f : StreamEntry → Text} (h : ∀ e, R (some e) (f e))
    (entries : List StreamEntry) : List.Forall₂ R (entries.map some) (entries.map f) :=
  List.forall₂_map_left_iff.2 (List.forall₂_map_right_iff.2 (List.forall₂_same.2 fun e _ => h e))

/-- Every list of entries is written as it stands. -/
theorem commaList_plain (entries : List StreamEntry) :
    CommaList entries (List.intercalate [','] (entries.map StreamEntry.commaItem)) := by
  have hitem : ∀ e : StreamEntry, CommaItem (some e) e.commaItem := by
    intro e
    unfold StreamEntry.commaItem
    split
    · rename_i hsel
      have hplain := CommaItem.station blank_nil hsel blank_nil
      rwa [List.append_nil, List.nil_append] at hplain
    · rename_i hsel
      exact CommaItem.selected blank_nil blank_nil hsel (spaced_intercalate e.word_selectors)
  refine ⟨entries.map some, _, by simp [List.reduceOption], ?_, rfl⟩
  exact forall₂_plain hitem entries

theorem lineList_plain (entries : List StreamEntry) :
    LineList entries (List.intercalate ['\n'] (entries.map StreamEntry.fileLine)) := by
  have hwords : ∀ e : StreamEntry, ∀ w ∈ e.stationId :: e.selectors, Word w := fun e w hw =>
    (List.mem_cons.1 hw).elim (· ▸ e.word_stationId) (e.word_selectors w)
  have hline : ∀ e : StreamEntry, FileLine (some e) e.fileLine := fun e => by
    have hplain : FileLine (some e) (e.fileLine ++ []) := .entry (spaced_intercalate (hwords e)) nofun
    rwa [List.append_nil] at hplain
  refine ⟨entries.map some, _, ['\n'], by simp [List.reduceOption], ?_, fun line hline => ?_, List.mem_cons_self, rfl⟩
  · exact forall₂_plain hline entries
  · obtain ⟨e, -, rfl⟩ := List.mem_map.1 hline
    exact oneLine_intercalate (by decide) fun w hw => oneLine_of_noSpace (hwords e w hw).noSpace

section readers
variable {d : Option Text} {e : StreamEntry} {item : Option StreamEntry} {entries : List StreamEntry} {s : Text}

/-! ### One entry -/

theorem CommaItem.notMem_comma (h : CommaItem item s) : ',' ∉ s := by
  have hspace : isSpace ',' = false := by decide
  cases h with
  | blank h => exact h.notMem hspace
  | @station e lead trail hlead hsel htrail =>
    simp [hlead.notMem hspace, htrail.notMem hspace, e.plain_stationId.1]
  | @selected e lead mid t hlead hmid hsel ht =>
    have ht := ht.notMem hspace fun w hw => (e.plain_selectors w hw).1
    simp [hlead.notMem hspace, hmid.notMem hspace, e.plain_stationId.1, ht]

/-- An entry without a colon has the default selectors. -/
theorem parseStreamlistEntry_station {lead trail : Text} (hlead : Blank lead) (hsel : e.selectors = [])
    (htrail : Blank trail) : parseStreamlistEntry d (lead ++ (e.stationId ++ trail)) = some (e.stream d) := by
  have hpart : Text.partition ':' e.stationId = (e.stationId, false, []) := by
    simpa using partition_append (t := []) e.plain_stationId.2.1 (by simp)
  simp [parseStreamlistEntry, strip_word hlead e.word_stationId htrail, e.word_stationId.ne_nil, hpart,
    e.word_stationId.strip, StreamEntry.stream, hsel]

/-- What stands behind the first colon are the selectors; they may have colons of their own. -/
theorem parseStreamlistEntry_selected {lead mid t : Text} (hlead : Blank lead) (hmid : Blank mid)
    (hsel : e.selectors ≠ []) (ht : Spaced e.selectors t) :
    parseStreamlistEntry d (lead ++ (e.stationId ++ (mid ++ ':' :: t))) = some (e.stream d) := by
  have hstrip : strip (lead ++ (e.stationId ++ (mid ++ ':' :: t))) = (e.stationId ++ mid) ++ ':' :: rstrip t := by
    have hcut : e.stationId ++ (mid ++ ':' :: t) = (e.stationId ++ mid ++ [':']) ++ t := by simp
    rw [strip, lstrip_blank_append hlead, lstrip_word_append e.word_stationId, hcut, rstrip_append]
    · simp
    · simp only [List.getLast?_concat, Option.mem_def, Option.some.injEq, forall_eq']
      decide
  have hcolon : ':' ∉ e.stationId ++ mid := by
    simp [e.plain_stationId.2.1, hmid.notMem (c := ':') (by decide)]
  have hpart := partition_append (t := ':' :: rstrip t) hcolon (by simp)
  have hid : strip (e.stationId ++ mid) = e.stationId := by
    simpa using strip_word blank_nil e.word_stationId hmid
  simp only [parseStreamlistEntry, hstrip, hpart, hid, List.isEmpty_cons, List.tail_cons, ht.rstrip.splitWords,
    StreamEntry.stream, if_neg hsel]
  simp

theorem CommaItem.parse (h : CommaItem item s) :
    parseStreamlistEntry d s = item.map (StreamEntry.stream d) := by
  cases h with
  | blank h => simp [parseStreamlistEntry, h.strip]
  | station hlead hsel htrail => exact parseStreamlistEntry_station hlead hsel htrail
  | selected hlead hmid hsel ht => exact parseStreamlistEntry_selected hlead hmid hsel ht

/-- A line up to its comment. -/
theorem readStreamlistLine_comment {comment : Text} (hs : '#' ∉ s) (hc : ∀ c ∈ comment.head?, c = '#') :
    (s ++ comment).takeWhile (· ≠ '#') = s := by
  have hs : ∀ c ∈ s, decide (c ≠ '#') = true := fun c hc => by simpa using fun h : c = '#' => hs (h ▸ hc)
  rw [List.takeWhile_append_of_pos hs]
  cases comment with
  | nil => simp
  | cons c comment => simp [hc c rfl]

theorem FileLine.read (h : FileLine item s) :
    readStreamlistLine d s = item.map (StreamEntry.stream d) := by
  have hspace : isSpace '#' = false := by decide
  cases h with
  | @blank s comment h hc =>
    simp only [readStreamlistLine, readStreamlistLine_comment (h.notMem hspace) hc, h.strip]
    rfl
  | @entry e s comment h hc =>
    have hs : '#' ∉ s := h.notMem hspace fun w hw => by
      rcases List.mem_cons.1 hw with rfl | hw
      · exact e.plain_stationId.2.2
      · exact (e.plain_selectors w hw).2
    obtain ⟨rest, hrest, hsplit⟩ := h.splitWord1
    simp only [readStreamlistLine, readStreamlistLine_comment hs hc, hsplit]
    by_cases hsel : e.selectors = []
    · simp [hsel, StreamEntry.stream]
    · simp [hsel, StreamEntry.stream, hrest.splitWords]

/-! ### Lists -/

/-- A reader of single items reads a list of them. -/
theorem filterMap_of_forall₂ {R : Option StreamEntry → Text → Prop} {read : Text → Option Stream}
    (hR : ∀ item s, R item s → read s = item.map (StreamEntry.stream d)) {items : List (Option StreamEntry)}
    {parts : List Text} (h : List.Forall₂ R items parts) :
    parts.filterMap read = items.reduceOption.map (StreamEntry.stream d) := by
  induction h with
  | nil => rfl
  | @cons item s items parts hitem _ ih =>
    have hs := hR item s hitem
    cases item with
    | none => rw [List.filterMap_cons_none hs, ih, List.reduceOption_cons_of_none]
    | some e => rw [List.filterMap_cons_some hs, ih, List.reduceOption_cons_of_some, List.map_cons]

theorem CommaList.parse {text : Text} (h : CommaList entries text) :
    parseStreamlist text d = entries.map (StreamEntry.stream d) := by
  obtain ⟨items, parts, rfl, hitems, rfl⟩ := h
  have hcomma : ∀ s ∈ parts, ',' ∉ s := fun s hs => by
    obtain ⟨item, -, hitem⟩ := exists_of_forall₂ hitems.flip hs
    exact CommaItem.notMem_comma hitem
  rw [parseStreamlist, filterMap_splitOn_intercalate (by rfl) hcomma]
  exact filterMap_of_forall₂ (fun _ _ h => h.parse) hitems

theorem LineList.read {content : Text} (h : LineList entries content) :
    readStreamlistFile (universalNewlines content) d = entries.map (StreamEntry.stream d) := by
  obtain ⟨items, lines, eol, rfl, hitems, hlines, heol, rfl⟩ := h
  have hnewline : ∀ line ∈ lines, '\n' ∉ line := fun line hline hmem => (hlines line hline).ne_newline hmem rfl
  rw [readStreamlistFile, universalNewlines_intercalate heol hlines,
    filterMap_splitOn_intercalate (by rfl) hnewline]
  exact filterMap_of_forall₂ (fun _ _ h => h.read) hitems

/-- However the entries are written in either notation, both readers return their streams, in order. -/
theorem parseStreamlist_readStreamlistFile {text content : Text} (htext : CommaList entries text)
    (hcontent : LineList entries content) (d : Option Text) :
    parseStreamlist text d = entries.map (StreamEntry.stream d) ∧
      readStreamlistFile (universalNewlines content) d = entries.map (StreamEntry.stream d) :=
  ⟨htext.parse, hcontent.read⟩

/-- The two notations of a list are read alike. -/
theorem parseStreamlist_eq_readStreamlistFile (entries : List StreamEntry) (d : Option Text) :
    parseStreamlist (List.intercalate [','] (entries.map StreamEntry.commaItem)) d =
      readStreamlistFile (universalNewlines (List.intercalate ['\n'] (entries.map StreamEntry.fileLine))) d :=
  (commaList_plain entries).parse.trans (lineList_plain entries).read.symm

end readers

section example_lists

def konoEntry : StreamEntry where
  stationId := "IU_KONO".toList
  selectors := ["B_H_?:3".toList, "B_H_N".toList]
  word_stationId := by decide
  plain_stationId := by decide
  word_selectors := by decide
  plain_selectors := by decide

def wlfEntry : StreamEntry where
  stationId := "GE_WLF".toList
  selectors := []
  word_stationId := by decide
  plain_stationId := by decide
  word_selectors := by decide
  plain_selectors := by decide

/-- A selector with a colon, a blank entry, a comment line and a trailing comment. -/
theorem parseStreamlist_readStreamlistFile_kono :
    parseStreamlist "IU_KONO: B_H_?:3 B_H_N,, GE_WLF".toList (some "L_H_? ".toList) =
        [{ stationId := "IU_KONO".toList, selectors := ["B_H_?:3".toList, "B_H_N".toList] },
          { stationId := "GE_WLF".toList, selectors := ["L_H_?".toList] }] ∧
      readStreamlistFile (universalNewlines "# two\r\nIU_KONO B_H_?:3 B_H_N# one\r\nGE_WLF\r\n".toList)
          (some "L_H_? ".toList) =
        [{ stationId := "IU_KONO".toList, selectors := ["B_H_?:3".toList, "B_H_N".toList] },
          { stationId := "GE_WLF".toList, selectors := ["L_H_?".toList] }] := by
  have hsels : Spaced konoEntry.selectors ([' '] ++ ("B_H_?:3".toList ++ ([' '] ++ ("B_H_N".toList ++ [])))) :=
    .cons (by decide) (by decide) (.cons (by decide) (by decide) (.nil blank_nil) nofun) (by rintro c ⟨⟩; rfl)
  have htext : CommaList [konoEntry, wlfEntry] "IU_KONO: B_H_?:3 B_H_N,, GE_WLF".toList := by
    have hkono : CommaItem (some konoEntry) ([] ++ ("IU_KONO".toList ++ ([] ++ ':' :: " B_H_?:3 B_H_N".toList))) :=
      .selected blank_nil blank_nil (by decide) hsels
    have hwlf : CommaItem (some wlfEntry) ([' '] ++ ("GE_WLF".toList ++ [])) := .station (by decide) rfl blank_nil
    exact ⟨[some konoEntry, none, some wlfEntry], _, rfl,
      .cons hkono (.cons (.blank blank_nil) (.cons hwlf .nil)), rfl⟩
  have hcontent : LineList [konoEntry, wlfEntry] "# two\r\nIU_KONO B_H_?:3 B_H_N# one\r\nGE_WLF\r\n".toList := by
    have htwo : FileLine none ([] ++ "# two".toList) := .blank blank_nil (by rintro c ⟨⟩; rfl)
    have hkono : FileLine (some konoEntry) (([] ++ ("IU_KONO".toList ++ " B_H_?:3 B_H_N".toList)) ++ "# one".toList) :=
      .entry (.cons blank_nil konoEntry.word_stationId hsels (by rintro c ⟨⟩; rfl)) (by rintro c ⟨⟩; rfl)
    have hwlf : FileLine (some wlfEntry) (([] ++ ("GE_WLF".toList ++ [])) ++ []) :=
      .entry (.cons blank_nil wlfEntry.word_stationId (.nil blank_nil) nofun) nofun
    have hend : FileLine none ([] ++ []) := .blank blank_nil nofun
    exact ⟨[none, some konoEntry, some wlfEntry, none], _, ['\r', '\n'], rfl,
      .cons htwo (.cons hkono (.cons hwlf (.cons hend .nil))), by decide, by decide, rfl⟩
  exact parseStreamlist_readStreamlistFile htext hcontent (some "L_H_? ".toList)

end example_lists

end SeedLink
