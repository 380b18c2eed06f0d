import SeedLink.Lib.Unicode
import SeedLink.Mseed
import Mathlib.Data.List.Sort

/-!
# Stream selection (`streams.py`)

Streams and the station-ID patterns they match, selector conversion, stream lists and the order
in which streams are sent.
-/

namespace SeedLink

structure Stream where
  stationId : Text
  selectors : List Text := []
  seqnum : Option Int := none
  allData : Bool := false
  timestamp : Option Text := none
  pendingPacket : Option SeedLinkPacket := none
  deriving DecidableEq, Repr

/-! ### Patterns (`fnmatch.translate`) -/

/-- One element of a translated pattern. -/
inductive Glob
  | star
  | any
  | lit (c : Char)
  | cls (negated : Bool) (ranges : List (Char × Char))
  deriving DecidableEq, Repr

namespace Glob

/-- The text between the brackets of a class and what follows it, from behind the opening bracket;
a closing bracket right behind that (or behind `!`) belongs to the class. -/
def splitClass (rest : Text) : Option (Text × Text) :=
  let (lead, r) := match rest with | '!' :: r => (['!'], r) | r => ([], r)
  let (lead, r) := match r with | ']' :: r => (lead ++ [']'], r) | r => (lead, r)
  match r.dropWhile (· ≠ ']') with
  | [] => none
  | _ :: after => some (lead ++ r.takeWhile (· ≠ ']'), after)

/-- Cuts a class at its range hyphens, looking for the next one from place `k` on. -/
def chunks (fuel k : Nat) (body : Text) : List Text :=
  match fuel with
  | 0 => [body]
  | fuel + 1 =>
    match (body.drop k).idxOf? '-' with
    | none => [body]
    | some i => body.take (k + i) :: chunks fuel 2 (body.drop (k + i + 1))

/-- An empty last chunk is a hyphen that ends the class. -/
def closeChunks : List Text → List Text
  | [] => []
  | [c] => [c]
  | [c, []] => [c ++ ['-']]
  | c :: cs => c :: closeChunks cs

/-- Joins chunks whose range is empty: both its end points go. -/
def mergeChunks : List Text → List Text
  | [] => []
  | c :: cs =>
    match c.getLast?, mergeChunks cs with
    | some lo, (hi :: tail) :: rest =>
      if hi < lo then (c.dropLast ++ tail) :: rest else c :: (hi :: tail) :: rest
    | _, rest => c :: rest

/-- The ranges of the merged chunks: each character alone, and from the last of one chunk to the
first of the next. -/
def chunkRanges : List Text → List (Char × Char)
  | [] => []
  | c :: cs =>
    c.map (fun x => (x, x)) ++
      (match c.getLast?, cs with
        | some lo, (hi :: _) :: _ => [(lo, hi)]
        | _, _ => []) ++ chunkRanges cs

/-- The chunks of a class, without the ranges that are empty. -/
def classChunks (body : Text) : List Text := mergeChunks (closeChunks (chunks body.length 1 body))

/-- A class from the text between its brackets. A `!` that comes first only because the range before it is
empty negates the class too, and a hyphen right behind it then stands for itself. -/
def ofClass : Text → Glob
  | '!' :: body => .cls true (chunkRanges (classChunks body))
  | stuff =>
    match classChunks stuff with
    | ['!'] :: c :: cs => .cls true (('-', '-') :: chunkRanges (c :: cs))
    | ('!' :: c) :: cs => .cls true (chunkRanges (c :: cs))
    | cs => .cls false (chunkRanges cs)

def translate (fuel : Nat) (pattern : Text) : List Glob :=
  match fuel, pattern with
  | 0, _ | _, [] => []
  | fuel + 1, '*' :: rest => .star :: translate fuel rest
  | fuel + 1, '?' :: rest => .any :: translate fuel rest
  | fuel + 1, '[' :: rest =>
    match splitClass rest with
    | none => .lit '[' :: translate fuel rest
    | some (stuff, after) => ofClass stuff :: translate fuel after
  | fuel + 1, c :: rest => .lit c :: translate fuel rest

/-- Whether the translated pattern matches the whole text. -/
def accepts : List Glob → Text → Bool
  | [], s => s.isEmpty
  | .star :: g, s => s.tails.any (accepts g)
  | .any :: g, _ :: s => accepts g s
  | .lit c :: g, c' :: s => c = c' && accepts g s
  | .cls negated ranges :: g, c :: s =>
    (ranges.any (fun r => r.1 ≤ c && c ≤ r.2) != negated) && accepts g s
  | _, [] => false

end Glob

/-- Whether a station ID pattern has a wildcard. -/
def isWildcard (pattern : Text) : Bool := pattern.any fun c => c = '*' || c = '?' || c = '['

namespace Stream

/-- `Stream.matches`. -/
def matchesId (s : Stream) (stationId : Text) : Bool :=
  if isWildcard s.stationId then
    Glob.accepts (Glob.translate s.stationId.length s.stationId) stationId
  else stationId = s.stationId

variable [Pymseed]

/-- `resolve_timestamp`: a pending packet's start time, when its record parses, becomes the
timestamp. -/
def resolveTimestamp (s : Stream) : Stream :=
  match s.pendingPacket with
  | none => s
  | some pkt =>
    match pkt.parsed with
    | .ok record =>
      { s with pendingPacket := none, timestamp := some (Pymseed.starttimeStr record) }
    | .error _ => { s with pendingPacket := none }

end Stream

/-! ### Selectors -/

section selectors
variable [Unicode]

def v3ToV4Selector (selector : Text) : Option Text :=
  let emptylocation := selector.head? = some '-'
  let s := selector.dropWhile (· = '-')
  let (streamid, sep, rest) := Text.partition '.' s
  let typeSuffix := if sep then '.' :: rest else []
  if streamid.isEmpty || !streamid.all (fun c => Unicode.isAlnum c || c = '?' || c = '*') then none
  else
    match streamid with
    | [a, b, c] =>
      some ((if emptylocation then [] else ['*']) ++ ['_', a, '_', b, '_', c] ++ typeSuffix)
    | [a, b, c, d] => some ([a, '_', b, '_', c, '_', d] ++ typeSuffix)
    | [a, b, c, d, e] => some ([a, b, '_', c, '_', d, '_', e] ++ typeSuffix)
    | _ => none

end selectors

def v4ToV3Selector (selector : Text) : Option Text :=
  let (streamid, sep, rest) := Text.partition '.' selector
  let typeSuffix := if sep then '.' :: rest else []
  let convert (location band source subsource : Text) : Option Text :=
    if band.length ≠ 1 ∨ source.length ≠ 1 ∨ subsource.length ≠ 1 ∨ location.length > 2 then none
    else
      let channel := band ++ source ++ subsource
      if location = "*".toList then some (channel ++ typeSuffix)
      else if location = [] then some ("--".toList ++ channel ++ typeSuffix)
      else some (location ++ channel ++ typeSuffix)
  match streamid.splitOn '_' with
  | [location, band, source, subsource] => convert location band source subsource
  | [band, source, subsource] => convert "*".toList band source subsource
  | _ => none

/-! ### Stream lists -/

/-- The selectors of an entry without its own. -/
def defaultSelectorList (defaultSelectors : Option Text) : List Text :=
  match defaultSelectors with
  | none => []
  | some d => Text.splitWords d

/-- One entry of a stream list, `none` for a blank one. -/
def parseStreamlistEntry (defaultSelectors : Option Text) (entry : Text) : Option Stream :=
  let entry := Text.strip entry
  if entry.isEmpty then none
  else
    let (stationId, sep, selectorStr) := Text.partition ':' entry
    let selectors := if sep then Text.splitWords selectorStr else defaultSelectorList defaultSelectors
    some { stationId := Text.strip stationId, selectors }

def parseStreamlist (text : Text) (defaultSelectors : Option Text) : List Stream :=
  (text.splitOn ',').filterMap (parseStreamlistEntry defaultSelectors)

/-- One line of a stream-list file, `none` for a blank one or a comment. -/
def readStreamlistLine (defaultSelectors : Option Text) (line : Text) : Option Stream :=
  let line := Text.strip (line.takeWhile (· ≠ '#'))
  match Text.splitWord1 line with
  | [] => none
  | [stationId] => some { stationId, selectors := defaultSelectorList defaultSelectors }
  | stationId :: selectorStr :: _ => some { stationId, selectors := Text.splitWords selectorStr }

/-- `read_streamlist_file` on the text of the file. -/
def readStreamlistFile (content : Text) (defaultSelectors : Option Text) : List Stream :=
  (content.splitOn '\n').filterMap (readStreamlistLine defaultSelectors)

/-! ### The sending order -/

def sortRank (stationId : Text) : Nat :=
  if stationId.contains '*' then 2 else if stationId.contains '?' then 1 else 0

/-- `sort_key(a) <= sort_key(b)`. -/
def sortLe (a b : Text) : Prop :=
  sortRank a < sortRank b ∨ (sortRank a = sortRank b ∧ ¬ b < a)

instance : DecidableRel sortLe := fun a b => by unfold sortLe; infer_instance

/-- Sorts things that carry a station ID. -/
def sortByStation {α : Type} (stationId : α → Text) (l : List α) : List α :=
  l.insertionSort fun a b => sortLe (stationId a) (stationId b)

def sortStreams (streams : List Stream) : List Stream := sortByStation (·.stationId) streams

theorem mem_sortByStation {α : Type} {stationId : α → Text} {l : List α} {a : α} :
    a ∈ sortByStation stationId l ↔ a ∈ l :=
  List.mem_insertionSort _

theorem perm_sortByStation {α : Type} (stationId : α → Text) (l : List α) :
    (sortByStation stationId l).Perm l :=
  List.perm_insertionSort _ l

/-! ### Lists side by side -/

theorem exists_of_forall₂ {α β : Type} {R : α → β → Prop} {l : List α} {l' : List β} (h : List.Forall₂ R l l')
    {a : α} (ha : a ∈ l) : ∃ b ∈ l', R a b := by
  induction h with
  | nil => cases ha
  | cons hab _ ih =>
    rcases List.mem_cons.1 ha with rfl | ha
    · exact ⟨_, List.mem_cons_self, hab⟩
    · obtain ⟨b, hb, hr⟩ := ih ha
      exact ⟨b, List.mem_cons_of_mem _ hb, hr⟩

end SeedLink
