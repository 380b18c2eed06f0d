import SeedLink.Streams
import SeedLink.TimeUtils

/-!
# Stream selection state (`_base.py`)

The stream list of a client, its resume positions, and the cache of which streams a station ID
matches. Streams are named by their place in the list, which only ever grows. `CacheOk` says that
a cached answer is the answer; with it, updating through the cache is updating every matching
stream (`streams_updateStreamState`).
-/

namespace SeedLink

/-- A sequence number and a timestamp, as a state file has them. -/
abbrev Position := Option Int × Option Text

abbrev RecoveredState := AList fun _ : Text => Position

structure Base where
  streams : List Stream := []
  matchCache : AList (fun _ : Text => List Nat) := ∅
  recoveredState : RecoveredState := ∅
  multistation : Bool := false
  allStations : Bool := false
  startTime : Option DateTime := none
  endTime : Option DateTime := none

/-- A method of the base class: it raises or returns, and leaves a state either way. -/
abbrev BaseM := EStateM Exn Base

/-! ### Frames and packets -/

def toPacket (frame : RawFrame) : SeedLinkPacket :=
  { stationId := frame.stationId, seqnum := frame.seqnum, payloadFormat := frame.payloadFormat,
    payloadSubformat := frame.payloadSubformat, payload := frame.payload, record := frame.record }

def isInfoFrame (frame : RawFrame) : Bool :=
  frame.payloadFormat = formatXml ||
    (frame.payloadFormat = formatJson && frame.payloadSubformat = subformatJsonInfo)

def isJsonErrorFrame (frame : RawFrame) : Bool :=
  frame.payloadFormat = formatJson && frame.payloadSubformat = subformatJsonError

namespace Base

/-! ### Matching -/

/-- The places of the streams whose pattern matches. -/
def matchingStreams (stationId : Text) (streams : List Stream) : List Nat :=
  (List.range streams.length).filter fun i => (streams[i]?).any (·.matchesId stationId)

/-- `_streams_matching`. -/
def streamsMatching (stationId : Text) (b : Base) : List Nat × Base :=
  match b.matchCache.lookup stationId with
  | some cached => (cached, b)
  | none =>
    let cached := matchingStreams stationId b.streams
    (cached, { b with matchCache := b.matchCache.insert stationId cached })

/-- `_update_stream_state`. -/
def updateStreamState (pkt : SeedLinkPacket) (b : Base) : Base :=
  match pkt.seqnum with
  | none => b
  | some _ =>
    let matching := b.streamsMatching pkt.stationId
    { matching.2 with
      streams := matching.2.streams.mapIdx fun i s =>
        if i ∈ matching.1 then { s with seqnum := pkt.seqnum, pendingPacket := some pkt } else s }

/-! ### Selection -/

/-- `_apply_recovered_state` on one stream. -/
def applyRecoveredState (recovered : RecoveredState) (s : Stream) : Stream :=
  match recovered.lookup s.stationId with
  | some saved => { s with seqnum := saved.1, timestamp := saved.2 }
  | none => s

/-- `_ensure_default_stream`. -/
def ensureDefaultStream (b : Base) : Base :=
  if b.streams.isEmpty then
    { b with streams := [applyRecoveredState b.recoveredState { stationId := ['*'] }] }
  else b

/-- The `selectors` argument: one string or a list. -/
inductive Selectors
  | text (t : Text)
  | list (l : List Text)

def Selectors.toList : Option Selectors → List Text
  | some (.text t) => Text.splitWords t
  | some (.list l) => l
  | none => []

/-- What `add_stream`, `add_streamlist` and `add_streamlist_file` do with their new streams. -/
def extend (new : List Stream) (b : Base) : Base :=
  { b with streams := b.streams ++ new.map (applyRecoveredState b.recoveredState),
           multistation := true, matchCache := ∅ }

def addStream (stationId : Text) (selectors : Option Selectors) (seqnum : Option Int)
    (allData : Bool) (timestamp : Option Text) : BaseM Unit := fun b =>
  if b.allStations then
    .error (seedLinkError "Cannot mix add_stream() with set_all_stations()") b
  else
    .ok ⟨⟩ (b.extend [{ stationId, selectors := Selectors.toList selectors, seqnum, allData,
                        timestamp }])

def setAllStations (selectors : Option Selectors) (seqnum : Option Int) (allData : Bool)
    (timestamp : Option Text) : BaseM Unit := fun b =>
  if b.allStations then .error (seedLinkError "set_all_stations() may only be called once") b
  else if !b.streams.isEmpty then
    .error (seedLinkError "Cannot mix set_all_stations() with add_stream()") b
  else
    let stream : Stream :=
      { stationId := ['*'], selectors := Selectors.toList selectors, seqnum, allData, timestamp }
    .ok ⟨⟩ { b with streams := [applyRecoveredState b.recoveredState stream], multistation := false,
                    allStations := true, matchCache := ∅ }

def addStreamlist (text : Text) (defaultSelectors : Option Text) : BaseM Unit := fun b =>
  if b.allStations then
    .error (seedLinkError "Cannot mix add_streamlist() with set_all_stations()") b
  else .ok ⟨⟩ (b.extend (parseStreamlist text defaultSelectors))

/-- `file` is what reading the list file gives. -/
def addStreamlistFile (file : Except Exn Text) (defaultSelectors : Option Text) : BaseM Unit :=
  fun b =>
    if b.allStations then
      .error (seedLinkError "Cannot mix add_streamlist_file() with set_all_stations()") b
    else
      match file with
      | .error e => .error e b
      | .ok content => .ok ⟨⟩ (b.extend (readStreamlistFile content defaultSelectors))

/-- A time given as text or as a `datetime`. -/
inductive TimeArg
  | text (t : Text)
  | time (dt : DateTime)

section window
variable [Unicode] [Iso8601]

def TimeArg.resolve : TimeArg → Except Exn DateTime
  | .text t => parseTimestring t
  | .time dt => .ok dt

/-- An unreadable end leaves the start set. -/
def setTimewindow (start : TimeArg) (stop : Option TimeArg) : BaseM Unit := fun b =>
  match start.resolve with
  | .error e => .error e b
  | .ok dt =>
    let b := { b with startTime := some dt }
    match stop.map TimeArg.resolve with
    | none => .ok ⟨⟩ { b with endTime := none }
    | some (.ok dt) => .ok ⟨⟩ { b with endTime := some dt }
    | some (.error e) => .error e b

end window

/-! ### The cache -/

/-- A cached answer names the streams that match. -/
def CacheOk (b : Base) : Prop :=
  ∀ stationId cached, b.matchCache.lookup stationId = some cached →
    ∀ i s, b.streams[i]? = some s → (i ∈ cached ↔ s.matchesId stationId = true)

/-- What a packet does to a stream, the cache aside. -/
def noteArrival (pkt : SeedLinkPacket) (s : Stream) : Stream :=
  if pkt.seqnum.isSome ∧ s.matchesId pkt.stationId = true then
    { s with seqnum := pkt.seqnum, pendingPacket := some pkt }
  else s

variable {b : Base} {stationId : Text} {pkt : SeedLinkPacket}

theorem mem_matchingStreams {streams : List Stream} {i : Nat} :
    i ∈ matchingStreams stationId streams ↔ ∃ s, streams[i]? = some s ∧ s.matchesId stationId = true := by
  simp only [matchingStreams, List.mem_filter, List.mem_range, Option.any_eq_true]
  constructor
  · exact fun h => h.2
  · rintro ⟨s, hs, hm⟩
    exact ⟨(List.getElem?_eq_some_iff.1 hs).1, s, hs, hm⟩

theorem cacheOk_of_matchCache_eq_empty (h : b.matchCache = ∅) : b.CacheOk := by
  intro sid cached hc
  rw [h] at hc
  simp at hc

/-- The invariant only reads the patterns of the streams. -/
theorem CacheOk.congr {b' : Base} (h : b.CacheOk) (hc : b'.matchCache = b.matchCache)
    (hs : b'.streams.map (·.stationId) = b.streams.map (·.stationId)) : b'.CacheOk := by
  intro sid cached hcache i s' hi
  have hpat : (b.streams.map (·.stationId))[i]? = some s'.stationId := by
    rw [← hs, List.getElem?_map, hi]; rfl
  rw [List.getElem?_map] at hpat
  obtain ⟨s, hsi, hid⟩ := Option.map_eq_some_iff.1 hpat
  have := h sid cached (hc ▸ hcache) i s hsi
  simpa only [Stream.matchesId, hid] using this

theorem streamsMatching_streams : (b.streamsMatching stationId).2.streams = b.streams := by
  unfold streamsMatching; split <;> rfl

theorem CacheOk.mem_streamsMatching (h : b.CacheOk) {i : Nat} {s : Stream}
    (hi : b.streams[i]? = some s) :
    i ∈ (b.streamsMatching stationId).1 ↔ s.matchesId stationId = true := by
  unfold streamsMatching
  split
  · rename_i cached hc
    exact h stationId cached hc i s hi
  · rw [mem_matchingStreams]
    exact ⟨fun ⟨s', hs', hm⟩ => by rw [hi] at hs'; cases hs'; exact hm, fun hm => ⟨s, hi, hm⟩⟩

theorem CacheOk.streamsMatching (h : b.CacheOk) (stationId : Text) :
    (b.streamsMatching stationId).2.CacheOk := by
  unfold Base.streamsMatching
  split
  · exact h
  · intro sid cached hc i s hi
    by_cases heq : sid = stationId
    · subst heq
      rw [AList.lookup_insert, Option.some.injEq] at hc
      subst hc
      rw [mem_matchingStreams]
      exact ⟨fun ⟨s', hs', hm⟩ => by rw [hi] at hs'; cases hs'; exact hm, fun hm => ⟨s, hi, hm⟩⟩
    · rw [AList.lookup_insert_ne heq] at hc
      exact h sid cached hc i s hi

@[simp] theorem noteArrival_stationId (s : Stream) : (noteArrival pkt s).stationId = s.stationId := by
  unfold noteArrival; split <;> rfl

/-- Updating through the cache is updating every matching stream. -/
theorem CacheOk.streams_updateStreamState (h : b.CacheOk) (pkt : SeedLinkPacket) :
    (b.updateStreamState pkt).streams = b.streams.map (noteArrival pkt) := by
  unfold updateStreamState
  split
  · rename_i hn
    have hid : noteArrival pkt = id := by funext s; simp [noteArrival, hn]
    rw [hid, List.map_id]
  · rename_i n hn
    apply List.ext_getElem?
    intro i
    simp only [List.getElem?_mapIdx, List.getElem?_map, streamsMatching_streams]
    cases hi : b.streams[i]? with
    | none => rfl
    | some s =>
      simp only [Option.map_some, noteArrival, hn, Option.isSome_some, true_and,
        h.mem_streamsMatching hi]

theorem stationIds_updateStreamState (pkt : SeedLinkPacket) :
    (b.updateStreamState pkt).streams.map (·.stationId) = b.streams.map (·.stationId) := by
  unfold updateStreamState
  split
  · rfl
  · rw [← @streamsMatching_streams b pkt.stationId]
    refine List.ext_getElem? fun i => ?_
    simp only [List.getElem?_map, List.getElem?_mapIdx]
    cases (b.streamsMatching pkt.stationId).2.streams[i]? with
    | none => rfl
    | some s => simp only [Option.map_some]; split <;> rfl

/-- A packet changes the streams and the cache only. -/
theorem updateStreamState_rest (pkt : SeedLinkPacket) : b.updateStreamState pkt =
    { b with streams := (b.updateStreamState pkt).streams,
             matchCache := (b.updateStreamState pkt).matchCache } := by
  unfold updateStreamState streamsMatching
  split
  · rfl
  · simp only
    split <;> rfl

theorem CacheOk.updateStreamState (h : b.CacheOk) (pkt : SeedLinkPacket) :
    (b.updateStreamState pkt).CacheOk := by
  have hids := stationIds_updateStreamState (b := b) pkt
  rw [← @streamsMatching_streams b pkt.stationId] at hids
  revert hids
  unfold Base.updateStreamState
  split
  · exact fun _ => h
  · exact fun hids => (h.streamsMatching pkt.stationId).congr rfl hids

end Base

end SeedLink
