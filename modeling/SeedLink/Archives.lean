import SeedLink.Dumps
import SeedLink.StateRoundTrip

/-!
# An archive over many runs

Runs of `main` one after another, each on a new client, pass on the state file and append to one dump file.
However each of them ends, the dump file has all the packets received in all the runs, and those of a station are
a contiguous segment of the server's log: a new run goes on where the one before it stopped
(`archive_contiguous`).
-/

namespace SeedLink

open StateExc

/-! ### Resolved timestamps -/

section resolving
variable [Externals] {b b' : Base} {server : Server} {got : List RawFrame}

/-- Resolving the timestamps of the streams changes nothing else. -/
theorem Base.Plain.resolves (h : b.Plain) (hr : List.Forall₂ Resolves b.streams b'.streams)
    (hcache : b'.matchCache = b.matchCache) (hstart : b'.startTime = b.startTime) : b'.Plain := by
  have hids := Resolves.stationIds hr
  refine ⟨h.cacheOk.congr hcache hids, ?_, hids ▸ h.nodup, fun s' hs' => ?_, fun s' hs' => ?_, hstart ▸ h.startTime⟩
  · intro hnil
    rw [hnil] at hr
    exact h.ne (List.forall₂_nil_right_iff.1 hr)
  · obtain ⟨s, hs, hr⟩ := exists_of_mem_forall₂ hr hs'
    rw [hr.stationId]
    exact h.exact_ids s hs
  · obtain ⟨s, hs, hr⟩ := exists_of_mem_forall₂ hr hs'
    rw [hr.allData]
    exact h.allData s hs

theorem Base.UpTo.resolves (h : b.UpTo server got) (hr : List.Forall₂ Resolves b.streams b'.streams) :
    b'.UpTo server got := by
  refine ⟨h.segment, fun s' hs' => ?_, fun stationId hno => h.others stationId fun s hs => ?_⟩
  · obtain ⟨s, hs, hr⟩ := exists_of_mem_forall₂ hr hs'
    rw [hr.stationId, hr.seqnum]
    exact h.position s hs
  · obtain ⟨s', hs', hr⟩ := exists_of_mem_forall₂ hr.flip hs
    rw [← Resolves.stationId hr]
    exact hno s' hs'

/-- The client but for its clock, and for the timestamps of its streams. -/
structure Client.Alongside (c c' : Client) : Prop where
  cfg : c'.cfg = c.cfg
  env : c'.env = c.env
  rb : c'.rb = c.rb
  sock : c'.sock = c.sock
  protocol : c'.protocol = c.protocol
  streaming : c'.streaming = c.streaming
  resolves : List.Forall₂ Resolves c.base.streams c'.base.streams
  matchCache : c'.base.matchCache = c.base.matchCache
  startTime : c'.base.startTime = c.base.startTime

namespace Client.Alongside
variable {c c' : Client} {g : Collect}

theorem live (h : c.Alongside c') (hl : c.Live server got) : c'.Live server got := by
  obtain ⟨hv4, requests, done, prev, hr, hcont, hgot⟩ := hl
  exact ⟨h.protocol.trans hv4, requests, done, prev, hr.congr h.cfg h.rb h.sock,
    hcont.congr (Resolves.stationIds h.resolves), hgot⟩

theorem stands (h : c.Alongside c') (hs : c.Stands server g got) : c'.Stands server g got := by
  refine ⟨h.rb ▸ hs.buffer, by rw [h.cfg, h.env]; exact hs.dials, hs.plain.resolves h.resolves h.matchCache h.startTime,
    hs.upTo.resolves h.resolves, ?_⟩
  have hsession := hs.session
  cases g with
  | start =>
    refine ⟨h.protocol.trans hsession.1, ?_⟩
    rw [h.streaming]
    have hrest := hsession.2
    split at hrest
    · rw [if_pos ‹_›]
      exact h.live hrest
    · rw [if_neg ‹_›]
      obtain ⟨hd, hset, hreq⟩ := hrest
      exact ⟨hd, hset.congr h.cfg h.rb h.sock, hreq⟩
  | looping last next => exact hsession.imp (fun hnone => h.sock.trans hnone) h.live
  | reconnecting => exact h.sock.trans hsession
  | finished => trivial

end Client.Alongside

end resolving

namespace Cli

/-! ### Positions that survive a file -/

/-- The number can be printed, and is not read back as `UNSET`. -/
def Restorable (seqnum : Option Int) : Prop := Printable seqnum ∧ seqnum ≠ some (-1)

theorem restorable_none : Restorable none := ⟨nofun, nofun⟩

section archive
variable [Externals] {server : Server} {ids : List Text} {p p' : Process} {got : List RawFrame} {m : Mishaps}
  {args : Args} {c c' : Client} {s t : Stream}

/-- The stream can be saved and read back. -/
structure Archivable (s : Stream) : Prop where
  seqnum : Restorable s.seqnum
  timestamp : Unbroken s.timestamp

theorem Archivable.resolves (hplain : PlainTimes) (h : Archivable s) (hr : Resolves s t) : Archivable t := by
  refine ⟨hr.seqnum ▸ h.seqnum, ?_⟩
  rcases hr with rfl | rfl
  · exact h.timestamp
  · exact unbroken_resolveTimestamp hplain h.timestamp

omit [Externals] in
theorem Archivable.noteArrival {pkt : SeedLinkPacket} (h : Archivable s) (hpkt : Restorable pkt.seqnum) :
    Archivable (Base.noteArrival pkt s) := by
  unfold Base.noteArrival
  split
  · exact ⟨hpkt, h.timestamp⟩
  · exact h

/-- The numbers in the logs are those that a packet can have. -/
def Sequenced (server : Server) : Prop := ∀ stationId, ∀ frame ∈ server.log stationId, 0 ≤ frame.number ∧ frame.number < 2 ^ 64

omit [Externals] in
theorem Sequenced.restorable (h : Sequenced server) {frame : RawFrame} (hf : frame ∈ server.log frame.stationId) :
    Restorable frame.seqnum := by
  obtain ⟨hlo, hhi⟩ := h _ _ hf
  cases hn : frame.seqnum with
  | none => exact restorable_none
  | some n =>
    have hnumber : frame.number = n := by rw [RawFrame.number, hn]; rfl
    rw [hnumber] at hlo hhi
    refine ⟨?_, fun heq => ?_⟩
    · rintro _ ⟨⟩
      refine (Text.length_numeral_le (k := 20) (by decide) (by decide) ?_).trans (by decide)
      omega
    · rw [Option.some.inj heq] at hlo
      omega

/-- The frames `got` are all that has been received, and the streams `ids` stand behind them. -/
structure Trails (server : Server) (ids : List Text) (got : List RawFrame) (p : Process) : Prop where
  received : p.received = got.map toPacket
  ids : p.stationIds = ids
  plain : p.client.base.Plain
  upTo : p.client.base.UpTo server got
  archivable : ∀ s ∈ p.client.base.streams, Archivable s

/-- The position that the state file has for `X`. -/
def Process.position (p : Process) (X : Text) : Option Int := (p.recorded X).bind (·.1)

/-- The frames `got` are segments of the logs, and the positions in the state file follow them. -/
structure Saved (server : Server) (ids : List Text) (got : List RawFrame) (p : Process) : Prop where
  received : p.received = got.map toPacket
  segment : ∀ stationId, stationFrames stationId got <:+: server.log stationId
  others : ∀ stationId, stationId ∉ ids → stationFrames stationId got = []
  position : ∀ stationId ∈ ids, CaughtUp (stationFrames stationId got) (p.position stationId) ∧
    Restorable (p.position stationId)

/-! ### Steps -/

namespace Trails

omit [Externals] in
theorem congr (h : Trails server ids got p) (hbase : p'.client.base = p.client.base)
    (hrec : p'.received = p.received) : Trails server ids got p' :=
  ⟨hrec.trans h.received, by rw [Process.stationIds, hbase]; exact h.ids, hbase ▸ h.plain, hbase ▸ h.upTo,
    hbase ▸ h.archivable⟩

/-- A save and a negotiation resolve timestamps. -/
theorem resolves (hplain : PlainTimes) (h : Trails server ids got p)
    (hr : List.Forall₂ Resolves p.client.base.streams p'.client.base.streams) (hb : p'.client.base.Plain)
    (hrec : p'.received = p.received) : Trails server ids got p' := by
  refine ⟨hrec.trans h.received, (Resolves.stationIds hr).trans h.ids, hb, h.upTo.resolves hr, fun t ht => ?_⟩
  obtain ⟨s, hs, hr⟩ := exists_of_mem_forall₂ hr ht
  exact (h.archivable s hs).resolves hplain hr

/-- A step that yields nothing. -/
theorem evolves (hplain : PlainTimes) (h : Trails server ids got p) (he : p.client.Evolves none c) :
    Trails server ids got { p with client := c } := by
  cases he with
  | kept h₁ => exact h.congr h₁.base rfl
  | @negotiated c₁ _ h₁ h₂ =>
    have hprepared : c.base = (p.client.base.prepareNegotiation c₁.negotiationArgs).2 := by
      rw [h₂.base, ← h₁.base]
      rfl
    have hresolves : List.Forall₂ Resolves p.client.base.streams c.base.streams := by
      rw [hprepared]
      exact Base.resolves_prepare h.plain.ne
    exact h.resolves hplain hresolves (hprepared ▸ h.plain.prepare) rfl

end Trails

/-! ### The streaming loop -/

omit [Externals] in
theorem mem_log_of_segment {frame : RawFrame} (h : stationFrames frame.stationId got <:+: server.log frame.stationId)
    (hf : frame ∈ got) : frame ∈ server.log frame.stationId := by
  refine h.subset ?_
  simpa [stationFrames] using hf

/-- A pass that yields packets. -/
theorem Trails.yields (hseq : Sequenced server) (h : Trails server ids got p) {new : List RawFrame}
    {pkt : SeedLinkPacket} (he : p.client.Evolves (some pkt) c) (hnew : [pkt] = new.map toPacket)
    (hb : c.base.Plain) (hup : c.base.UpTo server (got ++ new)) :
    Trails server ids (got ++ new) { p with client := c, received := p.received ++ [pkt] } := by
  obtain ⟨frame, rfl, rfl⟩ : ∃ frame, new = [frame] ∧ pkt = toPacket frame := by
    match new, hnew with
    | [frame], hnew => exact ⟨frame, rfl, by simpa using hnew⟩
  have hrestorable : Restorable frame.seqnum :=
    hseq.restorable (mem_log_of_segment (hup.segment _) (by simp))
  cases he with
  | received h₁ =>
    refine ⟨by simp [h.received], ?_, hb, hup, fun s hs => ?_⟩
    · rw [← h.ids, Process.stationIds, Process.stationIds, show c.base = _ from h₁.base]
      exact Base.stationIds_updateStreamState _
    · rw [show c.base = _ from h₁.base, h.plain.cacheOk.streams_updateStreamState] at hs
      obtain ⟨s₀, hs₀, rfl⟩ := List.mem_map.1 hs
      exact (h.archivable s₀ hs₀).noteArrival hrestorable

theorem wp_receive_trails (hplain : PlainTimes) (hseq : Sequenced server) (hspares : m.SparesPackets args) {i : Nat}
    {g : Collect} (h : Trails server ids got p) (hs : p.client.Stands server g got) :
    wp (receive m i g) (fun r p' => ∃ new, Trails server ids (got ++ new) p' ∧ p'.client.Stands server r.2 (got ++ new))
      (fun _ p' => Trails server ids got p') p := by
  refine wp_receive_of (fun _ => wp_strikeDefault_of fun _ _ => ?_) ?_
  · split
    · rename_i hnil
      exact absurd (List.isEmpty_iff.1 hnil) h.plain.ne
    · exact h
  refine wp_await (wp_mono (wp_and (wp_collectStep_stands hs) (wp_collectStep_base true g)) ?_ ?_)
  · rintro ⟨pkt, g'⟩ c ⟨⟨new, hnew, hs'⟩, he⟩
    cases pkt with
    | none =>
      obtain rfl : new = [] := by simpa using hnew
      exact ⟨fun _ => ⟨[], by simpa using h.evolves hplain he, hs'⟩, nofun⟩
    | some pkt =>
      refine ⟨nofun, ?_⟩
      rintro _ ⟨⟩
      simp only [note, wp_bind, wp_modify, hspares.updating, wp_pure]
      exact ⟨new, h.yields hseq he hnew hs'.plain hs'.upTo, hs'⟩
  · rintro (e | _) c ⟨-, he⟩
    · exact h.evolves hplain he
    · exact ⟨h.evolves hplain he, fun _ => h.evolves hplain he⟩

/-- A save that goes through leaves the positions of the streams in the file. -/
theorem wp_saveState_trails (hplain : PlainTimes) (h : Trails server ids got p) :
    wp (saveState m) (fun _ p' => Trails server ids got p' ∧ p.client.Alongside p'.client)
      (fun _ p' => Trails server ids got p' ∧ p.client.Alongside p'.client) p := by
  have hr := @resolves_saveState _ (m.faults p.saves) p.client.base.streams
  have halong : ∀ file saves, Trails server ids got { p with
      client := { p.client with base := { p.client.base with
        streams := (SeedLink.saveState (m.faults p.saves) p.client.base.streams).2 } }, file, saves } ∧
      p.client.Alongside { p.client with base := { p.client.base with
        streams := (SeedLink.saveState (m.faults p.saves) p.client.base.streams).2 } } := fun file saves =>
    ⟨h.resolves hplain hr (h.plain.resolves hr rfl rfl) rfl, ⟨rfl, rfl, rfl, rfl, rfl, rfl, hr, rfl, rfl⟩⟩
  simp only [saveState, wp_bind, wp_get, Base.saveState]
  cases hsave : (SeedLink.saveState (m.faults p.saves) p.client.base.streams).1 with
  | error e => simpa only [wp_bind, wp_set, wp_throw] using halong _ _
  | ok text => simpa only [wp_set] using halong _ _

/-- The generator stands at `g`, and the frames `got` have been received. -/
structure Running (server : Server) (ids : List Text) (g : Collect) (got : List RawFrame) (p : Process) : Prop where
  trails : Trails server ids got p
  stands : p.client.Stands server g got

theorem Running.along {g : Collect} (h : Running server ids g got p) (ht : Trails server ids got p')
    (ha : p.client.Alongside p'.client) : Running server ids g got p' := ⟨ht, ha.stands h.stands⟩

/-- The clock has been looked at. -/
theorem Running.ticked {g : Collect} (h : Running server ids g got p) :
    Running server ids g got { p with client := p.client.ticked } :=
  h.along (h.trails.congr rfl rfl) ⟨rfl, rfl, rfl, rfl, rfl, rfl, List.forall₂_same.2 fun _ _ => .inl rfl, rfl, rfl⟩

theorem wp_saveIfDue_trails (hplain : PlainTimes) {i : Nat} {lastSave : Int} {g : Collect} (h : Running server ids g got p) :
    wp (saveIfDue args m i lastSave) (fun _ => Running server ids g got) (fun _ => Trails server ids got) p := by
  simp only [saveIfDue, wp_bind, wp_ite, wp_onClient, wp_monotonic, wp_pure]
  split
  · split
    · refine wp_mono (wp_saveState_trails hplain h.ticked.trails) (fun _ p' hp' => ?_) fun _ _ hp' => hp'.1
      have hrun := h.ticked.along hp'.1 hp'.2
      exact wp_strike (fun _ _ => hp'.1) fun _ => hrun.ticked
    · exact h.ticked
  · exact h

theorem wp_handlePacket_trails (hplain : PlainTimes) {i : Nat} {lastSave : Int} {pkt : SeedLinkPacket} {g : Collect}
    (h : Running server ids g got p) :
    wp (handlePacket args m i lastSave pkt) (fun _ => Running server ids g got) (fun _ => Trails server ids got) p := by
  simp only [handlePacket, dump, wp_bind, wp_ite, wp_modify, wp_pure]
  refine wp_strikePrint (fun _ _ _ => h.trails) ?_
  split
  · refine wp_strike (fun _ _ => h.trails) fun _ => ?_
    have hdumped : Running server ids g got { p with buffered := p.buffered ++ [pkt.payload] } :=
      ⟨h.trails.congr rfl rfl, h.stands⟩
    exact wp_strike (fun _ _ => hdumped.trails) fun _ => wp_saveIfDue_trails hplain hdumped
  · exact wp_strike (fun _ _ => h.trails) fun _ => wp_saveIfDue_trails hplain h

theorem wp_stream_trails (hplain : PlainTimes) (hseq : Sequenced server) (hspares : m.SparesPackets args) :
    ∀ (fuel i : Nat) (g : Collect) (lastSave : Int) (p : Process) (got : List RawFrame), Running server ids g got p →
      wp (stream args m fuel i g lastSave) (fun _ p' => ∃ got, Trails server ids got p')
        (fun _ p' => ∃ got, Trails server ids got p') p
  | 0, _, _, _, _, got, h => ⟨got, h.trails⟩
  | fuel + 1, i, g, lastSave, p, got, h => by
    rw [stream, wp_bind]
    refine wp_strike (fun _ _ => ⟨got, h.trails⟩) fun _ => ?_
    rw [wp_bind]
    refine wp_mono (wp_receive_trails hplain hseq hspares h.trails h.stands) ?_ fun _ _ h => ⟨got, h⟩
    rintro ⟨_ | pkt, g⟩ p' ⟨new, ht, hs⟩
    · simp only [wp_ite]
      split
      · exact ⟨_, ht⟩
      · exact wp_stream_trails hplain hseq hspares fuel _ _ _ _ _ ⟨ht, hs⟩
    · simp only [wp_bind]
      exact wp_mono (wp_handlePacket_trails hplain ⟨ht, hs⟩)
        (fun _ p'' h'' => wp_stream_trails hplain hseq hspares fuel _ _ _ _ _ h'') fun _ _ h => ⟨_, h⟩

/-! ### Configuring -/

/-- Options that select the stations `ids`, without a time window, and name both files. -/
structure Args.Archives (args : Args) (ids : List Text) : Prop where
  ids : args.configured.map (·.stationId) = ids
  timewindow : truthy args.timewindow = false
  statefile : truthy args.statefile = true
  dumpfile : truthy args.dumpfile = true

/-- Station IDs that stand for themselves in a state file. -/
structure Followable (ids : List Text) : Prop where
  ne : ids ≠ []
  nodup : ids.Nodup
  exact_ids : ∀ X ∈ ids, isWildcard X = false
  word : ∀ X ∈ ids, Text.Word X ∧ X.head? ≠ some '#'

/-- Nothing goes wrong between configuring the streams and recovering their positions, between the update of a
packet's streams and the write of its payload, nor before the last save. -/
structure Mishaps.SparesArchive (m : Mishaps) (args : Args) : Prop extends m.SparesPackets args where
  selected : m.strike .selected = none
  reading : m.strike .reading = none
  recovering : m.recovering = none
  leaving : m.strike .leaving = none

/-- No stream is configured. -/
structure Idle (server : Server) (ids : List Text) (got : List RawFrame) (p : Process) : Prop where
  saved : Saved server ids got p
  none : p.stationIds = []

omit [Externals] in
theorem configured_eq (hs : s ∈ args.configured) : s.seqnum = none ∧ s.timestamp = none ∧ s.allData = false := by
  unfold Args.configured at hs
  split at hs
  · obtain ⟨entry, -, he⟩ := List.mem_filterMap.1 hs
    unfold parseStreamlistEntry at he
    simp only at he
    split at he <;> cases he
    exact ⟨rfl, rfl, rfl⟩
  · split at hs
    · obtain ⟨line, -, hl⟩ := List.mem_filterMap.1 hs
      unfold readStreamlistLine at hl
      simp only at hl
      split at hl <;> cases hl <;> exact ⟨rfl, rfl, rfl⟩
    · cases hs
    · split at hs
      · obtain rfl := List.mem_singleton.1 hs
        exact ⟨rfl, rfl, rfl⟩
      · cases hs

omit [Externals] in
theorem wp_selectStreams_startTime : wp (selectStreams args) (fun _ b => b.startTime = none) (fun _ _ => True) {} := by
  unfold selectStreams
  split
  · rfl
  · split
    · rename_i content _
      rcases content with e | content
      · trivial
      · rfl
    · split <;> rfl

omit [Externals] in
theorem unbroken_none : Unbroken none := nofun

/-- The streams with the positions that the file has for them. -/
theorem Saved.trails (hf : Followable ids) (ha : args.Archives ids) (h : Saved server ids got p) {b : Base}
    {recovered : RecoveredState} (hrec : ∀ X, recovered.lookup X = p.recorded X)
    (htimes : ∀ X pos, recovered.lookup X = some pos → Unbroken pos.2)
    (hstreams : b.streams = args.configured.map (Base.applyRecoveredState recovered)) (hcache : b.matchCache = ∅)
    (hstart : b.startTime = none) :
    Trails server ids got { p with client := { p.client with base := b } } := by
  have hids : b.streams.map (·.stationId) = ids := by
    rw [hstreams, ← ha.ids, List.map_map]
    exact List.map_congr_left fun s _ => stationId_applyRecoveredState
  have hmem : ∀ s ∈ b.streams, s.stationId ∈ ids := fun s hs => hids ▸ List.mem_map_of_mem hs
  -- a stream that the file does not know has no position
  have hstream : ∀ s ∈ b.streams, s.seqnum = p.position s.stationId ∧ Unbroken s.timestamp ∧ s.allData = false := by
    intro s hs
    rw [hstreams] at hs
    obtain ⟨s₀, hs₀, rfl⟩ := List.mem_map.1 hs
    obtain ⟨hseq, htime, hall⟩ := configured_eq hs₀
    rw [stationId_applyRecoveredState, Process.position, ← hrec, Base.applyRecoveredState]
    cases hlookup : recovered.lookup s₀.stationId with
    | none => exact ⟨hseq, htime ▸ unbroken_none, hall⟩
    | some pos => exact ⟨rfl, htimes _ _ hlookup, hall⟩
  refine ⟨h.received, hids, ⟨Base.cacheOk_of_matchCache_eq_empty hcache, ?_, hids ▸ hf.nodup, fun s hs =>
    hf.exact_ids _ (hmem s hs), fun s hs => (hstream s hs).2.2, hstart⟩, ⟨h.segment, fun s hs => ?_, fun X hno => ?_⟩,
    fun s hs => ?_⟩
  · intro hnil
    rw [hnil] at hids
    exact hf.ne hids.symm
  · rw [(hstream s hs).1]
    exact (h.position _ (hmem s hs)).1
  · refine h.others X fun hX => ?_
    rw [← hids] at hX
    obtain ⟨s, hs, rfl⟩ := List.mem_map.1 hX
    exact hno s hs rfl
  · exact ⟨(hstream s hs).1 ▸ (h.position _ (hmem s hs)).2, (hstream s hs).2.1⟩

theorem Saved.empty (hreceived : p.received = []) (hfile : ∀ X ∈ ids, Restorable (p.position X)) :
    Saved server ids [] p :=
  ⟨hreceived, fun _ => List.nil_infix, fun _ _ => rfl, fun X hX => ⟨nofun, hfile X hX⟩⟩

theorem Saved.congr (h : Saved server ids got p) (hfile : p'.file = p.file) (hrec : p'.received = p.received) :
    Saved server ids got p' := by
  have hposition : ∀ X, p'.position X = p.position X := fun X => by
    rw [Process.position, Process.position, Process.recorded, Process.recorded, hfile]
  exact ⟨hrec.trans h.received, h.segment, h.others, fun X hX => by rw [hposition]; exact h.position X hX⟩

theorem Idle.of_base (h : Saved server ids got p) (hbase : p.client.base = {}) : Idle server ids got p :=
  ⟨h, by rw [Process.stationIds, hbase]; rfl⟩

/-- Only the selection has changed. -/
def Rebased (c c' : Client) : Prop := ∃ base, c' = { c with base }

/-- A state file that is not there yet is one without positions. -/
theorem wp_recoverPositions_trails (hf : Followable ids) (ha : args.Archives ids) (hspares : m.SparesArchive args)
    (h : Saved server ids got p) (hstreams : p.client.base.streams = args.configured)
    (hrecovered : p.client.base.recoveredState = ∅) (hcache : p.client.base.matchCache = ∅)
    (hstart : p.client.base.startTime = none) :
    wp (recoverPositions args m) (fun _ p' => Trails server ids got p' ∧ Rebased p.client p'.client)
      (fun _ _ => False) p := by
  rw [recoverPositions, if_pos ha.statefile, wp_catching, recoverState, wp_bind]
  refine wp_strike (fun e he => ?_) fun _ => ?_
  · rw [hspares.reading] at he
    cases he
  rw [wp_bind, wp_get]
  cases hfile : p.file with
  | none =>
    have hnone : ∀ X, (∅ : RecoveredState).lookup X = p.recorded X := fun X => by
      rw [Process.recorded, hfile]
      rfl
    refine ⟨h.trails (b := p.client.base) hf ha hnone (fun X pos hX => by cases hX) ?_ hcache hstart, p.client.base, rfl⟩
    rw [hstreams, show Base.applyRecoveredState ∅ = id from funext fun _ => applyRecoveredState_empty, List.map_id]
  | some text =>
    simp only
    rw [wp_bind, wp_onClient, wp_onBase]
    have hlookup : ∀ X, (loadState (Text.universalNewlines text) ∪ p.client.base.recoveredState).lookup X =
        p.recorded X := fun X => by
      rw [hrecovered, AList.union_empty, Process.recorded, hfile]
      rfl
    simp only [hspares.recovering, wp_pure]
    refine ⟨h.trails hf ha hlookup (fun X pos hX => ?_) (by rw [hstreams]) hcache hstart, _, rfl⟩
    rw [hrecovered, AList.union_empty] at hX
    exact fun t ht => ((loadState_spec hX).2.2 t ht).noSpace

theorem wp_configureStreams_trails (hf : Followable ids) (ha : args.Archives ids) (hspares : m.SparesArchive args)
    (h : Saved server ids got p) (hbase : p.client.base = {}) :
    wp (configureStreams args m) (fun _ p' => Trails server ids got p' ∧ Rebased p.client p'.client)
      (fun _ => Idle server ids got) p := by
  rw [configureStreams, wp_bind]
  refine wp_strike (fun _ _ => .of_base h hbase) fun _ => ?_
  rw [wp_bind, wp_onClient, wp_onBase, hbase]
  refine wp_mono (wp_and wp_selectStreams wp_selectStreams_startTime) ?_ ?_
  · rintro _ b ⟨⟨hstreams, hrecovered, hcache⟩, hstart⟩
    rw [wp_bind]
    refine wp_strike (fun e he => ?_) fun _ => ?_
    · rw [hspares.selected] at he
      cases he
    rw [wp_bind, setTimewindow, if_neg (by simp [ha.timewindow]), wp_pure]
    have hselected : Saved server ids got { p with client := { p.client with base := b } } := h.congr rfl rfl
    refine wp_mono (wp_recoverPositions_trails hf ha hspares hselected hstreams hrecovered hcache hstart) ?_
      fun _ _ => False.elim
    rintro _ p' ⟨ht, b', hp'⟩
    exact ⟨ht, b', hp'⟩
  · rintro e b ⟨rfl, -⟩
    exact .of_base (h.congr rfl rfl) rfl

/-! ### The whole run -/

/-- The positions are in the file or in the streams. -/
def Ended (server : Server) (ids : List Text) (p : Process) : Prop :=
  ∃ got, Idle server ids got p ∨ Trails server ids got p

/-- The last save, if there is one, goes through. -/
def Mishaps.SparesLastSave (m : Mishaps) (p : Process) : Prop := ∀ n, n + 1 = p.saves → m.faults n = noFaults

/-- The positions are in the file, if the last save has gone through. -/
def Kept (server : Server) (ids : List Text) (m : Mishaps) (p : Process) : Prop :=
  m.SparesLastSave p → ∃ got, Saved server ids got p

theorem wp_saveAtEnd_kept (hplain : PlainTimes) (hf : Followable ids) (ha : args.Archives ids)
    (h : Trails server ids got p) :
    wp (saveAtEnd args m) (fun _ => Kept server ids m) (fun _ => Kept server ids m) p := by
  have hne : p.client.base.streams.isEmpty = false := by simpa using h.plain.ne
  rw [saveAtEnd, wp_bind, wp_get, wp_ite, if_pos (by simp [ha.statefile, hne]), wp_catching]
  simp only [saveState, wp_bind, wp_get, Base.saveState]
  cases hsave : (SeedLink.saveState (m.faults p.saves) p.client.base.streams).1 with
  | error e =>
    -- without a fault every position can be printed
    have hno : m.faults p.saves ≠ noFaults := by
      intro hfaults
      obtain ⟨text, htext⟩ := saveState_noFaults fun s hs => (h.archivable s hs).seqnum.1
      rw [hfaults, htext] at hsave
      cases hsave
    simp only [wp_bind, wp_set, wp_throw]
    split <;> exact fun hlast => absurd (hlast _ rfl) hno
  | ok text =>
    simp only [wp_set]
    refine fun _ => ⟨got, h.received, h.upTo.segment, fun X hX => h.upTo.others X fun s hs heq => hX ?_, fun X hX => ?_⟩
    · rw [← h.ids, ← heq]
      exact List.mem_map_of_mem hs
    · rw [← h.ids] at hX
      obtain ⟨s, hs, rfl⟩ := List.mem_map.1 hX
      have hword : ∀ s ∈ p.client.base.streams, Text.Word s.stationId ∧ s.stationId.head? ≠ some '#' := fun s hs =>
        hf.word _ (h.ids ▸ List.mem_map_of_mem hs)
      have hself : ∀ t ∈ p.client.base.streams, t.stationId = s.stationId → t.seqnum ≠ some (-1) ∧
          CaughtUp (stationFrames s.stationId got) t.seqnum ∧ Restorable t.seqnum := fun t ht hid =>
        ⟨(h.archivable t ht).seqnum.2, hid ▸ h.upTo.position t ht, (h.archivable t ht).seqnum⟩
      have hother : ∀ t ∈ p.client.base.streams, t.stationId = s.stationId ∨ ¬ Mistakable s.stationId t.stationId :=
        fun t ht => (Decidable.em _).imp_right (not_mistakable (hword t ht).1)
      obtain ⟨pos, hpos, hgood⟩ := lookup_saveState
        (P := fun n => CaughtUp (stationFrames s.stationId got) n ∧ Restorable n) hsave (hword s hs).1 (hword s hs).2
        ⟨s, hs, rfl⟩ hself hother fun t ht => unbroken_resolveTimestamp hplain (h.archivable t ht).timestamp
      rw [Process.position, Process.recorded, Option.bind_some, hpos]
      exact hgood

theorem Saved.kept (h : Saved server ids got p) : Kept server ids m p := fun _ => ⟨got, h⟩

theorem Kept.congr (h : Kept server ids m p) (hfile : p'.file = p.file) (hrec : p'.received = p.received)
    (hsaves : p'.saves = p.saves) : Kept server ids m p' := by
  intro hlast
  obtain ⟨got, hsaved⟩ := h fun n hn => hlast n (hn.trans hsaves.symm)
  exact ⟨got, hsaved.congr hfile hrec⟩

theorem wp_leave_kept (hplain : PlainTimes) (hf : Followable ids) (ha : args.Archives ids) (hspares : m.SparesArchive args)
    (h : Ended server ids p) :
    wp (leave args m) (fun _ => Kept server ids m) (fun _ => Kept server ids m) p := by
  rw [leave, wp_bind]
  refine wp_strike (fun e he => ?_) fun _ => ?_
  · rw [hspares.leaving] at he
    cases he
  have hclose : ∀ p', Kept server ids m p' →
      wp (do strike m .left; onClient close) (fun _ => Kept server ids m) (fun _ => Kept server ids m) p' := by
    intro p' h'
    rw [wp_bind]
    refine wp_strike (fun _ _ => h') fun _ => ?_
    rw [wp_onClient, wp_close]
    exact h'.congr rfl rfl rfl
  rw [wp_bind]
  obtain ⟨got, hidle | ht⟩ := h
  · have hnil : p.client.base.streams.isEmpty = true := List.isEmpty_iff.2 (List.map_eq_nil_iff.1 hidle.none)
    rw [saveAtEnd, wp_bind, wp_get, wp_ite, if_neg (by simp [hnil])]
    exact hclose p hidle.saved.kept
  · exact wp_mono (wp_saveAtEnd_kept hplain hf ha ht) (fun _ p' h' => hclose p' h') fun _ _ h' => h'

/-- A client that has not been used. -/
structure New (server : Server) (c : Client) : Prop where
  base : c.base = {}
  sock : c.sock = none
  streaming : c.streaming = false
  size : recvBufSize ≤ c.rb.buf.size
  honoured : ∀ n sk, c.env.dial n = .opened sk → server.Honours c.cfg sk

theorem wp_session_ended (hplain : PlainTimes) (hseq : Sequenced server) (hf : Followable ids) (ha : args.Archives ids)
    (hspares : m.SparesArchive args) (hnew : New server p.client) (h : Saved server ids got p) {fuel : Nat} :
    wp (session args m fuel) (fun _ => Ended server ids) (fun _ => Ended server ids) p := by
  have hidle : ∀ {p'}, p'.client.base = {} → p'.file = p.file → p'.received = p.received → Ended server ids p' :=
    fun hbase hfile hrec => ⟨got, .inl (.of_base (h.congr hfile hrec) hbase)⟩
  have hwaits : ∀ {p₁ : Process} {α : Type} {place : Place} {x : ClientM α} {Q : α → Process → Prop},
      p₁.client.base = {} → p₁.file = p.file → p₁.received = p.received →
      wp x (fun a c => Q a { p₁ with client := c }) (fun _ c => c.base = p₁.client.base) p₁.client →
      wp (await m place x) Q (fun _ => Ended server ids) p₁ := by
    intro p₁ α place x Q hbase hfile hrec hx
    refine wp_await (wp_mono hx (fun _ _ h => h) fun stop c hc => ?_)
    rcases stop with e | _
    · exact hidle (hc.trans hbase) hfile hrec
    · exact ⟨hidle (hc.trans hbase) hfile hrec, fun _ => hidle (hc.trans hbase) hfile hrec⟩
  rw [session, wp_bind]
  refine hwaits hnew.base rfl rfl (wp_mono (wp_and (wp_and (wp_connect_settled hnew.honoured hnew.size hnew.sock)
    (steady.connect true _)) (keepsBuffer.connect true _)) ?_ fun _ c hc => hc.1.2.base)
  rintro _ c ⟨⟨⟨hsettled, hp, hst⟩, hsame⟩, hbuf⟩
  have hbase : c.base = {} := hsame.base.trans hnew.base
  rw [wp_bind]
  refine wp_strikePrint (fun _ _ _ => hidle hbase rfl rfl) ?_
  rw [wp_ite]
  split
  · rw [wp_bind]
    refine hwaits hbase rfl rfl (wp_mono (steady_infoDict _ _) (fun _ c' hc' => ?_) fun _ c' hc' => hc'.base)
    rw [wp_bind]
    exact wp_strike (fun _ _ => hidle (hc'.base.trans hbase) rfl rfl) fun _ => hidle (hc'.base.trans hbase) rfl rfl
  · rw [wp_bind]
    have hconnected : Saved server ids got { p with client := c } := h.congr rfl rfl
    refine wp_mono (wp_configureStreams_trails hf ha hspares hconnected hbase) ?_ fun _ _ hi => ⟨got, .inl hi⟩
    rintro _ p₁ ⟨ht, base, hp₁⟩
    have hstands : p₁.client.Stands server .start got := by
      refine ⟨?_, ?_, ht.plain, ht.upTo, ?_⟩
      · rw [hp₁]
        exact hbuf hnew.size
      · rw [hp₁, show ({ c with base } : Client).env = c.env from rfl, show ({ c with base } : Client).cfg = c.cfg from rfl,
          hsame.cfg, hsame.env]
        exact hnew.honoured
      · rw [hp₁]
        obtain ⟨hd, hset, hreq⟩ := hsettled
        refine ⟨hp, ?_⟩
        rw [show ({ c with base } : Client).streaming = false from hst.trans hnew.streaming, if_neg Bool.false_ne_true]
        exact ⟨hd, hset.congr rfl rfl rfl, hreq⟩
    rw [wp_bind]
    refine wp_strike (fun _ _ => ⟨got, .inr ht⟩) fun _ => ?_
    have hclose : ∀ p', (∃ got, Trails server ids got p') →
        wp (closeDump args m) (fun _ => Ended server ids) (fun _ => Ended server ids) p' := by
      rintro p' ⟨got', ht'⟩
      rw [closeDump, wp_bind]
      refine wp_strike (fun _ _ => ⟨got', .inr ht'⟩) fun _ => ?_
      rw [wp_ite, if_pos ha.dumpfile, wp_modify]
      exact ⟨got', .inr (ht'.congr rfl rfl)⟩
    have hrun : Running server ids .start got p₁ := ⟨ht, hstands⟩
    rw [wp_bind, wp_onClient, wp_monotonic, wp_bind, wp_tryFinally]
    refine wp_mono (wp_stream_trails hplain hseq hspares.toSparesPackets fuel 0 .start _ _ got hrun.ticked)
      (fun _ p' hp' => hclose p' hp') fun stop p' hp' => ?_
    rcases stop with e | _
    · exact hclose p' hp'
    · exact hp'.imp fun _ => .inr

theorem wp_main_kept (hplain : PlainTimes) (hseq : Sequenced server) (hf : Followable ids) (ha : args.Archives ids)
    (hspares : m.SparesArchive args) (hnew : New server p.client) (h : Saved server ids got p) (fuel : Nat) :
    wp (main args m fuel) (fun _ => Kept server ids m) (fun stop p' => stop ≠ .blocked → Kept server ids m p') p := by
  rw [main]
  split
  · have hkept : ∀ {p'}, p'.file = p.file → p'.received = p.received → Kept server ids m p' := fun hfile hrec =>
      (h.congr hfile hrec).kept
    have hreport : ∀ p', p'.file = p.file → p'.received = p.received →
        wp (do strike m .reporting; return 1) (fun _ : Int => Kept server ids m)
          (fun stop p' => stop ≠ .blocked → Kept server ids m p') p' := by
      intro p' hfile hrec
      rw [wp_bind]
      exact wp_strike (fun _ _ _ => hkept hfile hrec) fun _ => hkept hfile hrec
    rw [wp_catching, wp_bind]
    refine wp_await (wp_mono (steady_ping p.client) (fun _ c _ => ?_) fun stop c _ => ?_)
    · rw [wp_bind]
      refine wp_strike (fun e _ => ?_) fun _ => hkept rfl rfl
      simp only
      split
      · exact hreport _ rfl rfl
      · exact fun _ => hkept rfl rfl
    · rcases stop with e | _
      · simp only
        split
        · exact hreport _ rfl rfl
        · exact fun _ => hkept rfl rfl
      · refine ⟨fun hne => absurd rfl hne, fun e => ?_⟩
        simp only
        split
        · exact hreport _ rfl rfl
        · exact fun _ => hkept rfl rfl
  · rw [wp_tryFinally, report, wp_catching]
    have hleave : ∀ {p'}, Ended server ids p' →
        wp (leave args m) (fun _ => Kept server ids m) (fun stop p' => stop ≠ .blocked → Kept server ids m p') p' :=
      fun h' => wp_mono (wp_leave_kept hplain hf ha hspares h') (fun _ _ h => h) fun _ _ h _ => h
    have hraised : ∀ {e : Exn} {p'}, Ended server ids p' → wp (leave args m)
        (fun _ p' => Stop.raised e ≠ .blocked → Kept server ids m p')
        (fun stop p' => stop ≠ .blocked → Kept server ids m p') p' :=
      fun h' => wp_mono (hleave h') (fun _ _ h _ => h) fun _ _ h => h
    refine wp_mono (wp_session_ended hplain hseq hf ha hspares hnew h) (fun _ p' hp' => hleave hp') fun stop p' hp' => ?_
    rcases stop with e | _
    · simp only
      split
      · rw [wp_bind]
        exact wp_strike (fun _ _ => hraised hp') fun _ => hleave hp'
      · exact hraised hp'
    · exact fun hne => absurd rfl hne

/-! ### Runs one after another -/

/-- The process after runs of `main`. A new run takes over the files, and what has been received is counted on. -/
inductive Archives (server : Server) (ids : List Text) (p₀ : Process) : Process → Prop
  | empty : Archives server ids p₀ p₀
  | run {p p' : Process} (h : Archives server ids p₀ p) {args : Args} {m : Mishaps} {c : Client}
      (hargs : args.Archives ids) (hnew : New server c) (hspares : m.SparesArchive args)
      (hexit : Exits args m { p with client := c, buffered := [], saves := 0 } p')
      (hlast : m.SparesLastSave p') : Archives server ids p₀ p'

/-- Runs of `main` that follow stations with distinct IDs and no wildcards, without a time window, on a v4 server
that honours every connection, each of them ended in any way but between the update of a packet's streams and the
write of its payload, with the last save of each run going through: the dump file has the payloads of all the
packets received in all the runs, and those of a station are a contiguous segment of its log. -/
theorem archive_contiguous {p₀ : Process} (hplain : PlainTimes) (hseq : Sequenced server) (hf : Followable ids)
    (hreceived : p₀.received = []) (hdumped : p₀.dumped = [])
    (hfile : ∀ X ∈ ids, Restorable (p₀.position X)) (h : Archives server ids p₀ p) :
    p.dumped = p.received.map (·.payload) ∧
      ∀ X, p.received.filter (·.stationId = X) <:+: (server.log X).map toPacket := by
  have hsaved : Flushed p ∧ ∃ got, Saved server ids got p := by
    induction h with
    | empty => exact ⟨by rw [Flushed, hdumped, hreceived]; rfl, [], .empty hreceived hfile⟩
    | @run p p' _ args m c hargs hnew hspares hexit hlast ih =>
      obtain ⟨hflushed, got, hsaved⟩ := ih
      have hstart : Saved server ids got { p with client := c, buffered := [], saves := 0 } := hsaved.congr rfl rfl
      obtain ⟨fuel, hrun⟩ := hexit
      have hmain := wp_and (wp_main_flushed hargs.dumpfile hspares.toSparesPackets (p := { p with client := c, buffered := [], saves := 0 })
        hflushed rfl fuel) (wp_main_kept hplain hseq hf hargs hspares hnew hstart fuel)
      rcases hrun with ⟨code, hrun⟩ | ⟨e, hrun⟩
      · obtain ⟨hfl, hkept⟩ := (wp_iff_of_ok hrun).1 hmain
        exact ⟨hfl, hkept hlast⟩
      · obtain ⟨hfl, hkept⟩ := (wp_iff_of_error hrun).1 hmain
        exact ⟨hfl Stop.noConfusion, hkept Stop.noConfusion hlast⟩
  obtain ⟨hflushed, got, hsaved⟩ := hsaved
  refine ⟨hflushed, fun X => ?_⟩
  have hfilter : (got.map toPacket).filter (·.stationId = X) = (stationFrames X got).map toPacket := by
    rw [List.filter_map]
    rfl
  rw [hsaved.received, hfilter]
  exact (hsaved.segment X).map toPacket

end archive

/-! ### Two runs -/

/-- A client whose first connection is this one. -/
def dialling (sk : Sock) : Client :=
  { cfg := { requestedProtocol := some .v4 }, env := ⟨fun n => if n = 0 then .opened sk else .timeout, fun _ => 0, fun _ => true⟩ }

/-- The process when a run is over. -/
def exited [Externals] (args : Args) (m : Mishaps) (fuel : Nat) (p : Process) : Option Process :=
  match main args m fuel p with
  | .ok _ p' | .error (.raised _) p' => some p'
  | .error .blocked _ => none

theorem exits_of_exited [Externals] {args : Args} {m : Mishaps} {fuel : Nat} {p p' : Process}
    (h : exited args m fuel p = some p') : Exits args m p p' := by
  unfold exited at h
  split at h
  · rename_i code p₁ hrun
    cases h
    exact ⟨fuel, .inl ⟨code, hrun⟩⟩
  · rename_i e p₁ hrun
    cases h
    exact ⟨fuel, .inr ⟨e, hrun⟩⟩
  · cases h

/-- Two runs, each interrupted behind its packet. -/
def twoRuns [Externals] (p : Process) : Option Process :=
  (exited argsAB interrupted 5 { p with client := dialling (cutSession [] 7), buffered := [], saves := 0 }).bind fun p =>
    exited argsAB interrupted 5 { p with client := dialling (cutSession (Bytes.lit " 8") 8), buffered := [], saves := 0 }

def noState : Process := { client := dialling (cutSession [] 7), file := none }

/-- The second run goes on behind the packet of the first. -/
theorem archive_contiguous_twoRuns :
    ∃ p, @Archives Externals.bare logsAB ["A_B".toList] noState p ∧
      p.received = [toPacket (numberedFrame 7), toPacket (numberedFrame 8)] ∧
      p.dumped = p.received.map (·.payload) ∧
      p.received.filter (·.stationId = "A_B".toList) <:+: (logsAB.log "A_B".toList).map toPacket := by
  let _ : Externals := Externals.bare
  have hreceived : (twoRuns noState).map (·.received) =
      some [toPacket (numberedFrame 7), toPacket (numberedFrame 8)] := by decide +kernel
  obtain ⟨p, htwo, hp⟩ := Option.map_eq_some_iff.1 hreceived
  rw [twoRuns, Option.bind_eq_some_iff] at htwo
  obtain ⟨p₁, hrun₁, hrun₂⟩ := htwo
  have hargs : argsAB.Archives ["A_B".toList] := ⟨by decide, by decide, by decide, by decide⟩
  have hspares : interrupted.SparesArchive argsAB := ⟨⟨fun _ => rfl, nofun, fun _ => rfl, rfl⟩, rfl, rfl, rfl, rfl⟩
  have hnew : ∀ {arg n}, arg = [] ∧ n = 7 ∨ arg = Bytes.lit " 8" ∧ n = 8 → New logsAB (dialling (cutSession arg n)) := by
    intro arg n harg
    refine ⟨rfl, rfl, rfl, RecvBuf.wf_fresh.size_ge, fun k sk hdial => ?_⟩
    unfold dialling at hdial
    simp only at hdial
    split at hdial <;> cases hdial
    exact @honours_cutSession Pymseed.bare arg n harg
  have h : Archives logsAB ["A_B".toList] noState p :=
    .run (.run .empty hargs (hnew (.inl ⟨rfl, rfl⟩)) hspares (exits_of_exited hrun₁) fun _ _ => rfl) hargs
      (hnew (.inr ⟨rfl, rfl⟩)) hspares (exits_of_exited hrun₂) fun _ _ => rfl
  have hseq : Sequenced logsAB := by
    intro X frame hf
    unfold logsAB at hf
    simp only at hf
    split at hf
    · rcases List.mem_pair.1 hf with rfl | rfl <;> decide
    · cases hf
  have hfollow : Followable ["A_B".toList] := by
    refine ⟨by decide, by decide, by decide, fun X hX => ?_⟩
    obtain rfl := List.mem_singleton.1 hX
    exact ⟨by decide, by decide⟩
  have hfile : ∀ X ∈ ["A_B".toList], Restorable (noState.position X) := fun _ _ => restorable_none
  obtain ⟨hdumped, hsegment⟩ := archive_contiguous (fun _ t ht c hc => by cases ht; cases hc) hseq hfollow rfl rfl
    hfile h
  exact ⟨p, h, hp, hdumped, hsegment _⟩

end Cli

end SeedLink
