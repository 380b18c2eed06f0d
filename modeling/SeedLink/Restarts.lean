import SeedLink.Cli
import SeedLink.Contiguous
import SeedLink.Recovery

/-!
# Where the next run resumes

What the state file says once `main` has ended. A position that the file held is kept, or moved to a
packet of the run, when nothing goes wrong between configuring the streams and recovering their
positions (`position_survives`). The save on the way out would otherwise write streams that have no
position yet: with a time window that cannot be read, the position is lost
(`not_position_survives_badWindow`).
-/

namespace SeedLink

open StateExc

namespace Cli

/-! ### Positions that a station may have -/

section positions
variable {X : Text} {n : Int} {received : List SeedLinkPacket} {pkt : SeedLinkPacket}

/-- The packet is one for the streams with the ID `X`. -/
def IsFor (X : Text) (pkt : SeedLinkPacket) : Prop := ({ stationId := X } : Stream).matchesId pkt.stationId = true

/-- The number is `n` or that of a packet received for `X`. -/
def Held (X : Text) (n : Int) (received : List SeedLinkPacket) (seqnum : Option Int) : Prop :=
  ∃ k, seqnum = some k ∧ (k = n ∨ ∃ pkt ∈ received, IsFor X pkt ∧ pkt.seqnum = some k)

theorem Held.mono {seqnum : Option Int} (h : Held X n received seqnum) (more : List SeedLinkPacket) :
    Held X n (received ++ more) seqnum := by
  obtain ⟨k, rfl, hk⟩ := h
  refine ⟨k, rfl, hk.imp id ?_⟩
  rintro ⟨pkt, hpkt, hfor⟩
  exact ⟨pkt, List.mem_append_left _ hpkt, hfor⟩

/-- The packets for `X` have numbers that a state file can hold. -/
def Numbered (X : Text) (received : List SeedLinkPacket) : Prop :=
  ∀ pkt ∈ received, IsFor X pkt → pkt.seqnum ≠ some (-1)

theorem Held.ne {seqnum : Option Int} (h : Held X n received seqnum) (hn : n ≠ -1) (hnum : Numbered X received) :
    seqnum ≠ some (-1) := by
  rintro rfl
  obtain ⟨k, hk, rfl | ⟨pkt, hpkt, hfor, hseq⟩⟩ := h
  · exact hn (Option.some.inj hk).symm
  · exact hnum pkt hpkt hfor (hseq.trans hk.symm)

end positions

/-! ### Streams -/

theorem mem_upTo {old new : List Stream} {k : Nat} {s : Stream}
    (hids : new.map (·.stationId) = old.map (·.stationId)) (hs : s ∈ upTo k old new) :
    ∃ i a b, old[i]? = some a ∧ new[i]? = some b ∧ (s.stationId = a.stationId ∧ s.stationId = b.stationId) ∧
      (s.timestamp = a.timestamp ∨ s.timestamp = b.timestamp) ∧
      (s.seqnum = a.seqnum ∨ s.seqnum = b.seqnum) ∧ (2 * i < k → s.seqnum = b.seqnum) := by
  obtain ⟨i, hi, rfl⟩ := List.mem_mapIdx.1 hs
  rw [List.length_zip] at hi
  have ha : i < old.length := by omega
  have hb : i < new.length := by omega
  have hid : new[i].stationId = old[i].stationId := by
    have := congrArg (·[i]?) hids
    simpa [ha, hb] using this
  refine ⟨i, old[i], new[i], List.getElem?_eq_getElem ha, List.getElem?_eq_getElem hb, ?_, ?_, ?_, ?_⟩
  · simp [List.getElem_zip, hid]
  · simp only [List.getElem_zip]
    split
    · exact .inr rfl
    · exact .inl rfl
  · simp only [List.getElem_zip]
    split
    · exact .inr rfl
    · exact .inl rfl
  · intro hlt
    simp only [List.getElem_zip, if_pos hlt]

theorem stationIds_upTo {old new : List Stream} {k : Nat} (h : new.length = old.length) :
    (upTo k old new).map (·.stationId) = old.map (·.stationId) := by
  refine List.ext_getElem (by simp [upTo, h]) fun i _ _ => ?_
  simp [upTo]

section streams
variable [Externals] {X : Text} {n : Int} {received : List SeedLinkPacket} {pkt : SeedLinkPacket} {s t : Stream}

/-- The stream is one for `X` that has a position, or one that is not mistaken for it. -/
structure Tracks (X : Text) (n : Int) (received : List SeedLinkPacket) (s : Stream) : Prop where
  id : s.stationId = X ∨ ¬ Mistakable X s.stationId
  time : Unbroken s.timestamp
  held : s.stationId = X → Held X n received s.seqnum

/-- The start times of records have no white space. -/
def PlainTimes : Prop := ∀ record, Unbroken (some (Pymseed.starttimeStr record))

theorem unbroken_resolveTimestamp (hplain : PlainTimes) (h : Unbroken s.timestamp) :
    Unbroken s.resolveTimestamp.timestamp := by
  unfold Stream.resolveTimestamp
  split
  · exact h
  · split
    · exact hplain _
    · exact h

namespace Tracks

theorem mono (h : Tracks X n received s) (more : List SeedLinkPacket) : Tracks X n (received ++ more) s :=
  ⟨h.id, h.time, fun hid => (h.held hid).mono more⟩

theorem resolves (hplain : PlainTimes) (h : Tracks X n received s) (hr : Resolves s t) : Tracks X n received t := by
  refine ⟨hr.stationId ▸ h.id, ?_, fun hid => hr.seqnum ▸ h.held (hr.stationId ▸ hid)⟩
  rcases hr with rfl | rfl
  · exact h.time
  · exact unbroken_resolveTimestamp hplain h.time

theorem noteArrival (h : Tracks X n received s) (pkt : SeedLinkPacket) :
    Tracks X n (received ++ [pkt]) (Base.noteArrival pkt s) := by
  unfold Base.noteArrival
  split
  · rename_i hmatch
    refine ⟨h.id, h.time, fun hid => ?_⟩
    obtain ⟨k, hk⟩ := Option.isSome_iff_exists.1 hmatch.1
    have hfor : IsFor X pkt := Eq.trans (Op.matchesId_congr hid.symm) hmatch.2
    exact ⟨k, hk, .inr ⟨pkt, by simp, hfor, hk⟩⟩
  · exact h.mono [pkt]

/-- The streams when some of the assignments have been made. -/
theorem upTo {old new : List Stream} {k : Nat} (hids : new.map (·.stationId) = old.map (·.stationId))
    (hold : ∀ s ∈ old, Tracks X n received s) (hnew : ∀ s ∈ new, Tracks X n received s) :
    ∀ s ∈ Cli.upTo k old new, Tracks X n received s := by
  intro s hs
  obtain ⟨i, a, b, ha, hb, hid, htime, hseq, -⟩ := mem_upTo hids hs
  have hta := hold a (List.mem_of_getElem? ha)
  have htb := hnew b (List.mem_of_getElem? hb)
  refine ⟨hid.1 ▸ hta.id, ?_, fun hX => ?_⟩
  · rcases htime with ht | ht <;> rw [ht]
    · exact hta.time
    · exact htb.time
  · rcases hseq with hq | hq <;> rw [hq]
    · exact hta.held (hid.1 ▸ hX)
    · exact htb.held (hid.2 ▸ hX)

end Tracks

/-- What is put into a stream from the recovered state. -/
theorem tracks_applyRecoveredState {recovered : RecoveredState} {timestamp : Option Text}
    (hentry : recovered.lookup X = some (some n, timestamp))
    (htimes : ∀ y pos, recovered.lookup y = some pos → Unbroken pos.2)
    (hid : s.stationId = X ∨ ¬ Mistakable X s.stationId) (htime : Unbroken s.timestamp) :
    Tracks X n received (Base.applyRecoveredState recovered s) := by
  refine ⟨by rwa [stationId_applyRecoveredState], ?_, fun hX => ?_⟩
  · unfold Base.applyRecoveredState
    split
    · rename_i saved hsaved
      exact htimes _ saved hsaved
    · exact htime
  · rw [stationId_applyRecoveredState] at hX
    rw [Base.applyRecoveredState, hX, hentry]
    exact ⟨n, rfl, .inl rfl⟩

end streams

/-! ### Selections -/

section selections
variable [Externals] {X : Text} {n : Int} {received : List SeedLinkPacket} {b b' : Base}

/-- The position `n` of `X` has been recovered, and the streams for `X` have moved on from it only. -/
structure Secured (X : Text) (n : Int) (received : List SeedLinkPacket) (b : Base) : Prop where
  cacheOk : b.CacheOk
  entry : ∃ timestamp, b.recoveredState.lookup X = some (some n, timestamp)
  times : ∀ y pos, b.recoveredState.lookup y = some pos → Unbroken pos.2
  streams : ∀ s ∈ b.streams, Tracks X n received s

namespace Secured

/-- Streams with the same IDs take the place of the old ones. -/
theorem congr (h : Secured X n received b) (hids : b'.streams.map (·.stationId) = b.streams.map (·.stationId))
    (hcache : b'.matchCache = b.matchCache) (hrec : b'.recoveredState = b.recoveredState)
    {received' : List SeedLinkPacket} (hstreams : ∀ s ∈ b'.streams, Tracks X n received' s) :
    Secured X n received' b' :=
  ⟨h.cacheOk.congr hcache hids, hrec ▸ h.entry, hrec ▸ h.times, hstreams⟩

theorem prepareNegotiation (hplain : PlainTimes) (h : Secured X n received b) {args : NegotiationArgs} :
    Secured X n received (b.prepareNegotiation args).2 := by
  have hdefault : ∀ s ∈ b.ensureDefaultStream.streams, Tracks X n received s := by
    intro s hs
    unfold Base.ensureDefaultStream at hs
    split at hs
    · obtain rfl := List.mem_singleton.1 hs
      obtain ⟨timestamp, hentry⟩ := h.entry
      refine tracks_applyRecoveredState hentry h.times ?_ nofun
      by_cases hX : ['*'] = X
      · exact .inl hX
      · exact .inr (not_mistakable (by decide) hX)
    · exact h.streams s hs
  refine ⟨Base.cacheOk_of_matchCache_eq_empty Base.prepareNegotiation_matchCache, ?_, ?_, fun s hs => ?_⟩
  · rw [Base.prepareNegotiation_recoveredState]
    exact h.entry
  · rw [Base.prepareNegotiation_recoveredState]
    exact h.times
  · obtain ⟨s₀, hs₀, hr⟩ := exists_of_forall₂ Base.resolves_prepareNegotiation.flip hs
    exact (hdefault s₀ hs₀).resolves hplain hr

theorem updateStreamState (h : Secured X n received b) (pkt : SeedLinkPacket) :
    Secured X n (received ++ [pkt]) (b.updateStreamState pkt) := by
  refine ⟨h.cacheOk.updateStreamState pkt, ?_, ?_, fun s hs => ?_⟩
  · rw [Base.updateStreamState_rest]
    exact h.entry
  · rw [Base.updateStreamState_rest]
    exact h.times
  · rw [h.cacheOk.streams_updateStreamState, List.mem_map] at hs
    obtain ⟨s₀, hs₀, rfl⟩ := hs
    exact (h.streams s₀ hs₀).noteArrival pkt

end Secured

/-- A pass of `collect` keeps the position, and leaves the list of streams as long as it was when it
yields a packet. -/
theorem Secured.evolves (hplain : PlainTimes) {c c' : Client} {pkt : Option SeedLinkPacket}
    (h : Secured X n received c.base) (he : c.Evolves pkt c') : Secured X n (received ++ pkt.toList) c'.base := by
  rcases he with h₁ | ⟨h₁, h₂⟩ | h₁
  · rw [h₁.base]
    simpa using h
  · rw [h₂.base]
    simp only [Option.toList_none, List.append_nil]
    exact Secured.prepareNegotiation hplain (h₁.base ▸ h)
  · rw [h₁.base]
    exact h.updateStreamState _

end selections

/-! ### The state file of a run -/

section run
variable [Externals] {X : Text} {n : Int} {m : Mishaps} {args : Args} {p p' : Process} {c c' : Client}
  {pkt : Option SeedLinkPacket}

/-- The state file has a position for `X` that is still good. -/
def Process.Records (X : Text) (n : Int) (p : Process) : Prop :=
  Numbered X p.received → ∃ pos, p.recorded X = some pos ∧ Held X n p.received pos.1

/-- As long as no stream is configured, or when `X` is, the state file has its position. -/
structure Safe (X : Text) (n : Int) (p : Process) : Prop where
  secured : Secured X n p.received p.client.base
  records : p.stationIds = [] ∨ X ∈ p.stationIds → p.Records X n

theorem stationIds_of_evolves (h : c.Evolves pkt c') : c.base.streams = [] ∧ pkt = none ∨
    c'.base.streams.map (·.stationId) = c.base.streams.map (·.stationId) := by
  rcases h with h₁ | ⟨h₁, h₂⟩ | h₁
  · exact .inr (by rw [h₁.base])
  · by_cases hnil : c.base.streams = []
    · exact .inl ⟨hnil, rfl⟩
    · right
      rw [h₂.base, Client.prepared, h₁.base]
      refine (Resolves.stationIds Base.resolves_prepareNegotiation).trans ?_
      rw [Base.ensureDefaultStream_streams, if_neg hnil]
  · right
    rw [h₁.base]
    exact Base.stationIds_updateStreamState _

theorem Process.Records.mono (h : p.Records X n) (hfile : p'.file = p.file) {more : List SeedLinkPacket}
    (hrec : p'.received = p.received ++ more) : p'.Records X n := by
  intro hnum
  rw [hrec] at hnum
  obtain ⟨pos, hpos, hheld⟩ := h fun pkt hpkt => hnum pkt (List.mem_append_left _ hpkt)
  refine ⟨pos, ?_, hrec ▸ hheld.mono more⟩
  rw [recorded, hfile]
  exact hpos

theorem Process.Records.congr (h : p.Records X n) (hfile : p'.file = p.file) (hrec : p'.received = p.received) :
    p'.Records X n :=
  Process.Records.mono h hfile (hrec.trans (List.append_nil _).symm)

namespace Safe

theorem evolves (hplain : PlainTimes) (h : Safe X n p) (he : p.client.Evolves pkt c) :
    Safe X n { p with client := c, received := p.received ++ pkt.toList } := by
  refine ⟨h.secured.evolves hplain he, fun hids => Process.Records.mono (p := p) (h.records ?_) rfl rfl⟩
  rcases stationIds_of_evolves he with ⟨hnil, -⟩ | heq
  · exact .inl (List.map_eq_nil_iff.2 hnil)
  · rwa [Process.stationIds, heq] at hids

/-- Nothing that counts changes but the time and the connection. -/
theorem congr (h : Safe X n p) (hbase : p'.client.base = p.client.base) (hfile : p'.file = p.file)
    (hrec : p'.received = p.received) : Safe X n p' := by
  refine ⟨by rw [hbase, hrec]; exact h.secured, fun hids => ?_⟩
  rw [Process.stationIds, hbase] at hids
  exact (h.records hids).congr hfile hrec

/-- The streams as a save leaves them. -/
theorem resolves (hplain : PlainTimes) (h : Safe X n p) {streams : List Stream}
    (hr : List.Forall₂ Resolves p.client.base.streams streams) :
    Secured X n p.received { p.client.base with streams } := by
  have hids : ({ p.client.base with streams } : Base).streams.map (·.stationId) =
      p.client.base.streams.map (·.stationId) := Resolves.stationIds hr
  refine h.secured.congr hids rfl rfl fun s hs => ?_
  obtain ⟨s₀, hs₀, hr⟩ := exists_of_forall₂ hr.flip hs
  exact (h.secured.streams s₀ hs₀).resolves hplain hr

end Safe

/-- A position that a file may have for a station. -/
structure Savable (X : Text) (n : Int) : Prop where
  word : Text.Word X
  plain : X.head? ≠ some '#'
  number : n ≠ -1

/-- A save writes the positions, or nothing. -/
theorem wp_saveState (hplain : PlainTimes) (hX : Savable X n) (h : Safe X n p) (hne : p.stationIds ≠ []) :
    wp (saveState m) (fun _ p' => Safe X n p' ∧ p'.stationIds = p.stationIds)
      (fun _ p' => Safe X n p' ∧ p'.stationIds = p.stationIds) p := by
  have hr := @resolves_saveState _ (m.faults p.saves) p.client.base.streams
  have hids := Resolves.stationIds hr
  simp only [saveState, wp_bind, wp_get, Base.saveState]
  cases hsave : (SeedLink.saveState (m.faults p.saves) p.client.base.streams).1 with
  | error e =>
    simp only [wp_bind, wp_set, wp_throw]
    refine ⟨⟨h.resolves hplain hr, fun hmem => ?_⟩, hids⟩
    rw [Process.stationIds, hids] at hmem
    exact h.records hmem
  | ok text =>
    simp only [wp_set]
    refine ⟨⟨h.resolves hplain hr, fun hmem hnum => ?_⟩, hids⟩
    rw [Process.stationIds, hids] at hmem
    obtain ⟨s, hs, hid⟩ := List.mem_map.1 (hmem.resolve_left hne)
    refine lookup_saveState hsave hX.word hX.plain ⟨s, hs, hid⟩ (fun s hs hid => ?_)
      (fun s hs => (h.secured.streams s hs).id) fun s hs =>
        unbroken_resolveTimestamp hplain (h.secured.streams s hs).time
    have hheld := (h.secured.streams s hs).held hid
    exact ⟨hheld.ne hX.number hnum, hheld⟩

/-- Some of the streams of a packet have been updated. -/
theorem Safe.upTo (h : Safe X n p) {old : List Stream} {k : Nat}
    (hids : p.client.base.streams.map (·.stationId) = old.map (·.stationId))
    (htracks : ∀ s ∈ Cli.upTo k old p.client.base.streams, Tracks X n p.received s) :
    Safe X n { p with client := { p.client with base :=
      { p.client.base with streams := Cli.upTo k old p.client.base.streams } } } := by
  have hids' : ({ p.client.base with streams := Cli.upTo k old p.client.base.streams } : Base).streams.map
      (·.stationId) = p.client.base.streams.map (·.stationId) :=
    (stationIds_upTo (by simpa using congrArg List.length hids)).trans hids.symm
  refine ⟨h.secured.congr hids' rfl rfl htracks, fun hmem => ?_⟩
  rw [Process.stationIds, hids'] at hmem
  exact h.records hmem

/-- Its streams may be half updated: then some have the position of the packet and some the old one. -/
theorem wp_note {i : Nat} {pkt : SeedLinkPacket} {old : List Stream}
    (h : Safe X n { p with received := p.received ++ [pkt] })
    (hids : p.client.base.streams.map (·.stationId) = old.map (·.stationId))
    (hold : ∀ s ∈ old, Tracks X n p.received s) :
    wp (note m i old pkt) (fun _ p' => Safe X n p' ∧ p'.stationIds = p.stationIds) (fun _ => Safe X n) p := by
  simp only [note, wp_bind, wp_modify]
  split
  · exact ⟨h, rfl⟩
  · simp only [wp_bind, wp_get, setStreams, wp_modify, wp_throw]
    exact h.upTo hids (Tracks.upTo hids (fun s hs => (hold s hs).mono [pkt]) h.secured.streams)

theorem wp_strikeDefault (h : Safe X n p) (hdefault : p.stationIds = [] → m.strike .defaulting = none) :
    wp (strikeDefault m) (fun _ p' => p' = p) (fun _ => Safe X n) p := by
  refine wp_strikeDefault_of fun e he => ?_
  split
  · rename_i hnil
    have := hdefault (by simpa [Process.stationIds] using hnil)
    rw [he] at this
    cases this
  · exact h

theorem wp_receive (hplain : PlainTimes) {i : Nat} {g : Collect} (h : Safe X n p)
    (hdefault : g = .start → p.stationIds = [] → m.strike .defaulting = none) :
    wp (receive m i g) (fun _ p' => Safe X n p' ∧ (p.stationIds ≠ [] → p'.stationIds ≠ []))
      (fun _ => Safe X n) p := by
  have hmoved : ∀ {c}, p.client.Evolves none c → Safe X n { p with client := c } := fun he =>
    (h.evolves hplain he).congr rfl rfl (List.append_nil _).symm
  refine wp_receive_of (fun hg => wp_strikeDefault h (hdefault hg)) ?_
  refine wp_await (wp_mono (wp_collectStep_base true g) (fun r c he => ?_) fun stop c he => ?_)
  · have hids := stationIds_of_evolves he
    constructor
    · intro hnone
      rw [hnone] at he
      refine ⟨hmoved he, fun hne hnil => hne ?_⟩
      rcases hids with ⟨hnil', -⟩ | heq
      · exact List.map_eq_nil_iff.2 hnil'
      · exact heq.symm.trans hnil
    · intro pkt hpkt
      rw [hpkt] at he hids
      have heq := hids.resolve_left fun hnone => Option.some_ne_none _ hnone.2
      refine wp_mono (wp_note (h.evolves hplain he) heq h.secured.streams)
        (fun _ p' hp' => ⟨hp'.1, fun hne hnil => hne ?_⟩) fun _ _ h => h
      exact heq.symm.trans (hp'.2.symm.trans hnil)
  · rcases stop with e | _
    · exact hmoved he
    · exact ⟨hmoved he, fun _ => hmoved he⟩

/-- A client whose position is safe, with streams to save. -/
def Busy (X : Text) (n : Int) (p : Process) : Prop := Safe X n p ∧ p.stationIds ≠ []

theorem Busy.congr (h : Busy X n p) (hbase : p'.client.base = p.client.base) (hfile : p'.file = p.file)
    (hrec : p'.received = p.received) : Busy X n p' := by
  refine ⟨h.1.congr hbase hfile hrec, ?_⟩
  rw [Process.stationIds, hbase]
  exact h.2

theorem wp_saveIfDue (hplain : PlainTimes) (hX : Savable X n) {i : Nat} {lastSave : Int} (h : Busy X n p) :
    wp (saveIfDue args m i lastSave) (fun _ => Busy X n) (fun _ => Busy X n) p := by
  have hsaved : ∀ {p' : Process}, Safe X n p' ∧ p'.stationIds = p.stationIds → Busy X n p' := fun hp' =>
    ⟨hp'.1, hp'.2 ▸ h.2⟩
  have hticked : Busy X n { p with client := { p.client with ticks := p.client.ticks + 1 } } := h.congr rfl rfl rfl
  simp only [saveIfDue, wp_bind, wp_ite, wp_onClient, wp_monotonic, wp_pure]
  split
  · split
    · refine wp_mono (wp_saveState hplain hX hticked.1 hticked.2) (fun _ p' hp' => ?_) fun _ p' hp' => hsaved hp'
      exact wp_strike (fun _ _ => hsaved hp') fun _ => (hsaved hp').congr rfl rfl rfl
    · exact hticked
  · exact h

theorem wp_handlePacket (hplain : PlainTimes) (hX : Savable X n) {i : Nat} {lastSave : Int} {pkt : SeedLinkPacket}
    (h : Busy X n p) : wp (handlePacket args m i lastSave pkt) (fun _ => Busy X n) (fun _ => Busy X n) p := by
  simp only [handlePacket, dump, wp_bind, wp_ite, wp_modify, wp_pure]
  refine wp_strikePrint (fun _ _ _ => h) ?_
  split
  · refine wp_strike (fun _ _ => h) fun _ => ?_
    have hdumped : Busy X n { p with buffered := p.buffered ++ [pkt.payload] } := h.congr rfl rfl rfl
    exact wp_strike (fun _ _ => hdumped) fun _ => wp_saveIfDue hplain hX hdumped
  · exact wp_strike (fun _ _ => h) fun _ => wp_saveIfDue hplain hX h

/-- The loop, from a pass on at which streams are configured. -/
theorem wp_stream (hplain : PlainTimes) (hX : Savable X n) :
    ∀ (fuel i : Nat) (g : Collect) (lastSave : Int) (p : Process), Busy X n p →
      wp (stream args m fuel i g lastSave) (fun _ => Safe X n) (fun _ => Safe X n) p
  | 0, _, _, _, _, h => h.1
  | fuel + 1, i, g, lastSave, p, h => by
    rw [stream, wp_bind]
    refine wp_strike (fun _ _ => h.1) fun _ => ?_
    rw [wp_bind]
    refine wp_mono (wp_receive hplain h.1 fun _ hnil => absurd hnil h.2) ?_ fun _ _ h => h
    rintro ⟨_ | pkt, g⟩ p' hp'
    · simp only [wp_ite]
      split
      · exact hp'.1
      · exact wp_stream hplain hX fuel _ _ _ _ ⟨hp'.1, hp'.2 h.2⟩
    · simp only [wp_bind]
      exact wp_mono (wp_handlePacket hplain hX ⟨hp'.1, hp'.2 h.2⟩)
        (fun _ p'' h'' => wp_stream hplain hX fuel _ _ _ _ h'') fun _ _ h => h.1

/-- The first pass negotiates, after which there is a stream. -/
theorem wp_collectStart (hst : c.streaming = false) :
    wp (collectStep true .start) (fun r c' => r.1 = none ∧ c'.base.streams ≠ []) (fun _ _ => True) c := by
  have hnegotiated : c.prepared.2.streams ≠ [] := by
    have hlen := @Base.prepareNegotiation_length _ c.negotiationArgs c.base
    rw [← Client.prepared, Base.ensureDefaultStream_streams] at hlen
    intro hnil
    rw [hnil] at hlen
    split at hlen
    · cases hlen
    · rename_i hne
      exact hne (List.length_eq_zero_iff.1 hlen.symm)
  simp only [collectStep, wp_bind, wp_get, wp_ite, hst, Bool.not_false, if_true, wp_pure]
  refine wp_mono wp_negotiate_base (fun _ c' h => ?_) fun _ _ _ => trivial
  refine wp_enterLoop fun last next ticks => ⟨trivial, ?_⟩
  show c'.base.streams ≠ []
  rwa [h.base]

theorem wp_receive_start {i : Nat} (hst : p.client.streaming = false) :
    wp (receive m i .start) (fun r p' => r.1 = none ∧ p'.stationIds ≠ []) (fun _ _ => True) p := by
  refine wp_receive_of (fun _ => wp_strikeDefault_of fun _ _ => by split <;> trivial) ?_
  refine wp_await (wp_mono (wp_collectStart hst) (fun r c' h => ?_) fun stop _ _ => ?_)
  · obtain ⟨pkt, g⟩ := r
    obtain ⟨rfl, hne⟩ := h
    exact ⟨fun _ => ⟨rfl, fun hnil => hne (List.map_eq_nil_iff.1 hnil)⟩, fun pkt hpkt => by cases hpkt⟩
  · rcases stop with e | _
    · trivial
    · exact ⟨trivial, fun _ => trivial⟩

theorem wp_stream_start (hplain : PlainTimes) (hX : Savable X n) {fuel i : Nat} {lastSave : Int} (h : Safe X n p)
    (hst : p.client.streaming = false) (hdefault : p.stationIds = [] → m.strike .defaulting = none) :
    wp (stream args m fuel i .start lastSave) (fun _ => Safe X n) (fun _ => Safe X n) p := by
  rcases fuel with _ | fuel
  · exact h
  rw [stream, wp_bind]
  refine wp_strike (fun _ _ => h) fun _ => ?_
  rw [wp_bind]
  refine wp_mono (wp_and (wp_receive hplain h fun _ => hdefault) (wp_receive_start hst)) ?_ fun _ _ h => h.1
  rintro ⟨_ | pkt, g⟩ p' ⟨hp', hnone, hne⟩
  · simp only [wp_ite]
    split
    · exact hp'.1
    · exact wp_stream hplain hX fuel _ _ _ _ ⟨hp'.1, hne⟩
  · cases hnone

/-! ### Configuring -/

/-- The streams that the options name. -/
def Args.configured (args : Args) : List Stream :=
  if truthy args.streams then parseStreamlist (args.streams.getD []) args.selectors
  else
    match args.listFile with
    | some (.ok content) => readStreamlistFile content args.selectors
    | some (.error _) => []
    | none =>
      if truthy args.selectors then
        [{ stationId := ['*'], selectors := Base.Selectors.toList (some (.text (args.selectors.getD []))) }]
      else []

omit [Externals] in
theorem timestamp_of_configured {s : Stream} (h : s ∈ args.configured) : s.timestamp = none := by
  unfold Args.configured at h
  split at h
  · obtain ⟨entry, -, he⟩ := List.mem_filterMap.1 h
    unfold parseStreamlistEntry at he
    simp only at he
    split at he <;> cases he
    rfl
  · split at h
    · obtain ⟨line, -, hl⟩ := List.mem_filterMap.1 h
      unfold readStreamlistLine at hl
      simp only at hl
      split at hl <;> cases hl <;> rfl
    · cases h
    · split at h
      · obtain rfl := List.mem_singleton.1 h
        rfl
      · cases h

omit [Externals] in
@[simp] theorem wp_onBase {x : BaseM Unit} {Q : Unit → Client → Prop} {E : Stop → Client → Prop} :
    wp (onBase x) Q E c = wp x (fun a b => Q a { c with base := b }) (fun e b => E (.raised e) { c with base := b })
      c.base := by
  unfold wp onBase
  cases x c.base <;> rfl

omit [Externals] in
theorem wp_selectStreams : wp (selectStreams args) (fun _ b => b.streams = args.configured ∧ b.recoveredState = ∅ ∧
    b.matchCache = ∅) (fun _ b => b = {}) {} := by
  have hmap : ∀ streams : List Stream, streams.map (Base.applyRecoveredState ∅) = streams := by
    intro streams
    rw [show Base.applyRecoveredState ∅ = id from funext fun _ => applyRecoveredState_empty, List.map_id]
  unfold selectStreams Args.configured
  split
  · exact ⟨by simp [Base.extend, hmap], rfl, rfl⟩
  · split
    · rename_i content hlist
      rw [hlist]
      rcases content with e | content
      · rfl
      · exact ⟨by simp [Base.extend, hmap], rfl, rfl⟩
    · rename_i hlist
      split
      · exact ⟨by simp [hlist], rfl, rfl⟩
      · exact ⟨by simp [hlist], rfl, rfl⟩

/-- No other station ID that the options name can be mistaken for `X`. -/
def Args.Unmistaken (args : Args) (X : Text) : Prop :=
  ∀ s ∈ args.configured, s.stationId = X ∨ ¬ Mistakable X s.stationId

/-- Nothing goes wrong between configuring the streams and recovering their positions. -/
structure Mishaps.Spares (m : Mishaps) (args : Args) (X : Text) : Prop where
  selected : args.configured ≠ [] → m.strike .selected = none
  window : args.configured ≠ [] → truthy args.timewindow = true →
    ∃ dt, args.window.1.resolve = .ok dt ∧ ∀ t ∈ args.window.2, ∃ dt, t.resolve = .ok dt
  reading : ∀ e, m.strike .reading = some e → args.configured = [] ∧ e.isOSError = false
  recovering : ∀ k e, m.recovering = some (k, e) → ∀ i s, args.configured[i]? = some s → s.stationId = X → 2 * i < k
  defaulting : args.configured = [] → m.strike .defaulting = none

/-- The streams are configured; none has a position yet. -/
structure Selected (args : Args) (X : Text) (n : Int) (p : Process) : Prop where
  streams : p.client.base.streams = args.configured
  recovered : p.client.base.recoveredState = ∅
  cacheOk : p.client.base.CacheOk
  received : p.received = []
  streaming : p.client.streaming = false
  recorded : ∃ timestamp, p.recorded X = some (some n, timestamp)

theorem Selected.records (h : Selected args X n p) : p.Records X n := by
  obtain ⟨timestamp, hrec⟩ := h.recorded
  exact fun _ => ⟨_, hrec, n, rfl, .inl rfl⟩

/-- The streams have their positions, or there are none and the file is as it was. -/
def Ends (X : Text) (n : Int) (p : Process) : Prop := (p.stationIds = [] ∧ p.Records X n) ∨ Safe X n p

/-- All the positions have been recovered. -/
theorem Selected.recover {text : Text} (h : Selected args X n p) (hfile : p.file = some text)
    (hids : args.Unmistaken X) :
    Safe X n { p with client := { p.client with base := { p.client.base with
      streams := p.client.base.streams.map (Base.applyRecoveredState
        (loadState (Text.universalNewlines text) ∪ p.client.base.recoveredState)),
      recoveredState := loadState (Text.universalNewlines text) ∪ p.client.base.recoveredState } } } := by
  obtain ⟨timestamp, hrec⟩ := h.recorded
  rw [Process.recorded, hfile, Option.bind_some] at hrec
  have hentry : (loadState (Text.universalNewlines text) ∪ p.client.base.recoveredState).lookup X =
      some (some n, timestamp) := by
    rw [AList.lookup_union_left (AList.lookup_isSome.1 (by rw [hrec]; rfl)), hrec]
  have htimes : ∀ y pos, (loadState (Text.universalNewlines text) ∪ p.client.base.recoveredState).lookup y =
      some pos → Unbroken pos.2 := by
    intro y pos hy
    rw [h.recovered, AList.union_empty] at hy
    exact fun t ht => ((loadState_spec hy).2.2 t ht).noSpace
  refine ⟨⟨h.cacheOk.congr rfl ?_, ⟨timestamp, hentry⟩, htimes, fun s hs => ?_⟩, fun _ => h.records.congr rfl rfl⟩
  · simp [List.map_map, Function.comp_def]
  · obtain ⟨s₀, hs₀, rfl⟩ := List.mem_map.1 hs
    rw [h.streams] at hs₀
    refine tracks_applyRecoveredState hentry htimes (hids s₀ hs₀) ?_
    rw [timestamp_of_configured hs₀]
    nofun

/-- Streaming may begin. -/
structure Ready (args : Args) (X : Text) (n : Int) (p : Process) : Prop where
  safe : Safe X n p
  streaming : p.client.streaming = false
  none : p.stationIds = [] → args.configured = []

theorem wp_recoverState (hspares : m.Spares args X) (hids : args.Unmistaken X) (h : Selected args X n p) :
    wp (recoverState m) (fun _ => Ready args X n) (fun stop p' =>
      ∃ e, stop = .raised e ∧ (e.isOSError = true → Ready args X n p') ∧ Ends X n p') p := by
  rw [recoverState, wp_bind]
  refine wp_strike (fun e he => ?_) fun _ => ?_
  · obtain ⟨hnil, hos⟩ := hspares.reading e he
    refine ⟨e, rfl, fun hos' => absurd hos' (by simp [hos]), .inl ⟨?_, h.records⟩⟩
    rw [Process.stationIds, h.streams, hnil, List.map_nil]
  rw [wp_bind, wp_get]
  have hfile : ∃ text, p.file = some text := by
    obtain ⟨timestamp, hrec⟩ := h.recorded
    exact (Option.bind_eq_some_iff.1 hrec).imp fun _ h => h.1
  obtain ⟨text, hfile⟩ := hfile
  have hsafe := h.recover hfile hids
  have hstationIds : (p.client.base.streams.map (Base.applyRecoveredState
      (loadState (Text.universalNewlines text) ∪ p.client.base.recoveredState))).map (·.stationId) =
        p.client.base.streams.map (·.stationId) := by
    simp [List.map_map, Function.comp_def]
  have hnone : ∀ streams : List Stream, streams.map (·.stationId) = p.client.base.streams.map (·.stationId) →
      streams.map (·.stationId) = [] → args.configured = [] := by
    intro streams hstreams hnil
    rw [hstreams, h.streams] at hnil
    exact List.map_eq_nil_iff.1 hnil
  simp only [hfile]
  rw [wp_bind, wp_onClient, wp_onBase]
  split
  · exact ⟨hsafe, h.streaming, hnone _ hstationIds⟩
  · rename_i k e hrecovering
    simp only [wp_bind, wp_get, setStreams, wp_modify, wp_throw]
    have hupTo := hsafe.upTo hstationIds (k := k) fun s hs => by
      obtain ⟨i, a, b, ha, hb, hid, htime, -, hlast⟩ := mem_upTo hstationIds hs
      have hb' := hsafe.secured.streams b (List.mem_of_getElem? hb)
      rw [h.streams] at ha
      refine ⟨hid.2 ▸ hb'.id, ?_, fun hX => ?_⟩
      · rcases htime with ht | ht
        · rw [ht, timestamp_of_configured (List.mem_of_getElem? ha)]
          rintro t ⟨⟩
        · rw [ht]
          exact hb'.time
      · rw [hlast (hspares.recovering k e hrecovering i a ha (hid.1 ▸ hX))]
        exact hb'.held (hid.2 ▸ hX)
    exact ⟨e, rfl, fun _ => ⟨hupTo, h.streaming, hnone _ (stationIds_upTo (by simp))⟩, .inr hupTo⟩

/-- Setting the time window changes no stream; it fails when a time cannot be read. -/
theorem wp_setTimewindow {b : Base} {start : Base.TimeArg} {stop : Option Base.TimeArg} :
    wp (Base.setTimewindow start stop) (fun _ b' => ∃ startTime endTime, b' = { b with startTime, endTime })
      (fun _ b' => (∃ startTime endTime, b' = { b with startTime, endTime }) ∧
        ¬ ∃ dt, start.resolve = .ok dt ∧ ∀ t ∈ stop, ∃ dt, t.resolve = .ok dt) b := by
  unfold wp Base.setTimewindow
  cases hstart : start.resolve with
  | error e =>
    refine ⟨⟨_, _, rfl⟩, ?_⟩
    rintro ⟨dt, hdt, -⟩
    cases hdt
  | ok dt =>
    simp only
    cases stop with
    | none => exact ⟨_, _, rfl⟩
    | some stop =>
      cases hstop : stop.resolve with
      | ok dt' =>
        simp only [Option.map_some, hstop]
        exact ⟨_, _, rfl⟩
      | error e =>
        simp only [Option.map_some, hstop]
        refine ⟨⟨_, _, rfl⟩, ?_⟩
        rintro ⟨_, -, hall⟩
        obtain ⟨dt', hdt'⟩ := hall stop rfl
        rw [hstop] at hdt'
        cases hdt'

/-- A client that has just been connected. -/
structure Fresh (X : Text) (n : Int) (p : Process) : Prop where
  base : p.client.base = {}
  streaming : p.client.streaming = false
  received : p.received = []
  recorded : ∃ timestamp, p.recorded X = some (some n, timestamp)

theorem Fresh.ends (h : Fresh X n p) : Ends X n p := by
  obtain ⟨timestamp, hrec⟩ := h.recorded
  refine .inl ⟨?_, fun _ => ⟨_, hrec, n, rfl, .inl rfl⟩⟩
  rw [Process.stationIds, h.base]
  rfl

theorem Selected.ends (h : Selected args X n p) (hnil : args.configured = []) : Ends X n p := by
  refine .inl ⟨?_, h.records⟩
  rw [Process.stationIds, h.streams, hnil]
  rfl

theorem wp_configureStreams (hstate : truthy args.statefile = true) (hspares : m.Spares args X)
    (hids : args.Unmistaken X) (h : Fresh X n p) :
    wp (configureStreams args m) (fun _ => Ready args X n) (fun _ => Ends X n) p := by
  rw [configureStreams, wp_bind]
  refine wp_strike (fun _ _ => h.ends) fun _ => ?_
  rw [wp_bind, wp_onClient, wp_onBase, h.base]
  refine wp_mono wp_selectStreams (fun _ b hb => ?_) fun e b hb => ?_
  · have hsel : Selected args X n { p with client := { p.client with base := b } } :=
      ⟨hb.1, hb.2.1, Base.cacheOk_of_matchCache_eq_empty hb.2.2, h.received, h.streaming, h.recorded⟩
    rw [wp_bind]
    refine wp_strike (fun e he => ?_) fun _ => ?_
    · by_cases hnil : args.configured = []
      · exact hsel.ends hnil
      · rw [hspares.selected hnil] at he
        cases he
    have hrecover : ∀ p', Selected args X n p' →
        wp (recoverPositions args m) (fun _ => Ready args X n) (fun _ => Ends X n) p' := by
      intro p' h'
      rw [recoverPositions, if_pos hstate, wp_catching]
      refine wp_mono (wp_recoverState hspares hids h') (fun _ _ h => h) ?_
      rintro _ p'' ⟨e, rfl, hos, hends⟩
      simp only
      split
      · rename_i he
        exact hos he
      · exact hends
    rw [wp_bind, setTimewindow]
    split
    · rename_i hwindow
      rw [wp_catching, wp_onClient, wp_onBase]
      refine wp_mono wp_setTimewindow ?_ ?_
      · rintro _ _ ⟨startTime, endTime, rfl⟩
        exact hrecover _ ⟨hsel.streams, hsel.recovered, hsel.cacheOk, hsel.received, hsel.streaming, hsel.recorded⟩
      · rintro e _ ⟨⟨startTime, endTime, rfl⟩, hno⟩
        have hends : Ends X n { p with client := { p.client with base := { b with startTime, endTime } } } := by
          by_cases hnil : args.configured = []
          · exact Selected.ends (p := { p with client := { p.client with base := { b with startTime, endTime } } })
              ⟨hsel.streams, hsel.recovered, hsel.cacheOk, hsel.received, hsel.streaming, hsel.recorded⟩ hnil
          · exact absurd (hspares.window hnil hwindow) hno
        simp only
        split
        · exact hends
        · exact hends
    · exact hrecover _ hsel
  · obtain rfl := hb
    exact Fresh.ends ⟨rfl, h.streaming, h.received, h.recorded⟩

/-! ### The whole run -/

theorem Ends.congr (h : Ends X n p) (hbase : p'.client.base = p.client.base) (hfile : p'.file = p.file)
    (hrec : p'.received = p.received) : Ends X n p' := by
  rcases h with ⟨hnil, hrecords⟩ | hsafe
  · refine .inl ⟨?_, hrecords.congr hfile hrec⟩
    rw [Process.stationIds, hbase]
    exact hnil
  · exact .inr (hsafe.congr hbase hfile hrec)

theorem wp_leave (hplain : PlainTimes) (hX : Savable X n) (h : Ends X n p) :
    wp (leave args m) (fun _ => Ends X n) (fun _ => Ends X n) p := by
  rw [leave, wp_bind]
  refine wp_strike (fun _ _ => h) fun _ => ?_
  have hclose : ∀ p', Ends X n p' →
      wp (do strike m .left; onClient close) (fun _ => Ends X n) (fun _ => Ends X n) p' := by
    intro p' h'
    rw [wp_bind]
    refine wp_strike (fun _ _ => h') fun _ => ?_
    rw [wp_onClient, wp_close]
    exact h'.congr rfl rfl rfl
  rw [wp_bind, saveAtEnd, wp_bind, wp_get]
  split
  · rename_i hsave
    have hne : p.stationIds ≠ [] := by
      rw [Process.stationIds, Ne, List.map_eq_nil_iff]
      simpa using (Bool.and_eq_true_iff.1 hsave).2
    have hsafe : Safe X n p := h.resolve_left fun hnil => hne hnil.1
    rw [wp_catching]
    refine wp_mono (wp_saveState hplain hX hsafe hne) (fun _ p' hp' => hclose p' (.inr hp'.1)) fun stop p' hp' => ?_
    rcases stop with e | _
    · simp only
      split
      · exact hclose p' (.inr hp'.1)
      · exact .inr hp'.1
    · exact .inr hp'.1
  · exact hclose p h

theorem Fresh.ends_of_base (h : Fresh X n p) (hbase : c.base = p.client.base) : Ends X n { p with client := c } :=
  h.ends.congr hbase rfl rfl

theorem wp_session (hplain : PlainTimes) (hX : Savable X n) (hstate : truthy args.statefile = true)
    (hspares : m.Spares args X) (hids : args.Unmistaken X)
    (h : Fresh X n p) {fuel : Nat} : wp (session args m fuel) (fun _ => Ends X n) (fun _ => Ends X n) p := by
  have hwaits : ∀ {p : Process} {α : Type} {place : Place} {x : ClientM α} {Q : α → Process → Prop}, Fresh X n p →
      wp x (fun a c => Q a { p with client := c }) (fun _ c => c.base = p.client.base) p.client →
      wp (await m place x) Q (fun _ => Ends X n) p := by
    intro p α place x Q h hx
    refine wp_await (wp_mono hx (fun _ _ h => h) fun stop c hc => ?_)
    rcases stop with e | _
    · exact h.ends_of_base hc
    · exact ⟨h.ends_of_base hc, fun _ => h.ends_of_base hc⟩
  rw [session, wp_bind]
  refine hwaits h (wp_mono (wp_and (steady.connect true _) (idle_connect true _)) (fun _ c hc => ?_)
    fun _ c hc => hc.1.base)
  have hfresh : Fresh X n { p with client := c } :=
    ⟨hc.1.base.trans h.base, hc.2 h.streaming, h.received, h.recorded⟩
  rw [wp_bind]
  refine wp_strikePrint (fun _ _ _ => hfresh.ends) ?_
  rw [wp_ite]
  split
  · rw [wp_bind]
    refine hwaits hfresh (wp_mono (steady_infoDict _ _) (fun _ c' hc' => ?_) fun _ c' hc' => hc'.base)
    rw [wp_bind]
    exact wp_strike (fun _ _ => hfresh.ends_of_base hc'.base) fun _ => hfresh.ends_of_base hc'.base
  · rw [wp_bind]
    refine wp_mono (wp_configureStreams hstate hspares hids hfresh) (fun _ p₁ hready => ?_) fun _ _ h => h
    rw [wp_bind]
    refine wp_strike (fun _ _ => .inr hready.safe) fun _ => ?_
    have hclose : ∀ p', Safe X n p' → wp (closeDump args m) (fun _ => Ends X n) (fun _ => Ends X n) p' := by
      intro p' h'
      rw [closeDump, wp_bind]
      refine wp_strike (fun _ _ => .inr h') fun _ => ?_
      rw [wp_ite, wp_modify]
      split
      · exact .inr (h'.congr rfl rfl rfl)
      · exact .inr h'
    rw [wp_bind, wp_onClient, wp_monotonic, wp_bind, wp_tryFinally]
    refine wp_mono (wp_stream_start hplain hX (hready.safe.congr rfl rfl rfl) hready.streaming
      fun hnil => hspares.defaulting (hready.none hnil)) (fun _ p' hp' => hclose p' hp') fun stop p' hp' => ?_
    rcases stop with e | _
    · exact hclose p' hp'
    · exact .inr hp'

theorem wp_main (hplain : PlainTimes) (hX : Savable X n) (hstate : truthy args.statefile = true)
    (hspares : m.Spares args X) (hids : args.Unmistaken X)
    (h : Fresh X n p) (fuel : Nat) : wp (main args m fuel) (fun _ => Ends X n) (fun _ => Ends X n) p := by
  rw [main]
  split
  · have hreport : ∀ p', Ends X n p' →
        wp (do strike m .reporting; return 1) (fun _ : Int => Ends X n) (fun _ => Ends X n) p' := by
      intro p' h'
      rw [wp_bind]
      exact wp_strike (fun _ _ => h') fun _ => h'
    rw [wp_catching, wp_bind]
    refine wp_await (wp_mono (steady_ping _) (fun _ c hc => ?_) fun stop c hc => ?_)
    · rw [wp_bind]
      refine wp_strike (fun e _ => ?_) fun _ => h.ends_of_base hc.base
      simp only
      split
      · exact hreport _ (h.ends_of_base hc.base)
      · exact h.ends_of_base hc.base
    · rcases stop with e | _
      · simp only
        split
        · exact hreport _ (h.ends_of_base hc.base)
        · exact h.ends_of_base hc.base
      · refine ⟨h.ends_of_base hc.base, fun e => ?_⟩
        simp only
        split
        · exact hreport _ (h.ends_of_base hc.base)
        · exact h.ends_of_base hc.base
  · rw [wp_tryFinally, report, wp_catching]
    refine wp_mono (wp_session hplain hX hstate hspares hids h) (fun _ p' hp' => wp_leave hplain hX hp')
      fun stop p' hp' => ?_
    rcases stop with e | _
    · simp only
      split
      · rw [wp_bind]
        exact wp_strike (fun _ _ => wp_leave hplain hX hp') fun _ => wp_leave hplain hX hp'
      · exact wp_leave hplain hX hp'
    · exact hp'

/-- A position that the state file holds is kept, or moved to a packet received for its station, however
the run ends, when nothing goes wrong between configuring the streams and recovering them. -/
theorem position_survives (hplain : PlainTimes) (hbase : p.client.base = {}) (hstreaming : p.client.streaming = false)
    (hreceived : p.received = []) (hstate : truthy args.statefile = true) {timestamp : Option Text}
    (hfile : p.recorded X = some (some n, timestamp)) (hn : n ≠ -1) (hspares : m.Spares args X)
    (hids : args.Unmistaken X) (hexit : Exits args m p p')
    (hX : X ∈ p'.stationIds) (hnum : Numbered X p'.received) :
    ∃ pos, p'.recorded X = some pos ∧ Held X n p'.received pos.1 := by
  have hsavable : Savable X n := by
    obtain ⟨text, -, hlookup⟩ := Option.bind_eq_some_iff.1 hfile
    exact ⟨(loadState_spec hlookup).1, (loadState_spec hlookup).2.1, hn⟩
  have hends : Ends X n p' := by
    obtain ⟨fuel, hrun⟩ := hexit
    have hmain := wp_main hplain hsavable hstate hspares hids ⟨hbase, hstreaming, hreceived, timestamp, hfile⟩ fuel
    rcases hrun with ⟨code, hrun⟩ | ⟨e, hrun⟩
    · exact (wp_iff_of_ok hrun).1 hmain
    · exact (wp_iff_of_error hrun).1 hmain
  rcases hends with ⟨hnil, -⟩ | hsafe
  · rw [hnil] at hX
    cases hX
  · exact hsafe.records (.inr hX) hnum

end run

/-! ### Runs on fixed input -/

/-- What a run leaves behind. -/
structure Remains where
  recorded : Option Position
  stationIds : List Text
  received : List SeedLinkPacket
  dumped : List Bytes
  deriving DecidableEq

section fixed
variable [Externals] {args : Args} {m : Mishaps} {fuel : Nat} {p : Process} {X : Text} {r : Remains}

/-- What the run leaves behind when it is over. -/
def remains (args : Args) (m : Mishaps) (fuel : Nat) (p : Process) (X : Text) : Option Remains :=
  match main args m fuel p with
  | .ok _ p' | .error (.raised _) p' => some ⟨p'.recorded X, p'.stationIds, p'.received, p'.dumped⟩
  | .error .blocked _ => none

theorem exits_of_remains (h : remains args m fuel p X = some r) : ∃ p', Exits args m p p' ∧
    p'.recorded X = r.recorded ∧ p'.stationIds = r.stationIds ∧ p'.received = r.received ∧ p'.dumped = r.dumped := by
  unfold remains at h
  split at h
  · rename_i code p' hrun
    cases h
    exact ⟨p', ⟨fuel, .inl ⟨code, hrun⟩⟩, rfl, rfl, rfl, rfl⟩
  · rename_i e p' hrun
    cases h
    exact ⟨p', ⟨fuel, .inr ⟨e, hrun⟩⟩, rfl, rfl, rfl, rfl⟩
  · cases h

end fixed

/-- A packet of station A_B, on the wire and as it is yielded. -/
def wire7 : Bytes := Bytes.lit "SE2D" ++ [4, 0, 0, 0, 7, 0, 0, 0, 0, 0, 0, 0, 3] ++ Bytes.lit "A_Bdata"

def packet7 : SeedLinkPacket :=
  { stationId := "A_B".toList, seqnum := some 7, payloadFormat := "2".toList, payloadSubformat := "D".toList,
    payload := Bytes.lit "data" }

/-- The server is asked to go on behind packet 5 and sends packet 7. -/
def servingClient : Client :=
  { cfg := { requestedProtocol := some .v4 },
    env := ⟨fun _ => .opened { incoming := [], peer := scripted ((sessionScript (Bytes.lit " 6") 7).take 5 ++
      [(Bytes.lit "END" ++ crlf, [.data wire7])]) }, fun _ => 0, fun _ => true⟩ }

def savedAt5 : Process := { client := servingClient, file := some "#V2\nA_B 5\n".toList }

def argsAB : Args := { streams := some "A_B".toList, statefile := some "state".toList, dumpfile := some "dump".toList }

/-- The run is interrupted after the packet. -/
def interrupted : Mishaps := { strike := fun place => if place = .passing 2 then some .keyboardInterrupt else none }

theorem position_survives_interrupted : ∃ p', @Exits Externals.bare argsAB interrupted savedAt5 p' ∧
    p'.received = [packet7] ∧ ∃ pos, @Process.recorded Externals.bare p' "A_B".toList = some pos ∧
      Held "A_B".toList 5 p'.received pos.1 := by
  let _ : Externals := Externals.bare
  have hrun : remains argsAB interrupted 5 savedAt5 "A_B".toList =
      some ⟨some (some 7, none), ["A_B".toList], [packet7], [Bytes.lit "data"]⟩ := by decide +kernel
  obtain ⟨p', hexit, -, hids, hreceived, -⟩ := exits_of_remains hrun
  have hspares : interrupted.Spares argsAB "A_B".toList := ⟨fun _ => rfl, nofun, nofun, nofun, fun _ => rfl⟩
  have hstation : ∀ s ∈ argsAB.configured, s.stationId = "A_B".toList := by decide
  have hfile : savedAt5.recorded "A_B".toList = some (some 5, none) := by decide
  refine ⟨p', hexit, hreceived, position_survives (p := savedAt5) (fun _ t ht c hc => ?_) rfl rfl rfl rfl hfile
    (by decide) hspares (fun s hs => .inl (hstation s hs)) hexit (by simp [hids]) fun pkt hpkt _ => ?_⟩
  · cases ht
    cases hc
  · rw [hreceived, List.mem_singleton] at hpkt
    rw [hpkt]
    decide

/-- The time window cannot be read: the streams are saved without their positions. -/
theorem not_position_survives_badWindow : ¬ ∀ (args : Args) (m : Mishaps) (p p' : Process) (X : Text) (n : Int)
    (timestamp : Option Text), p.client.base = {} → p.client.streaming = false → p.received = [] →
    truthy args.statefile = true → @Process.recorded Externals.bare p X = some (some n, timestamp) →
    @Exits Externals.bare args m p p' → X ∈ p'.stationIds →
    ∃ pos, @Process.recorded Externals.bare p' X = some pos ∧ Held X n p'.received pos.1 := by
  let _ : Externals := Externals.bare
  intro h
  have hrun : remains { argsAB with timewindow := some "yesterday".toList } {} 5 savedAt5 "A_B".toList =
      some ⟨some (none, none), ["A_B".toList], [], []⟩ := by decide +kernel
  obtain ⟨p', hexit, hrecorded, hids, -⟩ := exits_of_remains hrun
  have hmem : "A_B".toList ∈ p'.stationIds := by simp [hids]
  obtain ⟨pos, hpos, k, hk, -⟩ := h _ _ savedAt5 p' _ 5 none rfl rfl rfl rfl (by decide) hexit hmem
  rw [hrecorded] at hpos
  cases hpos
  cases hk

end Cli

end SeedLink
