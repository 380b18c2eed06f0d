import SeedLink.Resume
import SeedLink.Sessions

/-!
# What reconnecting yields

A client follows its stations over any number of sessions with a server. Within a session it receives
what it has asked for; it asks from behind the last packet it has yielded. So the packets of a station
make one contiguous segment of the station's log (`collect_contiguous`).
-/

namespace SeedLink

open StateExc Client

/-! ### Frames and positions -/

def stationFrames (stationId : Text) (got : List RawFrame) : List RawFrame :=
  got.filter (·.stationId = stationId)

/-- The position is the number of the last frame, if there is one. -/
def CaughtUp (frames : List RawFrame) (seqnum : Option Int) : Prop :=
  ∀ frame, frames.getLast? = some frame → seqnum = some frame.number

/-- What `_update_stream_state` and the match cache rely on, and the kind of client this is about:
stations with distinct IDs and no wildcards, without a time window or `all_data`. -/
structure Base.Plain (b : Base) : Prop where
  cacheOk : b.CacheOk
  ne : b.streams ≠ []
  nodup : (b.streams.map (·.stationId)).Nodup
  exact_ids : ∀ s ∈ b.streams, isWildcard s.stationId = false
  allData : ∀ s ∈ b.streams, s.allData = false
  startTime : b.startTime = none

/-- The frames `got` are segments of the logs, and the positions follow them. -/
structure Base.UpTo (server : Server) (b : Base) (got : List RawFrame) : Prop where
  segment : ∀ stationId, stationFrames stationId got <:+: server.log stationId
  position : ∀ s ∈ b.streams, CaughtUp (stationFrames s.stationId got) s.seqnum
  others : ∀ stationId, (∀ s ∈ b.streams, s.stationId ≠ stationId) → stationFrames stationId got = []

/-- The requests of a session that goes on behind the frames `prev`. -/
structure Base.Continues (server : Server) (b : Base) (requests : List (Bytes × Bytes))
    (prev : List RawFrame) : Prop where
  segment : ∀ stationId, stationFrames stationId prev <:+: server.log stationId
  asked : ∀ s ∈ b.streams, ∃ pos name arg, Bytes.encodeAscii s.stationId = some name ∧
    (name, arg) ∈ requests ∧ Bytes.encodeAscii (positionArg pos) = some arg ∧
      CaughtUp (stationFrames s.stationId prev) pos
  others : ∀ stationId, (∀ s ∈ b.streams, s.stationId ≠ stationId) → stationFrames stationId prev = [] ∧
    ∀ name arg, Bytes.encodeAscii stationId = some name → (name, arg) ∉ requests

section segments
variable {server : Server} {b b' : Base} {requests : List (Bytes × Bytes)} {prev got : List RawFrame}
  {stationId : Text}

theorem Base.Continues.congr (h : b.Continues server requests prev)
    (hids : b'.streams.map (·.stationId) = b.streams.map (·.stationId)) :
    b'.Continues server requests prev := by
  have hmem : ∀ {b b' : Base}, b'.streams.map (·.stationId) = b.streams.map (·.stationId) →
      ∀ s' ∈ b'.streams, ∃ s ∈ b.streams, s.stationId = s'.stationId := by
    intro b b' hids s' hs'
    have := List.mem_map_of_mem (f := (·.stationId)) hs'
    rw [hids] at this
    exact List.mem_map.1 this
  refine ⟨h.segment, fun s' hs' => ?_, fun stationId hno => h.others stationId fun s hs heq => ?_⟩
  · obtain ⟨s, hs, heq⟩ := hmem hids s' hs'
    rw [← heq]
    exact h.asked s hs
  · obtain ⟨s', hs', heq'⟩ := hmem hids.symm s hs
    exact hno s' hs' (heq'.trans heq)

/-- The frames a session receives from behind a segment continue it. -/
theorem segment_of_answers {pos : Option Int} {arg : Bytes} {frames : List RawFrame}
    (hprev : prev <:+: server.log stationId) (hpos : CaughtUp prev pos)
    (harg : Bytes.encodeAscii (positionArg pos) = some arg) (h : server.Answers stationId arg frames) :
    prev ++ frames <:+: server.log stationId := by
  cases hlast : prev.getLast? with
  | some frame =>
    obtain rfl := hpos frame hlast
    refine (server.ascending stationId).resume hprev hlast ?_
    have hnum := h.numbered _ harg
    have hlt : (fun f : RawFrame => decide (frame.number + 1 ≤ f.number)) =
        fun f => decide (frame.number < f.number) := by
      funext f
      simp only [Int.add_one_le_iff]
    rwa [hlt] at hnum
  | none =>
    rw [List.getLast?_eq_none_iff.1 hlast, List.nil_append]
    cases pos with
    | none =>
      obtain ⟨rest, hrest, hpre⟩ := h.bare (Option.some.inj harg).symm
      exact hpre.isInfix.trans hrest.isInfix
    | some n =>
      refine (h.numbered _ harg).isInfix.trans ?_
      exact ((server.ascending stationId).filter_suffix (p := fun m => n + 1 ≤ m)
        fun _ _ hlt hle => by omega).isInfix

variable [Externals]

theorem Base.Continues.segments (h : b.Continues server requests prev) {cfg : Config} {hd : Heard}
    {lines : List Bytes} {done : List (Bytes × Received)} (hreq : hd.requests = requests)
    (htr : server.Transcript cfg hd lines done)
    (hgot : ∀ stationId, stationFrames stationId got = stationFrames stationId prev ++ dataFrames stationId done) :
    (∀ stationId, stationFrames stationId got <:+: server.log stationId) ∧
      ∀ stationId, (∀ s ∈ b.streams, s.stationId ≠ stationId) → stationFrames stationId got = [] := by
  subst hreq
  have hothers : ∀ stationId, (∀ s ∈ b.streams, s.stationId ≠ stationId) → stationFrames stationId got = [] := by
    intro stationId hno
    obtain ⟨hprev, hun⟩ := h.others stationId hno
    rw [hgot, hprev, htr.unasked stationId hun, List.append_nil]
  refine ⟨fun stationId => ?_, hothers⟩
  by_cases hs : ∃ s ∈ b.streams, s.stationId = stationId
  · obtain ⟨s, hs, rfl⟩ := hs
    obtain ⟨pos, name, arg, hname, hmem, harg, hpos⟩ := h.asked s hs
    rw [hgot]
    exact segment_of_answers (h.segment _) hpos harg (htr.answers _ name arg hname hmem)
  · rw [hothers stationId fun s hm heq => hs ⟨s, hm, heq⟩]
    exact List.nil_infix

end segments

/-! ### Moving the positions -/

section moving
variable {server : Server} {b b' : Base} {got : List RawFrame} {frame : RawFrame}

theorem matchesId_of_exact {s : Stream} {stationId : Text} (h : isWildcard s.stationId = false) :
    s.matchesId stationId = true ↔ stationId = s.stationId := by
  simp [Stream.matchesId, h]

theorem stationFrames_concat (stationId : Text) (got : List RawFrame) (frame : RawFrame) :
    stationFrames stationId (got ++ [frame]) =
      stationFrames stationId got ++ if frame.stationId = stationId then [frame] else [] := by
  rw [stationFrames, List.filter_append]
  by_cases h : frame.stationId = stationId <;> simp [h, stationFrames]

theorem Base.Plain.update (h : b.Plain) (pkt : SeedLinkPacket) : (b.updateStreamState pkt).Plain := by
  have hstreams := h.cacheOk.streams_updateStreamState pkt
  have hids : (b.updateStreamState pkt).streams.map (·.stationId) = b.streams.map (·.stationId) := by
    rw [hstreams, List.map_map]
    exact List.map_congr_left fun s _ => noteArrival_stationId s
  have hmem : ∀ s' ∈ (b.updateStreamState pkt).streams, ∃ s ∈ b.streams, s' = noteArrival pkt s := by
    intro s' hs'
    rw [hstreams] at hs'
    obtain ⟨s, hs, rfl⟩ := List.mem_map.1 hs'
    exact ⟨s, hs, rfl⟩
  refine ⟨h.cacheOk.updateStreamState pkt, ?_, hids ▸ h.nodup, fun s' hs' => ?_, fun s' hs' => ?_, ?_⟩
  · rw [hstreams]
    simpa using h.ne
  · obtain ⟨s, hs, rfl⟩ := hmem s' hs'
    rw [noteArrival_stationId]
    exact h.exact_ids s hs
  · obtain ⟨s, hs, rfl⟩ := hmem s' hs'
    unfold noteArrival
    split <;> exact h.allData s hs
  · rw [← h.startTime]
    unfold Base.updateStreamState Base.streamsMatching
    split
    · rfl
    · simp only; split <;> rfl

/-- A packet moves the position of its station. -/
theorem Base.UpTo.position_update (h : b.UpTo server got) (hb : b.Plain) {n : Int}
    (hn : frame.seqnum = some n) : ∀ s' ∈ (b.updateStreamState (toPacket frame)).streams,
      CaughtUp (stationFrames s'.stationId (got ++ [frame])) s'.seqnum := by
  intro s' hs'
  rw [hb.cacheOk.streams_updateStreamState] at hs'
  obtain ⟨s, hs, rfl⟩ := List.mem_map.1 hs'
  rw [noteArrival_stationId, stationFrames_concat]
  have hmatch : s.matchesId frame.stationId = true ↔ frame.stationId = s.stationId :=
    matchesId_of_exact (hb.exact_ids s hs)
  by_cases hid : frame.stationId = s.stationId
  · rw [if_pos hid]
    have hup : (noteArrival (toPacket frame) s).seqnum = some n := by
      unfold noteArrival
      rw [if_pos ⟨by rw [show (toPacket frame).seqnum = frame.seqnum from rfl, hn]; rfl, hmatch.2 hid⟩]
      exact hn
    intro f hf
    rw [List.getLast?_concat, Option.some.injEq] at hf
    rw [hup, ← hf, RawFrame.number, hn]
    rfl
  · rw [if_neg hid, List.append_nil]
    have hup : noteArrival (toPacket frame) s = s := by
      unfold noteArrival
      rw [if_neg fun h => hid (hmatch.1 h.2)]
    rw [hup]
    exact h.position s hs

variable [Externals] {args : NegotiationArgs}

/-- Preparing a negotiation moves nothing. -/
theorem Base.resolves_prepare (hne : b.streams ≠ []) :
    List.Forall₂ Resolves b.streams (b.prepareNegotiation args).2.streams := by
  have h := @Base.resolves_prepareNegotiation _ args b
  rwa [ensureDefaultStream_streams, if_neg hne] at h

theorem Base.Plain.prepare (h : b.Plain) : (b.prepareNegotiation args).2.Plain := by
  have hres := @Base.resolves_prepare b _ args h.ne
  refine ⟨Base.cacheOk_of_matchCache_eq_empty prepareNegotiation_matchCache, ?_, ?_, fun s' hs' => ?_,
    fun s' hs' => ?_, ?_⟩
  · intro hnil
    rw [hnil] at hres
    exact h.ne (List.forall₂_nil_right_iff.1 hres)
  · rw [Resolves.stationIds hres]
    exact h.nodup
  · obtain ⟨s, hs, hr⟩ := exists_of_mem_forall₂ hres hs'
    rw [hr.stationId]
    exact h.exact_ids s hs
  · obtain ⟨s, hs, hr⟩ := exists_of_mem_forall₂ hres hs'
    rw [hr.allData]
    exact h.allData s hs
  · show (Base.ensureDefaultStream _).startTime = none
    unfold Base.ensureDefaultStream
    split <;> exact h.startTime

theorem Base.UpTo.prepare (h : b.UpTo server got) (hb : b.Plain) :
    (b.prepareNegotiation args).2.UpTo server got := by
  have hres := @Base.resolves_prepare b _ args hb.ne
  refine ⟨h.segment, fun s' hs' => ?_, fun stationId hno => h.others stationId fun s hs => ?_⟩
  · obtain ⟨s, hs, hr⟩ := exists_of_mem_forall₂ hres hs'
    rw [hr.stationId, hr.seqnum]
    exact h.position s hs
  · obtain ⟨s', hs', hr⟩ := exists_of_mem_forall₂ hres.flip hs
    rw [← Resolves.stationId hr]
    exact hno s' hs'

/-- A negotiation asks from behind what has been got. -/
theorem Base.UpTo.continues {requests : List (Bytes × Bytes)} (h : b.UpTo server got) (hb : b.Plain)
    (hasks : List.Forall₂ Asks (b.sendOrder.map (·.1)) requests) :
    (b.prepareNegotiation args).2.Continues server requests got := by
  have hmem : ∀ s, s ∈ b.sendOrder.map (·.1) ↔ s ∈ b.streams := by
    intro s
    constructor
    · intro hs
      obtain ⟨⟨s', i⟩, hmem, rfl⟩ := List.mem_map.1 hs
      exact List.mem_of_getElem? (Base.mem_sendOrder.1 hmem)
    · intro hs
      obtain ⟨i, hi⟩ := List.getElem?_of_mem hs
      exact List.mem_map.2 ⟨(s, i), Base.mem_sendOrder.2 hi, rfl⟩
  refine Base.Continues.congr (b := b) ⟨h.segment, fun s hs => ?_, fun stationId hno => ?_⟩
    (Resolves.stationIds (Base.resolves_prepare hb.ne))
  · obtain ⟨⟨name, arg⟩, hr, hname, harg⟩ := exists_of_mem_forall₂ hasks.flip ((hmem s).2 hs)
    exact ⟨s.seqnum, name, arg, hname, hr, harg, h.position s hs⟩
  · refine ⟨h.others stationId hno, fun name arg hname hr => ?_⟩
    obtain ⟨s, hs, hname', -⟩ := exists_of_mem_forall₂ hasks hr
    exact hno s ((hmem s).1 hs) (Bytes.encodeAscii_inj hname' hname)

end moving

/-! ### Sessions one after another -/

section runs
variable [Externals] {server : Server} {c c' : Client} {g : Collect} {got : List RawFrame}

/-- In a session that goes on behind `prev`, the frames `got` have been received. -/
def Client.Live (server : Server) (c : Client) (got : List RawFrame) : Prop :=
  c.protocol = some .v4 ∧ ∃ requests done prev, c.Receives server requests done ∧
    c.base.Continues server requests prev ∧
    ∀ stationId, stationFrames stationId got = stationFrames stationId prev ++ dataFrames stationId done

/-- The connection of a generator that stands at `g`. -/
def Client.Session (server : Server) (c : Client) (got : List RawFrame) : Collect → Prop
  | .start => c.protocol = some .v4 ∧
    if c.streaming then c.Live server got else ∃ h, c.Settled server h ∧ h.requests = []
  | .looping _ _ => c.sock = none ∨ c.Live server got
  | .reconnecting => c.sock = none
  | .finished => True

/-- A client whose generator stands at `g` and which has received the frames `got`. -/
structure Client.Stands (server : Server) (g : Collect) (c : Client) (got : List RawFrame) : Prop where
  buffer : recvBufSize ≤ c.rb.buf.size
  dials : ∀ n sk, c.env.dial n = .opened sk → server.Honours c.cfg sk
  plain : c.base.Plain
  upTo : c.base.UpTo server got
  session : c.Session server got g

theorem Client.Live.congr (h : c.Live server got) (hcfg : c'.cfg = c.cfg) (hrb : c'.rb = c.rb)
    (hsock : c'.sock = c.sock) (hp : c'.protocol = c.protocol) (hb : c'.base = c.base) :
    c'.Live server got := by
  obtain ⟨hv4, requests, done, prev, hr, hcont, hgot⟩ := h
  exact ⟨hp.trans hv4, requests, done, prev, hr.congr hcfg hrb hsock, hb ▸ hcont, hgot⟩

/-- A negotiation starts a session behind what has been got. -/
theorem wp_negotiate_live {h : Heard} (hs : c.Settled server h) (hreq : h.requests = [])
    (hp : c.protocol = some .v4) (hb : c.base.Plain) (hup : c.base.UpTo server got) :
    wp negotiate (fun _ c' => c'.Live server got ∧ c'.streaming = true ∧
      ({ c with base := c.prepared.2 } : Client).SameSelection c')
      (fun _ => ({ c with base := c.prepared.2 } : Client).SameSelection) c := by
  refine wp_mono (wp_and (wp_negotiate_receives hs hreq hp hb.ne hb.allData hb.startTime) wp_negotiate_base)
    ?_ fun _ _ h => h.2
  rintro _ c' ⟨⟨requests, hasks, hrecv, hp', hst⟩, hsame⟩
  refine ⟨⟨hp', requests, [], got, hrecv, ?_, fun stationId => (List.append_nil _).symm⟩, hst, hsame⟩
  rw [hsame.base]
  exact hup.continues hb hasks

/-- What one step of the generator yields it has received. -/
def Client.Yields (server : Server) (c : Client) (got : List RawFrame)
    (r : Option SeedLinkPacket × Collect) (c' : Client) : Prop :=
  c'.cfg = c.cfg ∧ c'.env = c.env ∧ ∃ new : List RawFrame, r.1.toList = new.map toPacket ∧
    c'.base.Plain ∧ c'.base.UpTo server (got ++ new) ∧ c'.Session server (got ++ new) r.2

/-- A step that yields nothing and prepares a negotiation. -/
theorem Client.Yields.of_prepared (hb : c.base.Plain) (hup : c.base.UpTo server got)
    {r : Option SeedLinkPacket × Collect} {c₁ : Client} (hsame₁ : c.SameSelection c₁)
    (hsame : ({ c₁ with base := c₁.prepared.2 } : Client).SameSelection c') (hr : r.1 = none)
    (hs : c'.Session server got r.2) : c.Yields server got r c' := by
  have hbase : c'.base = (c.base.prepareNegotiation c₁.negotiationArgs).2 := by
    rw [hsame.base, ← hsame₁.base]
    rfl
  refine ⟨hsame.cfg.trans hsame₁.cfg, hsame.env.trans hsame₁.env, [], by rw [hr]; rfl, hbase ▸ hb.prepare, ?_, ?_⟩
  · rw [List.append_nil, hbase]
    exact hup.prepare hb
  · rw [List.append_nil]
    exact hs

/-- A step that yields nothing and keeps the selection state. -/
theorem Client.Yields.of_same (hb : c.base.Plain) (hup : c.base.UpTo server got) {r : Option SeedLinkPacket × Collect}
    (hsame : c.SameSelection c') (hr : r.1 = none) (hs : c'.Session server got r.2) :
    c.Yields server got r c' := by
  refine ⟨hsame.cfg, hsame.env, [], by rw [hr]; rfl, hsame.base ▸ hb, ?_, ?_⟩
  · rw [List.append_nil, hsame.base]
    exact hup
  · rw [List.append_nil]
    exact hs

theorem wp_closeAndRaise_yields (hb : c.base.Plain) (hup : c.base.UpTo server got) {e : Exn} {last : Int}
    {next : Option Int} {c₁ : Client} (hsame : c.SameSelection c₁) :
    wp (closeAndRaise true e (.looping last next)) (c.Yields server got) (fun _ _ => True) c₁ := by
  simp only [closeAndRaise, wp_bind, wp_close, if_true, wp_pure]
  exact .of_same hb hup ⟨hsame.cfg, hsame.env, hsame.base⟩ rfl (.inl rfl)

/-- A frame of the session. -/
theorem wp_handleFrame_yields (hb : c.base.Plain) (hup : c.base.UpTo server got) {last : Int}
    {next : Option Int} {c₁ : Client} {requests : List (Bytes × Bytes)} {done : List (Bytes × Received)}
    {prev : List RawFrame} {x : Received} {b : Bytes} (hsame : c.SameSelection c₁)
    (hp : c₁.protocol = some .v4) (hr : c₁.Receives server requests (done ++ [(b, x)]))
    (hcont : c.base.Continues server requests prev)
    (hgot : ∀ stationId, stationFrames stationId got = stationFrames stationId prev ++ dataFrames stationId done) :
    wp (handleFrame true last next x) (c.Yields server got) (fun _ _ => True) c₁ := by
  have hdone : ∀ stationId, dataFrames stationId (done ++ [(b, x)]) =
      dataFrames stationId done ++ (dataFrame stationId x).toList := by
    intro stationId
    rw [dataFrames, List.filterMap_append]
    cases h : dataFrame stationId x <;> simp [dataFrames, h]
  -- an item that is no data packet
  have hskip : (∀ stationId, dataFrame stationId x = none) → c₁.Live server got := by
    intro hno
    refine ⟨hp, requests, done ++ [(b, x)], prev, hr, hsame.base ▸ hcont, fun stationId => ?_⟩
    rw [hdone, hno, Option.toList_none, List.append_nil, hgot]
  cases x with
  | endOfStream => exact .of_same hb hup ⟨hsame.cfg, hsame.env, hsame.base⟩ rfl trivial
  | reply resp => exact wp_closeAndRaise_yields hb hup hsame
  | packet frame =>
    simp only [handleFrame, wp_ite, wp_bind, wp_liftExcept, wp_monotonic, wp_modify, wp_pure]
    by_cases herr : isJsonErrorFrame frame = true
    · rw [if_pos herr]
      cases jsonErrorMessage frame.payload with
      | ok message => exact wp_closeAndRaise_yields hb hup hsame
      | error e => trivial
    rw [if_neg herr]
    by_cases hinfo : isInfoFrame frame = true
    · rw [if_pos hinfo]
      exact .of_same hb hup hsame rfl (.inr (hskip fun stationId => by simp [dataFrame, hinfo]))
    rw [if_neg hinfo]
    have hdata : ∀ stationId, (dataFrame stationId (.packet frame)).toList =
        if frame.stationId = stationId then [frame] else [] := by
      intro stationId
      by_cases h : frame.stationId = stationId <;> simp [dataFrame, herr, hinfo, h]
    have hgot' : ∀ stationId, stationFrames stationId (got ++ [frame]) =
        stationFrames stationId prev ++ dataFrames stationId (done ++ [(b, .packet frame)]) := by
      intro stationId
      rw [stationFrames_concat, hgot, hdone, hdata, List.append_assoc]
    obtain ⟨n, hn⟩ : ∃ n : Int, frame.seqnum = some n := by
      obtain ⟨_, _, _, _, _, _, _, _, htr, _⟩ := hr
      cases (htr.isItem (b, .packet frame) (by simp) : Takes _ _ _ _) with
      | packetV4 _ _ hd => obtain ⟨header, -, hn⟩ := hd.seqnum; exact ⟨_, hn⟩
      | packetV3 hp' => exact absurd rfl hp'
    have hbase : c₁.base.updateStreamState (toPacket frame) = c.base.updateStreamState (toPacket frame) := by
      rw [hsame.base]
    have hids : (c.base.updateStreamState (toPacket frame)).streams.map (·.stationId) =
        c.base.streams.map (·.stationId) := by
      rw [hb.cacheOk.streams_updateStreamState, List.map_map]
      exact List.map_congr_left fun s _ => Base.noteArrival_stationId s
    have hcont' := hcont.congr hids
    obtain ⟨hseg, hoth⟩ : (∀ stationId, stationFrames stationId (got ++ [frame]) <:+: server.log stationId) ∧
        ∀ stationId, (∀ s ∈ (c.base.updateStreamState (toPacket frame)).streams, s.stationId ≠ stationId) →
          stationFrames stationId (got ++ [frame]) = [] := by
      obtain ⟨_, _, _, _, _, _, _, hreq, htr, _⟩ := hr
      exact hcont'.segments hreq htr hgot'
    refine ⟨hsame.cfg, hsame.env, [frame], rfl, ?_, ?_, .inr ⟨hp, requests, _, prev, ?_, ?_, hgot'⟩⟩
    · exact hbase ▸ hb.update (toPacket frame)
    · exact hbase ▸ ⟨hseg, hup.position_update hb hn, hoth⟩
    · exact hr.congr rfl rfl rfl
    · exact hbase ▸ hcont'

theorem wp_collectStep_start (hb : c.base.Plain) (hup : c.base.UpTo server got)
    (hs : c.Session server got .start) :
    wp (collectStep true .start) (c.Yields server got) (fun _ _ => True) c := by
  obtain ⟨hp, hs⟩ := hs
  simp only [collectStep, wp_bind, wp_get, wp_ite, wp_pure]
  cases hst : c.streaming with
  | true =>
    rw [hst, if_pos rfl] at hs
    rw [if_neg (by simp)]
    exact wp_enterLoop fun last next ticks => .of_same hb hup ⟨rfl, rfl, rfl⟩ rfl
      (.inr (hs.congr rfl rfl rfl rfl rfl))
  | false =>
    rw [hst, if_neg Bool.false_ne_true] at hs
    obtain ⟨h, hset, hreq⟩ := hs
    rw [if_pos (by rfl)]
    refine wp_mono (wp_negotiate_live hset hreq hp hb hup) ?_ fun _ _ _ => trivial
    rintro _ c₁ ⟨hlive, -, hsame⟩
    exact wp_enterLoop fun last next ticks => .of_prepared hb hup (refl c) ⟨hsame.cfg, hsame.env, hsame.base⟩ rfl
      (.inr (hlive.congr rfl rfl rfl rfl rfl))

theorem wp_collectStep_looping (hb : c.base.Plain) (hup : c.base.UpTo server got) {last : Int}
    {next : Option Int} (hs : c.Session server got (.looping last next)) :
    wp (collectStep true (.looping last next)) (c.Yields server got) (fun _ _ => True) c := by
  have htick : c.SameSelection { c with ticks := c.ticks + 1 } := ⟨rfl, rfl, rfl⟩
  simp only [collectStep, collectPass, wp_bind, wp_get, wp_ite, wp_pure, wp_monotonic, wp_tryExcept, wp_map]
  split
  · rename_i hsock
    exact .of_same hb hup (refl c) rfl (Option.isNone_iff_eq_none.1 hsock)
  rename_i hsock
  split
  · exact wp_closeAndRaise_yields hb hup htick
  rcases hs with hs | hlive
  · exact absurd (Option.isNone_iff_eq_none.2 hs) hsock
  obtain ⟨hp, requests, done, prev, hr, hcont, hgot⟩ := hlive
  have hr' : ({ c with ticks := c.ticks + 1 } : Client).Receives server requests done := hr.congr rfl rfl rfl
  refine wp_mono (wp_and (wp_awaitFrame_receives hr' hp) (steady.reading.awaitFrame _)) ?_ ?_
  · rintro received c₁ ⟨⟨hcase, k, hc⟩, hsame⟩
    have hp₁ : c₁.protocol = some .v4 :=
      (protocol_of_core (c := { c with ticks := c.ticks + 1, polls := k }) hc).trans hp
    have hsame₁ := IsTrans.trans _ _ _ htick hsame
    rcases hcase with ⟨rfl, hr₁⟩ | ⟨x, b, rfl, hr₁⟩
    · refine wp_mono (wp_and (wp_keepalivePass_receives hr₁ hp₁) (steady.keepalivePass last next c₁)) ?_
        fun _ _ _ => trivial
      rintro ⟨pkt, g'⟩ c' ⟨⟨hpkt, ⟨last', next', hg'⟩, hconn⟩, hsame'⟩
      have hsame'' := IsTrans.trans _ _ _ hsame₁ hsame'
      refine .of_same hb hup hsame'' hpkt ?_
      rw [show g' = .looping last' next' from hg']
      exact hconn.imp_right fun hlive => ⟨hlive.2, requests, done, prev, hlive.1, hsame''.base ▸ hcont, hgot⟩
    · exact wp_handleFrame_yields hb hup hsame₁ hp₁ hr₁ hcont hgot
  · rintro stop c₁ ⟨-, hsame⟩
    cases stop with
    | blocked => trivial
    | raised e =>
      show if _ then _ else _
      split
      · exact wp_closeAndRaise_yields hb hup (IsTrans.trans _ _ _ htick hsame)
      · trivial

theorem wp_collectStep_reconnecting (hbuf : recvBufSize ≤ c.rb.buf.size)
    (hdials : ∀ n sk, c.env.dial n = .opened sk → server.Honours c.cfg sk) (hb : c.base.Plain)
    (hup : c.base.UpTo server got) (hs : c.Session server got .reconnecting) :
    wp (collectStep true .reconnecting) (c.Yields server got) (fun _ _ => True) c := by
  simp only [collectStep, wp_bind, wp_pure]
  have hrun : wp (do connect true; negotiate; enterLoop : ClientM Collect) (fun g => c.Yields server got (none, g))
      (fun _ c₁ => c.Yields server got (none, .reconnecting) c₁.closed) c := by
    simp only [wp_bind]
    refine wp_mono (wp_and (wp_connect_settled hdials hbuf hs) (steady.connect true c)) ?_ ?_
    · rintro _ c₁ ⟨⟨⟨h, hset, hreq⟩, hp, -⟩, hsame₁⟩
      have hb₁ : c₁.base.Plain := hsame₁.base ▸ hb
      have hup₁ : c₁.base.UpTo server got := hsame₁.base ▸ hup
      refine wp_mono (wp_negotiate_live hset hreq hp hb₁ hup₁) ?_ ?_
      · rintro _ c₂ ⟨hlive, -, hsame₂⟩
        exact wp_enterLoop fun last next ticks => .of_prepared hb hup hsame₁
          ⟨hsame₂.cfg, hsame₂.env, hsame₂.base⟩ rfl (.inr (hlive.congr rfl rfl rfl rfl rfl))
      · intro stop c₂ hsame₂
        exact .of_prepared hb hup hsame₁ ⟨hsame₂.cfg, hsame₂.env, hsame₂.base⟩ rfl rfl
    · rintro stop c₁ ⟨-, hsame₁⟩
      exact .of_same hb hup ⟨hsame₁.cfg, hsame₁.env, hsame₁.base⟩ rfl rfl
  exact wp_reconnectAttempt (fun _ _ => trivial) hrun (fun _ _ h => h) fun _ _ _ => trivial

/-- The step lemma: what a step of the generator yields goes on where the packets before it ended. -/
theorem wp_collectStep_stands (h : c.Stands server g got) :
    wp (collectStep true g) (fun r c' => ∃ new : List RawFrame, r.1.toList = new.map toPacket ∧
      c'.Stands server r.2 (got ++ new)) (fun _ _ => True) c := by
  have hyields : wp (collectStep true g) (c.Yields server got) (fun _ _ => True) c := by
    cases g with
    | start => exact wp_collectStep_start h.plain h.upTo h.session
    | looping last next => exact wp_collectStep_looping h.plain h.upTo h.session
    | reconnecting => exact wp_collectStep_reconnecting h.buffer h.dials h.plain h.upTo h.session
    | finished => exact .of_same h.plain h.upTo (refl c) rfl trivial
  refine wp_mono (wp_and hyields (keepsBuffer_collectStep true g c)) ?_ fun _ _ _ => trivial
  rintro r c' ⟨⟨hcfg, henv, new, hnew, hb', hup', hs'⟩, hbuf⟩
  exact ⟨new, hnew, hbuf h.buffer, by rw [hcfg, henv]; exact h.dials, hb', hup', hs'⟩

/-! ### Runs -/

/-- The packets yielded by steps of `collect(reconnect=True)`, none of which raises. -/
inductive Collects : Collect → Client → List SeedLinkPacket → Collect → Client → Prop
  | nil {g : Collect} {c : Client} : Collects g c [] g c
  | step {g g₁ g' : Collect} {c c₁ c' : Client} {pkt : Option SeedLinkPacket} {pkts : List SeedLinkPacket}
      (h : collectStep true g c = .ok (pkt, g₁) c₁) (hrest : Collects g₁ c₁ pkts g' c') :
      Collects g c (pkt.toList ++ pkts) g' c'

theorem Collects.stands {g' : Collect} {pkts : List SeedLinkPacket} (hrun : Collects g c pkts g' c')
    (h : c.Stands server g got) :
    ∃ new : List RawFrame, pkts = new.map toPacket ∧ c'.Stands server g' (got ++ new) := by
  induction hrun generalizing got with
  | nil => exact ⟨[], rfl, by rwa [List.append_nil]⟩
  | step hstep _ ih =>
    obtain ⟨new, hnew, h₁⟩ := wp_ok (wp_collectStep_stands h) hstep
    obtain ⟨new', rfl, h'⟩ := ih h₁
    exact ⟨new ++ new', by rw [hnew, List.map_append], by rwa [← List.append_assoc]⟩

/-- A client that has connected, and perhaps negotiated, before it collects. -/
inductive Begins (c : Client) : Client → Prop
  | connected {c₁ : Client} (h : connect true c = .ok ⟨⟩ c₁) : Begins c c₁
  | negotiated {c₁ c₂ : Client} (h : connect true c = .ok ⟨⟩ c₁) (h' : negotiate c₁ = .ok ⟨⟩ c₂) :
      Begins c c₂

theorem Begins.stands {c₀ : Client} (hbegin : Begins c₀ c) (hbuf : recvBufSize ≤ c₀.rb.buf.size)
    (hsock : c₀.sock = none) (hst : c₀.streaming = false) (hb : c₀.base.Plain)
    (hserver : ∀ n sk, c₀.env.dial n = .opened sk → server.Honours c₀.cfg sk) :
    c.Stands server .start [] := by
  have hup : c₀.base.UpTo server [] :=
    ⟨fun _ => List.nil_infix, fun _ _ _ h => (by cases h), fun _ _ => rfl⟩
  have hconnect : ∀ {c₁ : Client}, connect true c₀ = .ok ⟨⟩ c₁ → c₀.SameSelection c₁ ∧
      recvBufSize ≤ c₁.rb.buf.size ∧ (∃ h, c₁.Settled server h ∧ h.requests = []) ∧
        c₁.protocol = some .v4 ∧ c₁.streaming = false := by
    intro c₁ hc₁
    obtain ⟨hset, hp, hst'⟩ := wp_ok (wp_connect_settled hserver hbuf hsock) hc₁
    exact ⟨(steady.connect true).ok hc₁, (keepsBuffer.connect true).ok hc₁ hbuf, hset, hp, hst'.trans hst⟩
  cases hbegin with
  | connected h =>
    obtain ⟨hsame, hbuf', hset, hp, hst'⟩ := hconnect h
    refine ⟨hbuf', by rw [hsame.cfg, hsame.env]; exact hserver, hsame.base ▸ hb, hsame.base ▸ hup, hp, ?_⟩
    rw [hst', if_neg Bool.false_ne_true]
    exact hset
  | @negotiated c₁ _ h h' =>
    obtain ⟨hsame, hbuf', ⟨hd, hset, hreq⟩, hp, -⟩ := hconnect h
    have hb₁ : c₁.base.Plain := hsame.base ▸ hb
    have hup₁ : c₁.base.UpTo server [] := hsame.base ▸ hup
    obtain ⟨hlive, hst', hsame'⟩ := wp_ok (wp_negotiate_live hset hreq hp hb₁ hup₁) h'
    refine ⟨keepsBuffer_negotiate.ok h' hbuf', ?_, ?_, ?_, hlive.1, ?_⟩
    · rw [show c.cfg = c₁.cfg from hsame'.cfg, show c.env = c₁.env from hsame'.env, hsame.cfg, hsame.env]
      exact hserver
    · rw [hsame'.base]
      exact hb₁.prepare
    · rw [hsame'.base]
      exact hup₁.prepare hb₁
    · rw [hst', if_pos rfl]
      exact hlive

/-- A client that follows stations with distinct IDs and no wildcards, without a time window or
`all_data`, and whose server honours every connection: in any run of `collect(reconnect=True)`, the
packets yielded for a station are a contiguous segment of its log. -/
theorem collect_contiguous {c₀ : Client} {g : Collect} {pkts : List SeedLinkPacket} (hwf : c₀.rb.WF)
    (hsock : c₀.sock = none) (hst : c₀.streaming = false) (hcache : c₀.base.matchCache = ∅)
    (hne : c₀.base.streams ≠ []) (hnodup : (c₀.base.streams.map (·.stationId)).Nodup)
    (hexact : ∀ s ∈ c₀.base.streams, isWildcard s.stationId = false)
    (hall : ∀ s ∈ c₀.base.streams, s.allData = false) (hstart : c₀.base.startTime = none)
    (hserver : ∀ n sk, c₀.env.dial n = .opened sk → server.Honours c₀.cfg sk)
    (hbegin : Begins c₀ c) (hrun : Collects .start c pkts g c') (stationId : Text) :
    pkts.filter (·.stationId = stationId) <:+: (server.log stationId).map toPacket := by
  have hb : c₀.base.Plain :=
    ⟨Base.cacheOk_of_matchCache_eq_empty hcache, hne, hnodup, hexact, hall, hstart⟩
  obtain ⟨new, rfl, h⟩ := hrun.stands (hbegin.stands hwf.size_ge hsock hst hb hserver)
  have hfilter : (new.map toPacket).filter (·.stationId = stationId) =
      (stationFrames stationId new).map toPacket := by
    rw [List.filter_map]
    rfl
  rw [hfilter]
  exact (h.upTo.segment stationId).map toPacket

end runs

/-! ### A run with a reconnection -/

def collectSteps [Externals] : Nat → Collect → ClientM (List SeedLinkPacket)
  | 0, _ => return []
  | n + 1, g => do
    let r ← collectStep true g
    let pkts ← collectSteps n r.2
    return r.1.toList ++ pkts

theorem exists_collects [Externals] {n : Nat} {g : Collect} {c c' : Client} {pkts : List SeedLinkPacket}
    (h : collectSteps n g c = .ok pkts c') : ∃ g', Collects g c pkts g' c' := by
  induction n generalizing g c pkts c' with
  | zero => cases h; exact ⟨g, .nil⟩
  | succ n ih =>
    obtain ⟨r, c₁, hstep, hrest⟩ := exists_of_seq (x := collectStep true g)
      (f := fun r => do let pkts ← collectSteps n r.2; return r.1.toList ++ pkts) h
    obtain ⟨pkts, c₂, hrest, hpure⟩ := exists_of_seq (x := collectSteps n r.2) hrest
    cases hpure
    obtain ⟨g', hg'⟩ := ih hrest
    exact ⟨g', .step hstep hg'⟩

def logsAB : Server where
  log stationId := if stationId = "A_B".toList then [numberedFrame 7, numberedFrame 8] else []
  ascending stationId := by
    unfold Segments.Ascending
    split <;> decide

def helloLines : List Bytes := [Bytes.lit "SeedLink v4.0 :: SLPROTO:4.0", Bytes.lit "ORG"]

def replyLines : List Bytes := helloLines ++ List.replicate 4 (Bytes.lit "OK")

/-- A session that asks for station A_B, gets packet `n` and is cut. -/
def sessionScript (arg : Bytes) (n : Nat) : List (Bytes × List Recv) :=
  [(Bytes.lit "HELLO" ++ crlf, [.data (terminated helloLines)]),
    (Bytes.lit "SLPROTO 4.0" ++ crlf, [.data (Bytes.lit "OK" ++ crlf)]),
    (Bytes.lit "USERAGENT seedlink-client/0.2.0 seedlink-client/0.2.0" ++ crlf,
      [.data (Bytes.lit "OK" ++ crlf)]),
    (Bytes.lit "STATION A_B" ++ cr, [.data (Bytes.lit "OK" ++ crlf)]),
    (Bytes.lit "DATA" ++ arg ++ cr, [.data (Bytes.lit "OK" ++ crlf)]),
    (Bytes.lit "END" ++ crlf, [.data (numbered n), .data []])]

def cutSession (arg : Bytes) (n : Nat) : Sock := { incoming := [], peer := scripted (sessionScript arg n) }

def resumingClient : Client :=
  { cfg := { requestedProtocol := some .v4 },
    env := ⟨fun
      | 0 => .opened (cutSession [] 7)
      | 1 => .opened (cutSession (Bytes.lit " 8") 8)
      | _ => .timeout, fun _ => 0, fun _ => true⟩,
    base := { streams := [{ stationId := "A_B".toList }] } }

theorem transcript_replyLines [Pymseed] {h : Heard} {items : List (Bytes × Received)} (hdue : h.due ≤ 6)
    (hitem : ∀ item ∈ items, IsItem item) (hsilent : h.streaming = false → items = [])
    (hanswers : ∀ stationId name arg, Bytes.encodeAscii stationId = some name → (name, arg) ∈ h.requests →
      logsAB.Answers stationId arg (dataFrames stationId items))
    (hunasked : ∀ stationId, (∀ name arg, Bytes.encodeAscii stationId = some name → (name, arg) ∉ h.requests) →
      dataFrames stationId items = []) :
    logsAB.Transcript resumingClient.cfg h (replyLines.take h.due) items := by
  have hline : ∀ line ∈ replyLines, IsLine line := by
    unfold IsLine
    decide
  refine ⟨fun line hm => hline line (List.mem_of_mem_take hm), ?_, ?_, hitem, hsilent, hanswers, hunasked⟩
  · rw [List.length_take]
    exact Nat.min_eq_left hdue
  · intro line₁ line₂ rest text₁ text₂ heq h₁ h₂
    have hpre := List.take_prefix h.due replyLines
    rw [heq] at hpre
    obtain ⟨rfl, htail⟩ := List.cons_prefix_cons.1 (hpre : _ <+: _ :: _)
    obtain ⟨rfl, -⟩ := List.cons_prefix_cons.1 (htail : _ <+: _ :: _)
    cases h₁
    cases h₂
    decide

/-- Each session is honoured when the log has the packet to answer with. -/
theorem honours_cutSession [Pymseed] {arg : Bytes} {n : Nat} (harg : arg = [] ∧ n = 7 ∨ arg = Bytes.lit " 8" ∧ n = 8) :
    logsAB.Honours resumingClient.cfg (cutSession arg n) := by
  have hitem : IsItem (numbered n, .packet (numberedFrame n)) := by
    have hd : DecodesV4 (numbered n) (numberedFrame n) 20 := by
      rcases harg with ⟨-, rfl⟩ | ⟨-, rfl⟩ <;> exact ⟨by decide, numberedHeader _, rfl, rfl, by decide, rfl⟩
    have h20 : (numbered n).length = 20 := by rcases harg with ⟨-, rfl⟩ | ⟨-, rfl⟩ <;> rfl
    unfold IsItem
    rw [h20]
    exact .packetV4 rfl (.inr ⟨_, rfl⟩) hd
  refine ⟨rfl, fun total sk h hreach hheard => ?_⟩
  obtain ⟨-, k, hk, hsent, rfl⟩ := hreach.of_scripted
  rw [hsent] at hheard
  rcases Nat.lt_or_ge k 6 with hlt | hge
  · -- until `END` no item is due
    have hcheck : ∀ k < 6, (heard (((sessionScript arg n).take k).map Prod.fst)).all (fun h =>
        h.due ≤ 6 && delivered (((sessionScript arg n).take k).flatMap Prod.snd) =
          terminated (replyLines.take h.due)) = true := by
      rcases harg with ⟨rfl, rfl⟩ | ⟨rfl, rfl⟩ <;> decide
    have := hcheck k hlt
    rw [hheard, Option.all_some, Bool.and_eq_true, decide_eq_true_eq, decide_eq_true_eq] at this
    refine ⟨_, [], transcript_replyLines this.1 (by simp) (fun _ => rfl)
      (fun _ _ _ _ _ => Server.answers_nil) (fun _ _ => rfl), ?_⟩
    rw [this.2]
    exact List.prefix_append _ _
  · obtain rfl : k = 6 := Nat.le_antisymm hk hge
    have hh : heard (((sessionScript arg n).take 6).map Prod.fst) =
        some { due := 6, station := Bytes.lit "A_B", requests := [(Bytes.lit "A_B", arg.drop 1)], streaming := true } := by
      rcases harg with ⟨rfl, rfl⟩ | ⟨rfl, rfl⟩ <;> decide
    obtain rfl := Option.some.inj (hheard.symm.trans hh)
    have hname : ∀ stationId, Bytes.encodeAscii stationId = some (Bytes.lit "A_B") → stationId = "A_B".toList :=
      fun stationId h => Bytes.encodeAscii_inj h rfl
    refine ⟨_, [(numbered n, .packet (numberedFrame n))], transcript_replyLines (Nat.le_refl 6)
      (by simpa using hitem) nofun ?_ ?_, ?_⟩
    · intro stationId name arg' hstation hmem
      obtain ⟨rfl, rfl⟩ := Prod.mk.inj (List.mem_singleton.1 hmem)
      obtain rfl := hname stationId hstation
      rcases harg with ⟨rfl, rfl⟩ | ⟨rfl, rfl⟩
      · refine ⟨fun _ => ⟨_, List.suffix_refl _, [numberedFrame 8], rfl⟩, fun m hm => ?_⟩
        have hnil : Text.intNumeral 10 m = [] := Bytes.encodeAscii_inj hm rfl
        cases m with
        | ofNat m => exact absurd hnil (Text.numeral_ne_nil m)
        | negSucc m => cases hnil
      · refine ⟨nofun, fun m hm => ?_⟩
        obtain rfl : m = 8 :=
          Text.intNumeral_inj (b := 10) (by decide) (by decide) (Bytes.encodeAscii_inj hm rfl)
        exact List.prefix_refl _
    · intro stationId hno
      have hne : (numberedFrame n).stationId ≠ stationId := by
        rintro rfl
        exact hno (Bytes.lit "A_B") (arg.drop 1) rfl List.mem_cons_self
      simp [dataFrames, dataFrame, hne]
    · rcases harg with ⟨rfl, rfl⟩ | ⟨rfl, rfl⟩ <;> exact List.prefix_refl _

def resumingRun : ClientM (List SeedLinkPacket) := do
  connect true
  @collectSteps Externals.bare 6 .start

/-- The client gets packet 7, is cut off, reconnects and gets packet 8. -/
theorem collect_contiguous_reconnects :
    ∃ c g pkts c', @Begins Externals.bare resumingClient c ∧ @Collects Externals.bare .start c pkts g c' ∧
      pkts = [toPacket (numberedFrame 7), toPacket (numberedFrame 8)] ∧
      pkts.filter (·.stationId = "A_B".toList) <:+: (logsAB.log "A_B".toList).map toPacket := by
  have hreturned : returned resumingRun resumingClient =
      some [toPacket (numberedFrame 7), toPacket (numberedFrame 8)] := by decide +kernel
  obtain ⟨c', hrun⟩ := exists_of_returned hreturned
  obtain ⟨⟨⟩, c, hconnect, hsteps⟩ := exists_of_seq (x := connect true)
    (f := fun _ => @collectSteps Externals.bare 6 .start) hrun
  obtain ⟨g, hcollects⟩ := @exists_collects Externals.bare _ _ _ _ _ hsteps
  have hserver : ∀ n sk, resumingClient.env.dial n = .opened sk →
      @Server.Honours Externals.bare.toPymseed logsAB resumingClient.cfg sk := by
    intro n sk hdial
    match n, hdial with
    | 0, rfl => exact @honours_cutSession Pymseed.bare [] 7 (.inl ⟨rfl, rfl⟩)
    | 1, rfl => exact @honours_cutSession Pymseed.bare (Bytes.lit " 8") 8 (.inr ⟨rfl, rfl⟩)
  have hbegins := @Begins.connected Externals.bare _ _ hconnect
  refine ⟨c, g, _, c', hbegins, hcollects, rfl, ?_⟩
  exact @collect_contiguous Externals.bare logsAB c c' resumingClient g _ RecvBuf.wf_fresh rfl rfl rfl
    (by decide) (by decide) (by decide) (by decide) rfl hserver hbegins hcollects _

end SeedLink
