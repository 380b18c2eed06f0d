import SeedLink.Contiguous
import SeedLink.Restarts

/-!
# Fetching what a server has

A server that runs out of packets ends its stream with `END`, behind everything that has been asked for
(`Server.Fetches`). When a run of `collect(reconnect=True)` ends, however often it had to reconnect, its
packets reach the end of the log of every station it follows (`collect_fetches`).
-/

namespace SeedLink

open StateExc Client

/-! ### Servers that send `END` last -/

/-- The station's packets are all that a `DATA` with this argument asks for. -/
structure Server.Fulfils (server : Server) (stationId : Text) (arg : Bytes) (frames : List RawFrame) :
    Prop where
  bare : arg = [] → frames <:+ server.log stationId
  numbered : ∀ n, Bytes.encodeAscii (Text.intNumeral 10 n) = some arg →
    frames = (server.log stationId).filter fun frame => n ≤ frame.number

theorem suffix_of_fulfils {server : Server} {stationId : Text} {prev frames : List RawFrame} {pos : Option Int}
    {arg : Bytes} (hprev : prev <:+: server.log stationId) (hpos : CaughtUp prev pos)
    (harg : Bytes.encodeAscii (positionArg pos) = some arg) (h : server.Fulfils stationId arg frames) :
    prev ++ frames <:+ server.log stationId := by
  cases hlast : prev.getLast? with
  | some frame =>
    obtain rfl := hpos frame hlast
    have hlt : (fun f : RawFrame => decide (frame.number + 1 ≤ f.number)) =
        fun f => decide (frame.number < f.number) := by
      funext f
      simp only [Int.add_one_le_iff]
    rw [h.numbered _ harg, hlt]
    exact (server.ascending stationId).resume_suffix hprev hlast
  | none =>
    rw [List.getLast?_eq_none_iff.1 hlast, List.nil_append]
    cases pos with
    | none => exact h.bare (Option.some.inj harg).symm
    | some n =>
      rw [h.numbered _ harg]
      exact (server.ascending stationId).filter_suffix (p := fun m => n + 1 ≤ m) fun _ _ hlt hle => by omega

theorem Sock.Reaches.peer {sk₀ sk : Sock} {total : Bytes} (h : sk₀.Reaches total sk) : sk.peer = sk₀.peer := by
  induction h with
  | opened => rfl
  | reads _ _ ih | sends _ _ ih => exact ih

section fetching
variable [Pymseed]

/-- A connection that is honoured, and on which `END` comes only behind everything that has been asked
for. -/
structure Server.Fetches (server : Server) (cfg : Config) (sk₀ : Sock) : Prop extends server.Honours cfg sk₀ where
  complete : ∀ total sk h lines done b, sk₀.Reaches total sk → heard sk.sent = some h →
    server.Transcript cfg h lines (done ++ [(b, .endOfStream)]) →
    terminated lines ++ encoded (done ++ [(b, .endOfStream)]) <+: total →
      ∀ stationId name arg, Bytes.encodeAscii stationId = some name → (name, arg) ∈ h.requests →
        server.Fulfils stationId arg (dataFrames stationId done)

variable {server : Server} {cfg : Config} {sk₀ sk₁ : Sock}

/-- Before anything is sent nothing is owed. -/
theorem Server.Honours.delivered_eq_nil (h : server.Honours cfg sk₀) : delivered sk₀.incoming = [] := by
  obtain ⟨lines, items, htr, hpre⟩ := h.owed _ sk₀ {} .opened (by rw [h.fresh]; rfl)
  rw [List.length_eq_zero_iff.1 htr.due, htr.silent rfl] at hpre
  exact List.prefix_nil.1 hpre

/-- What two new connections with one peer lead to is the same. -/
theorem Server.Honours.reaches (h₀ : server.Honours cfg sk₀) (h₁ : server.Honours cfg sk₁)
    (hpeer : sk₀.peer = sk₁.peer) {total : Bytes} {sk : Sock} (h : sk₀.Reaches total sk) : sk₁.Reaches total sk := by
  induction h with
  | opened =>
    have heq : sk₀ = { sk₁ with incoming := sk₀.incoming } := by
      have hsent : sk₀.sent = sk₁.sent := h₀.fresh.trans h₁.fresh.symm
      cases sk₀
      cases sk₁
      simp_all
    rw [h₀.delivered_eq_nil, ← h₁.delivered_eq_nil, heq]
    refine .reads .opened ?_
    show delivered sk₀.incoming <:+ _
    rw [h₀.delivered_eq_nil]
    exact List.nil_suffix
  | reads _ hrest ih => exact .reads ih hrest
  | sends _ hok ih => exact .sends ih hok

end fetching

/-! ### Where connections come from -/

/-- The connection is one that has been dialled. -/
def Client.Dialled (c : Client) : Prop :=
  ∀ sk, c.sock = some sk → ∃ n sk₀, c.env.dial n = .opened sk₀ ∧ sk.peer = sk₀.peer

def Client.KeepsDialled (c c' : Client) : Prop := c'.env = c.env ∧ (c.Dialled → c'.Dialled)

instance : IsPreorder Client Client.KeepsDialled where
  refl _ := ⟨rfl, id⟩
  trans _ _ _ h h' := ⟨h'.1.trans h.1, h'.2 ∘ h.2⟩

theorem Client.dialled_of_none {c : Client} (h : c.sock = none) : c.Dialled := by
  intro sk hsk
  rw [h] at hsk
  cases hsk

theorem Client.Dialled.of_peer {c c' : Client} (h : c.Dialled) (henv : c'.env = c.env) {sk sk' : Sock}
    (hsk : c.sock = some sk) (hsk' : c'.sock = some sk') (hpeer : sk'.peer = sk.peer) : c'.Dialled := by
  intro sk₁ hsk₁
  obtain rfl : sk' = sk₁ := Option.some.inj (hsk'.symm.trans hsk₁)
  rw [henv, hpeer]
  exact h sk hsk

theorem keepsDialled_ensure (n : Nat) : Keeps Client.KeepsDialled (ensure n) := by
  refine keeps_ensure fun c c' h => ?_
  cases h with
  | kept | enough => exact ⟨rfl, id⟩
  | filled hsk => exact ⟨rfl, fun h => h.of_peer rfl hsk rfl rfl⟩
  | closed => exact ⟨rfl, fun _ => dialled_of_none rfl⟩

theorem keepsDialled_sendall (wire : Bytes) : Keeps Client.KeepsDialled (sendall wire) := by
  intro c
  unfold wp sendall
  cases hsk : c.sock with
  | none => exact ⟨rfl, id⟩
  | some sk =>
    simp only
    cases sk.peer sk.sent sk.incoming wire with
    | error => exact ⟨rfl, fun _ => dialled_of_none rfl⟩
    | ok incoming => exact ⟨rfl, fun h => h.of_peer rfl hsk rfl rfl⟩

theorem keepsDialled_connectSocket : Keeps Client.KeepsDialled connectSocket := by
  refine fun c => wp_connectSocket (fun _ => ⟨rfl, id⟩) (fun sk _ hdial => ⟨rfl, fun _ sk' hsk' => ?_⟩)
    fun _ _ _ _ => ⟨rfl, id⟩
  cases hsk'
  exact ⟨c.dials, sk, hdial, rfl⟩

theorem keepsDialled : Handles Client.KeepsDialled where
  ensure := keepsDialled_ensure
  close _ := ⟨rfl, fun _ => dialled_of_none rfl⟩
  rb _ _ _ := ⟨rfl, id⟩
  polls _ _ := ⟨rfl, id⟩
  sendall := keepsDialled_sendall
  connectSocket := keepsDialled_connectSocket
  rest c c' _ henv _ hsock _ := by
    refine ⟨henv, fun h sk hsk => ?_⟩
    rw [henv]
    exact h sk (hsock ▸ hsk)

/-! ### The end of a run -/

section runs
variable [Externals] {server : Server} {c c' : Client} {g : Collect} {got : List RawFrame}

theorem keepsDialled_negotiate : Keeps Client.KeepsDialled negotiate :=
  keepsDialled.speaks.negotiate (fun _ => trivial) fun _ _ => ⟨rfl, id⟩

theorem keepsDialled_collectStep (reconnect : Bool) (g : Collect) :
    Keeps Client.KeepsDialled (collectStep reconnect g) :=
  keepsDialled.speaks.collectStep trivial (keepsDialled.connect true) keepsDialled_negotiate
    (fun _ _ => ⟨rfl, id⟩) reconnect g

/-- In a session that goes on behind `prev`, `END` has been received behind the frames `got`. -/
def Client.Ended (server : Server) (c : Client) (got : List RawFrame) : Prop :=
  ∃ requests done prev b, c.Receives server requests (done ++ [(b, .endOfStream)]) ∧
    c.base.Continues server requests prev ∧
    ∀ stationId, stationFrames stationId got = stationFrames stationId prev ++ dataFrames stationId done

theorem Client.Ended.suffix (h : c.Ended server got) (hdialled : c.Dialled)
    (hfetch : ∀ n sk, c.env.dial n = .opened sk → server.Fetches c.cfg sk) {s : Stream} (hs : s ∈ c.base.streams) :
    stationFrames s.stationId got <:+ server.log s.stationId := by
  obtain ⟨requests, done, prev, b, hrecv, hcont, hgot⟩ := h
  obtain ⟨sk₀, sent, heard', lines, hhon, hheard, -, rfl, htr, hon⟩ := hrecv
  obtain ⟨sk, hsk, rfl, hreach⟩ := hon.conn
  obtain ⟨n, sk₁, hdial, hpeer⟩ := hdialled sk hsk
  have hreach₁ := hhon.reaches (hfetch n sk₁ hdial).toHonours (hreach.peer.symm.trans hpeer) hreach
  obtain ⟨pos, name, arg, hname, hmem, harg, hpos⟩ := hcont.asked s hs
  rw [hgot]
  refine suffix_of_fulfils (hcont.segment _) hpos harg ?_
  exact (hfetch n sk₁ hdial).complete _ sk heard' lines done b hreach₁ hheard htr (List.prefix_append _ _)
    s.stationId name arg hname hmem

/-- A step that ends the run has received `END`. -/
def Client.Finishes (server : Server) (c : Client) (got : List RawFrame) (g : Collect)
    (r : Option SeedLinkPacket × Collect) : Prop :=
  r.2 = .finished → g ≠ .finished → r.1 = none ∧
    ∃ c₁, c.KeepsDialled c₁ ∧ c.SameSelection c₁ ∧ c₁.Ended server got

theorem wp_handleFrame_finishes {c₁ : Client} {last : Int} {next : Option Int} {x : Received}
    (hend : x = .endOfStream → c.KeepsDialled c₁ ∧ c.SameSelection c₁ ∧ c₁.Ended server got) :
    wp (handleFrame true last next x) (fun r _ => c.Finishes server got g r) (fun _ _ => True) c₁ := by
  have hagain : ∀ e : Exn, wp (closeAndRaise true e (.looping last next)) (fun r _ => c.Finishes server got g r)
      (fun _ _ => True) c₁ := by
    intro e
    simp only [closeAndRaise, wp_bind, wp_close, if_true, wp_pure]
    rintro ⟨⟩
  cases x with
  | endOfStream => exact fun _ _ => ⟨rfl, c₁, hend rfl⟩
  | reply resp => exact hagain _
  | packet frame =>
    simp only [handleFrame, wp_ite, wp_bind, wp_liftExcept, wp_monotonic, wp_modify, wp_pure]
    split
    · cases jsonErrorMessage frame.payload with
      | ok message => exact hagain _
      | error e => trivial
    · split <;> rintro ⟨⟩

theorem wp_collectStep_finishes (h : c.Stands server g got) :
    wp (collectStep true g) (fun r _ => c.Finishes server got g r) (fun _ _ => True) c := by
  have henter : ∀ c₁, wp enterLoop (fun g' _ => c.Finishes server got g (none, g')) (fun _ _ => True) c₁ :=
    fun c₁ => wp_enterLoop fun _ _ _ => by rintro ⟨⟩
  cases g with
  | start =>
    simp only [collectStep, wp_bind, wp_get, wp_ite, wp_pure]
    split
    · exact wp_mono (keepsDialled_negotiate c) (fun _ c₁ _ => henter c₁) fun _ _ _ => trivial
    · exact henter c
  | looping last next =>
    have htick : c.KeepsDialled c.ticked := ⟨rfl, id⟩
    refine wp_collectPass (fun _ => by rintro ⟨⟩) (fun _ _ _ => ?_) fun hsock _ => ?_
    · simp only [closeAndRaise, wp_bind, wp_close, if_true, wp_pure]
      rintro ⟨⟩
    rcases h.session with hnone | ⟨hp, requests, done, prev, hr, hcont, hgot⟩
    · rw [hnone] at hsock
      cases hsock
    have hrt : c.ticked.Receives server requests done := hr.congr rfl rfl rfl
    refine wp_mono (wp_and (wp_awaitFrame_receives hrt hp)
      (wp_and (keepsDialled.speaks.toReading.awaitFrame c.ticked) (steady.reading.awaitFrame c.ticked))) ?_ ?_
    · rintro received c₁ ⟨⟨hcase, k, hc⟩, hdial, hsame⟩
      rcases hcase with ⟨rfl, hr₁⟩ | ⟨x, b, rfl, hr₁⟩
      · have hp₁ : c₁.protocol = some .v4 :=
          (protocol_of_core (c := { c.ticked with polls := k }) hc).trans hp
        refine wp_mono (wp_keepalivePass_receives hr₁ hp₁) (fun r _ hr hfin => ?_) fun _ _ _ => trivial
        obtain ⟨-, ⟨last', next', hnext⟩, -⟩ := hr
        rw [hnext] at hfin
        cases hfin
      · refine wp_handleFrame_finishes ?_
        rintro rfl
        have hsame₁ : c.SameSelection c₁ := IsTrans.trans _ c.ticked _ ⟨rfl, rfl, rfl⟩ hsame
        exact ⟨IsTrans.trans _ _ _ htick hdial, hsame₁, requests, done, prev, b, hr₁, hsame₁.base ▸ hcont, hgot⟩
    · rintro stop c₁ -
      cases stop with
      | blocked => trivial
      | raised e =>
        simp only
        split
        · simp only [closeAndRaise, wp_bind, wp_close, if_true, wp_pure]
          rintro ⟨⟩
        · trivial
  | reconnecting =>
    simp only [collectStep, wp_bind, wp_pure]
    refine wp_reconnectAttempt (F := fun _ _ => True) (fun _ _ => trivial) ?_ (fun _ _ _ => by rintro ⟨⟩) fun _ _ _ => trivial
    simp only [wp_bind]
    refine wp_mono (keepsDialled.connect true c) (fun _ c₁ _ => ?_) fun _ _ _ => trivial
    exact wp_mono (keepsDialled_negotiate c₁) (fun _ c₂ _ => henter c₂) fun _ _ _ => trivial
  | finished => exact fun _ h => absurd rfl h

theorem Collects.of_finished {g' : Collect} {pkts : List SeedLinkPacket} (hrun : Collects g c pkts g' c')
    (hg : g = .finished) : pkts = [] := by
  induction hrun with
  | nil => rfl
  | step hstep _ ih =>
    subst hg
    cases hstep
    exact ih rfl

/-- The run lemma: `END` has been received behind all the packets yielded. -/
theorem Collects.reaches_end {g' : Collect} {pkts : List SeedLinkPacket} (hrun : Collects g c pkts g' c')
    (h : c.Stands server g got) (hdialled : c.Dialled)
    (hfetch : ∀ n sk, c.env.dial n = .opened sk → server.Fetches c.cfg sk) (hg : g ≠ .finished)
    (hg' : g' = .finished) : ∃ new : List RawFrame, pkts = new.map toPacket ∧
      ∀ s ∈ c.base.streams, stationFrames s.stationId (got ++ new) <:+ server.log s.stationId := by
  induction hrun generalizing got with
  | nil => exact absurd hg' hg
  | @step g g₁ g' c c₁ c' pkt pkts hstep hrest ih =>
    obtain ⟨new, hnew, h₁⟩ := wp_ok (wp_collectStep_stands h) hstep
    have hkeeps : c.KeepsDialled c₁ := (keepsDialled_collectStep true g).ok hstep
    have hevolves : c.Evolves pkt c₁ := wp_ok (Q := fun r => c.Evolves r.1) (wp_collectStep_base true g) hstep
    have hcfg : c₁.cfg = c.cfg := by
      cases hevolves with
      | kept h => exact h.cfg
      | negotiated hsame hprep => exact hprep.cfg.trans hsame.cfg
      | received h => exact h.cfg
    by_cases hend : g₁ = .finished
    · obtain ⟨hnone, c₂, hkeeps₂, hsame₂, hended⟩ := wp_ok (wp_collectStep_finishes h) hstep hend hg
      have hnone : pkt = none := hnone
      refine ⟨[], by rw [hnone, hrest.of_finished hend]; rfl, fun s hs => ?_⟩
      rw [List.append_nil]
      refine hended.suffix (hkeeps₂.2 hdialled) ?_ (by rw [hsame₂.base]; exact hs)
      rw [hsame₂.env, hsame₂.cfg]
      exact hfetch
    · obtain ⟨new', rfl, hsuffix⟩ := ih h₁ (hkeeps.2 hdialled) (by rw [hkeeps.1, hcfg]; exact hfetch) hend hg'
      refine ⟨new ++ new', by rw [hnew, List.map_append], fun s hs => ?_⟩
      have hids : c₁.base.streams.map (·.stationId) = c.base.streams.map (·.stationId) := by
        rcases Cli.stationIds_of_evolves hevolves with ⟨hnil, -⟩ | heq
        · exact absurd hnil h.plain.ne
        · exact heq
      have hmem : s.stationId ∈ c₁.base.streams.map (·.stationId) := hids ▸ List.mem_map_of_mem hs
      obtain ⟨s₁, hs₁, heq⟩ := List.mem_map.1 hmem
      rw [← heq, ← List.append_assoc]
      exact hsuffix s₁ hs₁

theorem Begins.keepsDialled {c₀ : Client} (hbegin : Begins c₀ c) : c₀.KeepsDialled c := by
  cases hbegin with
  | connected h => exact (SeedLink.keepsDialled.connect true).ok h
  | negotiated h h' =>
    exact IsTrans.trans _ _ _ ((SeedLink.keepsDialled.connect true).ok h) (keepsDialled_negotiate.ok h')

theorem Begins.cfg {c₀ : Client} (hbegin : Begins c₀ c) : c.cfg = c₀.cfg := by
  cases hbegin with
  | connected h => exact ((steady.connect true).ok h).cfg
  | negotiated h h' => exact (wp_ok wp_negotiate_base h').cfg.trans ((steady.connect true).ok h).cfg

theorem Begins.stationIds {c₀ : Client} (hbegin : Begins c₀ c) (hne : c₀.base.streams ≠ []) :
    c.base.streams.map (·.stationId) = c₀.base.streams.map (·.stationId) := by
  cases hbegin with
  | connected h => rw [((steady.connect true).ok h).base]
  | @negotiated c₁ _ h h' =>
    have hbase : c₁.base = c₀.base := ((steady.connect true).ok h).base
    rw [(wp_ok wp_negotiate_base h').base]
    refine (Resolves.stationIds (Base.resolves_prepare (b := c₁.base) ?_)).trans (by rw [hbase])
    rw [hbase]
    exact hne

/-- A client that follows stations with distinct IDs and no wildcards, without a time window or
`all_data`, and whose v4 server sends `END` only behind everything that has been asked for: when a run of
`collect(reconnect=True)` ends, the packets yielded for a station it follows are the end of its log, without
gaps from the first of them to the last packet the server has. -/
theorem collect_fetches {c₀ : Client} {pkts : List SeedLinkPacket} (hwf : c₀.rb.WF)
    (hsock : c₀.sock = none) (hst : c₀.streaming = false) (hcache : c₀.base.matchCache = ∅)
    (hne : c₀.base.streams ≠ []) (hnodup : (c₀.base.streams.map (·.stationId)).Nodup)
    (hexact : ∀ s ∈ c₀.base.streams, isWildcard s.stationId = false)
    (hall : ∀ s ∈ c₀.base.streams, s.allData = false) (hstart : c₀.base.startTime = none)
    (hserver : ∀ n sk, c₀.env.dial n = .opened sk → server.Fetches c₀.cfg sk)
    (hbegin : Begins c₀ c) (hrun : Collects .start c pkts .finished c') {s : Stream} (hs : s ∈ c₀.base.streams) :
    pkts.filter (·.stationId = s.stationId) <:+ (server.log s.stationId).map toPacket := by
  have hb : c₀.base.Plain :=
    ⟨Base.cacheOk_of_matchCache_eq_empty hcache, hne, hnodup, hexact, hall, hstart⟩
  have hstands := hbegin.stands hwf.size_ge hsock hst hb fun n sk hdial => (hserver n sk hdial).toHonours
  have hkeeps := hbegin.keepsDialled
  obtain ⟨new, rfl, hsuffix⟩ := hrun.reaches_end hstands (hkeeps.2 (dialled_of_none hsock))
    (by rw [hkeeps.1, hbegin.cfg]; exact hserver) nofun rfl
  have hmem : s.stationId ∈ c.base.streams.map (·.stationId) := by
    rw [hbegin.stationIds hne]
    exact List.mem_map_of_mem hs
  obtain ⟨s₁, hs₁, heq⟩ := List.mem_map.1 hmem
  rw [List.filter_map]
  exact (heq ▸ hsuffix s₁ hs₁).map toPacket

end runs

/-! ### A fetch that is cut off once -/

/-- A session that asks for station A_B and is answered with these items. -/
def fetchScript (arg : Bytes) (items : List (Bytes × Received)) : List (Bytes × List Recv) :=
  (sessionScript arg 0).take 5 ++ [(Bytes.lit "END" ++ crlf, [.data (encoded items), .data []])]

def fetchSession (arg : Bytes) (items : List (Bytes × Received)) : Sock :=
  { incoming := [], peer := scripted (fetchScript arg items) }

def item (n : Nat) : Bytes × Received := (numbered n, .packet (numberedFrame n))

def endItem : Bytes × Received := (Bytes.lit "END", .endOfStream)

def fetchingClient : Client :=
  { resumingClient with
    env := ⟨fun
      | 0 => .opened (fetchSession [] [item 7])
      | 1 => .opened (fetchSession (Bytes.lit " 8") [item 8, endItem])
      | _ => .timeout, fun _ => 0, fun _ => true⟩ }

/-- What the two sessions ask for and get. -/
def InFetch (arg : Bytes) (items : List (Bytes × Received)) : Prop :=
  arg = [] ∧ items = [item 7] ∨ arg = Bytes.lit " 8" ∧ items = [item 8, endItem]

section witness
variable [Pymseed] {arg : Bytes} {items : List (Bytes × Received)}

theorem isItem_item {n : Nat} (h : n = 7 ∨ n = 8) : IsItem (item n) := by
  have hd : DecodesV4 (numbered n) (numberedFrame n) 20 := by
    rcases h with rfl | rfl <;> exact ⟨by decide, numberedHeader _, rfl, rfl, by decide, rfl⟩
  have h20 : (numbered n).length = 20 := by rcases h with rfl | rfl <;> rfl
  show Takes (some .v4) (numbered n) (.packet (numberedFrame n)) (numbered n).length
  rw [h20]
  exact .packetV4 rfl (.inr ⟨_, rfl⟩) hd

theorem InFetch.isItem (h : InFetch arg items) : ∀ item ∈ items, IsItem item := by
  rcases h with ⟨-, rfl⟩ | ⟨-, rfl⟩
  · simpa using isItem_item (.inl rfl)
  · have hend : IsItem endItem := .endOfStream (List.prefix_refl _)
    simpa using ⟨isItem_item (.inr rfl), hend⟩

/-- The replies come first, and what is asked for is answered at the end of the script. -/
theorem InFetch.owed (hin : InFetch arg items) {total : Bytes} {sk : Sock} {h : Heard}
    (hreach : (fetchSession arg items).Reaches total sk) (hheard : heard sk.sent = some h) :
    ∃ got, logsAB.Transcript fetchingClient.cfg h (replyLines.take h.due) got ∧
      total <+: terminated (replyLines.take h.due) ++ encoded got ∧
      (got = [] ∨ got = items ∧ h.requests = [(Bytes.lit "A_B", arg.drop 1)]) := by
  obtain ⟨-, k, hk, hsent, rfl⟩ := hreach.of_scripted
  rw [hsent] at hheard
  rcases Nat.lt_or_ge k 6 with hlt | hge
  · have hcheck : ∀ k < 6, (heard (((fetchScript arg items).take k).map Prod.fst)).all (fun h =>
        h.due ≤ 6 && delivered (((fetchScript arg items).take k).flatMap Prod.snd) =
          terminated (replyLines.take h.due)) = true := by
      rcases hin with ⟨rfl, rfl⟩ | ⟨rfl, rfl⟩ <;> decide
    have := hcheck k hlt
    rw [hheard, Option.all_some, Bool.and_eq_true, decide_eq_true_eq, decide_eq_true_eq] at this
    refine ⟨[], transcript_replyLines this.1 (by simp) (fun _ => rfl)
      (fun _ _ _ _ _ => Server.answers_nil) (fun _ _ => rfl), ?_, .inl rfl⟩
    rw [this.2]
    exact List.prefix_append _ _
  · obtain rfl : k = 6 := Nat.le_antisymm hk hge
    have hh : heard (((fetchScript arg items).take 6).map Prod.fst) =
        some { due := 6, station := Bytes.lit "A_B", requests := [(Bytes.lit "A_B", arg.drop 1)], streaming := true } := by
      rcases hin with ⟨rfl, rfl⟩ | ⟨rfl, rfl⟩ <;> decide
    obtain rfl := Option.some.inj (hheard.symm.trans hh)
    refine ⟨items, transcript_replyLines (Nat.le_refl 6) hin.isItem nofun ?_ ?_, ?_, .inr ⟨rfl, rfl⟩⟩
    · intro stationId name arg' hstation hmem
      obtain ⟨rfl, rfl⟩ := Prod.mk.inj (List.mem_singleton.1 hmem)
      obtain rfl : stationId = "A_B".toList := Bytes.encodeAscii_inj hstation rfl
      rcases hin with ⟨rfl, rfl⟩ | ⟨rfl, rfl⟩
      · refine ⟨fun _ => ⟨_, List.suffix_refl _, [numberedFrame 8], rfl⟩, fun m hm => ?_⟩
        have hnil : Text.intNumeral 10 m = [] := Bytes.encodeAscii_inj hm rfl
        cases m with
        | ofNat m => exact absurd hnil (Text.numeral_ne_nil m)
        | negSucc m => cases hnil
      · refine ⟨nofun, fun m hm => ?_⟩
        obtain rfl : m = 8 :=
          Text.intNumeral_inj (b := 10) (by decide) (by decide) (Bytes.encodeAscii_inj hm rfl)
        exact List.prefix_refl _
    · intro stationId hno
      have hne : stationId ≠ "A_B".toList := by
        rintro rfl
        exact hno (Bytes.lit "A_B") (arg.drop 1) rfl List.mem_cons_self
      have hne' : ∀ n, (numberedFrame n).stationId ≠ stationId := fun n h => hne h.symm
      rcases hin with ⟨-, rfl⟩ | ⟨-, rfl⟩ <;> simp [dataFrames, dataFrame, item, endItem, hne']
    · rcases hin with ⟨rfl, rfl⟩ | ⟨rfl, rfl⟩ <;> exact List.prefix_refl _

theorem InFetch.fetches (hin : InFetch arg items) : logsAB.Fetches fetchingClient.cfg (fetchSession arg items) := by
  refine ⟨⟨rfl, fun total sk h hreach hheard => ?_⟩, fun total sk h lines done b hreach hheard htr hpre => ?_⟩
  · obtain ⟨got, htr, hpre, -⟩ := hin.owed hreach hheard
    exact ⟨_, got, htr, hpre⟩
  obtain ⟨got, htr', htotal, hcase⟩ := hin.owed hreach hheard
  have hpre := hpre.trans htotal
  have hlen : lines.length = (replyLines.take h.due).length := htr.due.trans htr'.due.symm
  obtain rfl : lines = replyLines.take h.due := (prefix_of_terminated htr.isLine htr'.isLine (Nat.le_of_eq hlen)
    ((List.prefix_append _ _).trans hpre)).eq_of_length hlen
  rw [List.prefix_append_right_inj] at hpre
  have hdone := prefix_of_encoded htr.isItem htr'.isItem hpre
  rcases hcase with rfl | ⟨rfl, hreq⟩
  · simp at hdone
  intro stationId name arg' hstation hmem
  rw [hreq] at hmem
  obtain ⟨rfl, rfl⟩ := Prod.mk.inj (List.mem_singleton.1 hmem)
  obtain rfl : stationId = "A_B".toList := Bytes.encodeAscii_inj hstation rfl
  rcases hin with ⟨rfl, rfl⟩ | ⟨rfl, rfl⟩
  · cases done with
    | nil =>
      obtain ⟨rfl, -⟩ := Prod.mk.inj (List.cons_prefix_cons.1 hdone).1
      simp_all [item]
    | cons _ done => simp [List.cons_prefix_cons] at hdone
  · cases done with
    | nil => simp [List.cons_prefix_cons, item] at hdone
    | cons x done =>
      cases done with
      | nil =>
        obtain rfl : x = item 8 := (List.cons_prefix_cons.1 hdone).1
        refine ⟨nofun, fun m hm => ?_⟩
        obtain rfl : m = 8 :=
          Text.intNumeral_inj (b := 10) (by decide) (by decide) (Bytes.encodeAscii_inj hm rfl)
        rfl
      | cons _ done => simp [List.cons_prefix_cons] at hdone

end witness

/-- Steps of the generator, and where it stands behind them. -/
def collectTo [Externals] : Nat → Collect → ClientM (List SeedLinkPacket × Collect)
  | 0, g => return ([], g)
  | n + 1, g => do
    let r ← collectStep true g
    let rest ← collectTo n r.2
    return (r.1.toList ++ rest.1, rest.2)

theorem collects_of_collectTo [Externals] {n : Nat} {g : Collect} {c c' : Client} {r : List SeedLinkPacket × Collect}
    (h : collectTo n g c = .ok r c') : Collects g c r.1 r.2 c' := by
  induction n generalizing g c r c' with
  | zero => cases h; exact .nil
  | succ n ih =>
    obtain ⟨r₁, c₁, hstep, hrest⟩ := exists_of_seq (x := collectStep true g)
      (f := fun r => do let rest ← collectTo n r.2; return (r.1.toList ++ rest.1, rest.2)) h
    obtain ⟨r₂, c₂, hrest, hpure⟩ := exists_of_seq (x := collectTo n r₁.2) hrest
    cases hpure
    exact .step hstep (ih hrest)

def fetchingRun : ClientM (List SeedLinkPacket × Collect) := do
  connect true
  @collectTo Externals.bare 7 .start

/-- The client gets packet 7, is cut off, reconnects, gets packet 8 and `END`. -/
theorem collect_fetches_cut :
    ∃ c pkts c', @Begins Externals.bare fetchingClient c ∧ @Collects Externals.bare .start c pkts .finished c' ∧
      pkts = [toPacket (numberedFrame 7), toPacket (numberedFrame 8)] ∧
      pkts.filter (·.stationId = "A_B".toList) <:+ (logsAB.log "A_B".toList).map toPacket := by
  have hreturned : returned fetchingRun fetchingClient =
      some ([toPacket (numberedFrame 7), toPacket (numberedFrame 8)], .finished) := by decide +kernel
  obtain ⟨c', hrun⟩ := exists_of_returned hreturned
  obtain ⟨⟨⟩, c, hconnect, hsteps⟩ := exists_of_seq (x := connect true)
    (f := fun _ => @collectTo Externals.bare 7 .start) hrun
  have hcollects := @collects_of_collectTo Externals.bare _ _ _ _ _ hsteps
  have hserver : ∀ n sk, fetchingClient.env.dial n = .opened sk →
      @Server.Fetches Externals.bare.toPymseed logsAB fetchingClient.cfg sk := by
    intro n sk hdial
    match n, hdial with
    | 0, rfl => exact @InFetch.fetches Pymseed.bare [] _ (.inl ⟨rfl, rfl⟩)
    | 1, rfl => exact @InFetch.fetches Pymseed.bare (Bytes.lit " 8") _ (.inr ⟨rfl, rfl⟩)
  have hbegins := @Begins.connected Externals.bare _ _ hconnect
  refine ⟨c, _, c', hbegins, hcollects, rfl, ?_⟩
  exact @collect_fetches Externals.bare logsAB c c' fetchingClient _ RecvBuf.wf_fresh rfl rfl rfl
    (by decide) (by decide) (by decide) (by decide) rfl hserver hbegins hcollects { stationId := "A_B".toList }
    (by decide)

end SeedLink
