import SeedLink.Escapes

/-!
# How streaming without reconnecting ends

`collect(reconnect=False)` ends silently behind the server's END and raises `SeedLinkError` otherwise,
with two exceptions: what a pass does not survive escapes as something else, and a heartbeat that cannot
be sent closes the connection in silence, which the next pass takes for an end (`collect_ends_iff`).
-/

namespace SeedLink

open StateExc Client

section ending
variable [Externals] {c c₀ : Client} {g : Collect} {last : Int} {next : Option Int}

/-- The next step ends the generator behind END only, and raises `SeedLinkError` only. -/
structure EndsAloud (g : Collect) (c : Client) : Prop where
  finished : ∀ pkt c', g ≠ .finished → collectStep false g c = .ok (pkt, .finished) c' →
    c.CanRead (Bytes.lit "END" <+: ·)
  surfaces : Surfaces (collectStep false g) c

/-- The pass finds nothing to read and a heartbeat due that the connection does not take. -/
structure Client.HeartbeatFails (last : Int) (next : Option Int) (c : Client) : Prop where
  current : c.Current last
  idle : ¬ c.Readable
  due : c.ticked.HeartbeatDue next
  refused : c.Refuses heartbeat

/-- A client that `collect` streams from. -/
structure Client.Listens (c : Client) : Prop where
  connected : c.sock.isSome = true
  wf : c.rb.WF
  inScope : c.inScope = false

/-- Where such a generator stands. -/
def Client.Stays (c₀ c : Client) : Collect → Prop
  | .start => c = c₀
  | .looping _ _ => c.Listens
  | .reconnecting => False
  | .finished => True

/-- The step lemma for the loop: it goes on with a connection or ends behind END. -/
theorem wp_collectPass_listens (h : c.Listens) (hescape : ¬ c.PassEscapes last)
    (hbeat : ¬ c.HeartbeatFails last next) :
    wp (collectPass false last next)
      (fun r c' => c₀.Stays c' r.2 ∧ (r.2 = .finished → c.CanRead (Bytes.lit "END" <+: ·)))
      (fun stop _ => ∀ e, stop = .raised e → e.isSeedLinkError = true) c := by
  have hclose : ∀ (e : Exn) (c' : Client), e.isSeedLinkError = true →
      wp (closeAndRaise false e (.looping last next))
        (fun r c' => c₀.Stays c' r.2 ∧ (r.2 = .finished → c.CanRead (Bytes.lit "END" <+: ·)))
        (fun stop _ => ∀ e, stop = .raised e → e.isSeedLinkError = true) c' := by
    intro e c' he
    simp only [closeAndRaise, wp_bind, wp_close, Bool.false_eq_true, if_false, wp_raise]
    rintro e' ⟨⟩
    exact he
  refine wp_collectPass (fun hnone => ?_) (fun _ _ message => hclose _ _ rfl) fun hsk hcur => ?_
  · have := h.connected
    rw [hnone] at this
    cases this
  by_cases hread : c.Readable
  · refine wp_mono (wp_awaitFrame_gets h.wf h.inScope hescape hsk hcur) ?_ ?_
    · rintro (_ | x) c' hgets
      · exact absurd hread (hgets.idle rfl)
      · refine wp_handleFrame (fun frame hf => hgets.message frame (congrArg some hf)) ?_
          (fun e he => hclose e c' he) ?_
        · rintro rfl
          exact ⟨trivial, fun _ => hgets.endOfStream rfl⟩
        · intro pkt last' c'' hsock hrb hscope
          exact ⟨⟨hsock ▸ hgets.connected, hrb ▸ hgets.wf, hscope.trans hgets.inScope⟩, by rintro ⟨⟩⟩
    · rintro (e | _) c' he
      · show if _ then _ else _
        rw [if_pos (he e rfl)]
        exact hclose _ _ (he e rfl)
      · exact he
  · -- nothing to read: the heartbeat is sent if it is due
    refine wp_awaitFrame_of_not_readable hread ?_
    refine wp_keepalivePass hsk (fun _ => ⟨⟨hsk, h.wf, h.inScope⟩, by rintro ⟨⟩⟩) (fun due c' _ hsend => ?_)
      fun due hdue hrefuse => absurd ⟨hcur, hread, hdue, hrefuse⟩ hbeat
    exact ⟨⟨hsend.isSome, hsend.rb ▸ h.wf, (inScope_of_frame hsend.frame).trans h.inScope⟩, by rintro ⟨⟩⟩

/-- The pass closes the connection without a word, and the next one ends the generator. -/
theorem collectPass_of_heartbeatFails (h : c.HeartbeatFails last next) :
    ∃ next' c', collectPass false last next c = .ok (none, .looping last next') c' ∧ c'.sock = none := by
  have hsk : c.sock.isSome = true := by
    obtain ⟨sk, -, hsk, -⟩ := h.refused
    rw [hsk]
    rfl
  obtain ⟨⟨pkt, g'⟩, c', hrun, ⟨hpkt, next', hg⟩, hnone⟩ := wp_exists
    (x := collectPass false last next) (s := c)
    (Q := fun r c' => (r.1 = none ∧ ∃ next', r.2 = .looping last next') ∧ c'.sock = none) (by
      refine wp_collectPass (fun hnone => by rw [hnone] at hsk; cases hsk) (fun _ hidle => absurd h.current hidle)
        fun _ _ => wp_awaitFrame_of_not_readable h.idle ?_
      refine wp_keepalivePass hsk (fun hquiet => absurd h.due hquiet) (fun due c' _ hsend => ?_)
        fun due _ _ => ⟨⟨rfl, _, rfl⟩, rfl⟩
      obtain ⟨sk, incoming, hsk, hpeer, -⟩ := hsend
      obtain ⟨sk', detail, hsk', hpeer'⟩ := h.refused
      obtain rfl : sk = sk' := Option.some.inj (hsk.symm.trans hsk')
      rw [hpeer'] at hpeer
      cases hpeer)
  obtain rfl : pkt = none := hpkt
  obtain rfl : g' = .looping last next' := hg
  exact ⟨next', c', hrun, hnone⟩

theorem not_endsAloud_of_closed (h : c.sock = none) : ¬ EndsAloud (.looping last next) c := by
  intro hends
  obtain ⟨s, later, hf, -⟩ := hends.finished none c nofun (collectPass_of_closed h)
  have := hf.isSome
  rw [h] at this
  cases this

section run
variable (hstreaming : c₀.streaming = true) (h₀ : c₀.Listens)
include hstreaming h₀

theorem wp_start_stays :
    wp (collectStep false .start) (fun r c' => c₀.Stays c' r.2 ∧ r.2 ≠ .finished) (fun _ _ => False) c₀ := by
  simp only [collectStep, wp_bind, wp_get, wp_ite, wp_pure]
  rw [if_neg (by simp [hstreaming])]
  exact wp_enterLoop fun last next ticks => ⟨⟨h₀.connected, h₀.wf, h₀.inScope⟩, nofun⟩

/-- The step lemma. -/
theorem wp_collectStep_stays (hs : c₀.Stays c g)
    (hno : ∀ last next, g = .looping last next → ¬ c.PassEscapes last ∧ ¬ c.HeartbeatFails last next) :
    wp (collectStep false g) (fun r c' => c₀.Stays c' r.2 ∧
      (g ≠ .finished → r.2 = .finished → c.CanRead (Bytes.lit "END" <+: ·)))
      (fun stop _ => ∀ e, stop = .raised e → e.isSeedLinkError = true) c := by
  cases g with
  | start =>
    obtain rfl : c = c₀ := hs
    exact wp_mono (wp_start_stays hstreaming h₀) (fun _ _ h => ⟨h.1, fun _ hf => absurd hf h.2⟩)
      fun _ _ h => h.elim
  | looping last next =>
    obtain ⟨hescape, hbeat⟩ := hno last next rfl
    exact wp_mono (wp_collectPass_listens hs hescape hbeat) (fun _ _ h => ⟨h.1, fun _ => h.2⟩) fun _ _ h => h
  | reconnecting => exact hs.elim
  | finished => exact ⟨trivial, fun h => absurd rfl h⟩

/-- The run lemma. -/
theorem Walks.stays (hno : ∀ last next c, Walks false c₀ (.looping last next) c →
      ¬ c.PassEscapes last ∧ ¬ c.HeartbeatFails last next) (h : Walks false c₀ g c) : c₀.Stays c g := by
  induction h with
  | start => rfl
  | step h hstep ih =>
    exact (wp_ok (wp_collectStep_stays hstreaming h₀ ih fun last next hg => hno last next _ (hg ▸ h)) hstep).1

/-- A run without reconnecting ends silently behind END only and raises `SeedLinkError` only if and only
if none of its passes gets to a frame it does not survive or to a heartbeat it cannot send. -/
theorem collect_ends_iff : (∀ g c, Walks false c₀ g c → EndsAloud g c) ↔
    ∀ last next c, Walks false c₀ (.looping last next) c →
      ¬ c.PassEscapes last ∧ ¬ c.HeartbeatFails last next := by
  constructor
  · intro hends last next c h
    refine ⟨fun hescape => ?_, fun hbeat => ?_⟩
    · obtain ⟨e, c', he, hrun⟩ := collectPass_of_escapes hescape
      have := (hends _ _ h).surfaces e c' hrun
      rw [he] at this
      cases this
    · obtain ⟨next', c', hrun, hnone⟩ := collectPass_of_heartbeatFails hbeat
      exact not_endsAloud_of_closed hnone (hends _ _ (h.step hrun))
  · intro hno g c h
    have hwp := wp_collectStep_stays hstreaming h₀ (h.stays hstreaming h₀ hno)
      fun last next hg => hno last next c (hg ▸ h)
    exact ⟨fun pkt c' hg hrun => (wp_ok hwp hrun).2 hg rfl, fun e c' hrun => wp_error hwp hrun e rfl⟩

end run

end ending

/-- A v4 client that streams and sends heartbeats every second, and has read nothing yet. -/
def heartbeating (incoming : List Recv) (peer : Peer) : Client :=
  { cfg := { keepalive := some 1000000000 }
    env := ⟨fun _ => .timeout, fun n => 1000000000 * n, fun n => n ≠ 0⟩, protocol := some .v4,
    sock := some { incoming, peer }, streaming := true }

/-- A server that ends the stream at once. -/
theorem collect_ends_heartbeating :
    let c₀ := heartbeating [.data (Bytes.lit "END")] fun _ pending _ => .ok pending
    (∀ g c, @Walks Externals.bare false c₀ g c → @EndsAloud Externals.bare g c) ↔
      ∀ last next c, @Walks Externals.bare false c₀ (.looping last next) c →
        ¬ @Client.PassEscapes Externals.bare last c ∧ ¬ c.HeartbeatFails last next :=
  @collect_ends_iff Externals.bare _ rfl ⟨rfl, RecvBuf.wf_fresh, rfl⟩

/-- The connection breaks while there is nothing to read. -/
def heartbeatLost : Client := heartbeating [] fun _ _ _ => .error "Broken pipe"

/-- The first heartbeat cannot be sent, and the generator ends in silence. -/
theorem not_endsAloud_heartbeatLost :
    ¬ ∀ g c, @Walks Externals.bare false heartbeatLost g c → @EndsAloud Externals.bare g c := by
  let _ : Externals := Externals.bare
  intro hends
  have hstart : collectStep false .start heartbeatLost =
      .ok (none, .looping 0 (some 2000000000)) { heartbeatLost with ticks := 2 } := rfl
  have hfails : Client.HeartbeatFails 0 (some 2000000000) { heartbeatLost with ticks := 2 } :=
    ⟨by simp [Client.Current, heartbeatLost, heartbeating],
      by simp [Client.Readable, heartbeatLost, heartbeating, RecvBuf.fresh],
      ⟨_, _, rfl, rfl, by simp [heartbeatLost, heartbeating, Client.ticked]⟩, _, _, rfl, rfl⟩
  obtain ⟨next', c', hrun, hnone⟩ := collectPass_of_heartbeatFails hfails
  exact not_endsAloud_of_closed hnone (hends _ _ (.step (.step .start hstart) hrun))

end SeedLink
