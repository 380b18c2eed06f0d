import SeedLink.Exchange

/-!
# The passes of `collect`

What `collect` does with its connection before it looks at a frame: it polls, and receives a frame
if something is readable. With nothing to read it may send a heartbeat.
-/

namespace SeedLink

open StateExc Client

theorem Client.Feeds.congr {c c' : Client} {s : Bytes} {later : List Recv} (h : c.Feeds s later)
    (hrb : c'.rb = c.rb) (hsock : c'.sock = c.sock) (hd : c'.deadline = c.deadline) :
    c'.Feeds s later := by
  obtain ⟨u, now, hat, hnow, hs⟩ := h
  exact ⟨u, now, ⟨hrb ▸ hat.wf, hrb ▸ hat.unread, hsock ▸ hat.conn⟩, hd ▸ hnow, hs⟩

/-- The poll finds something. -/
def Client.Readable (c : Client) : Prop :=
  c.rb.start < c.rb.stop ∨ c.env.readable c.polls = true

section passes
variable {c : Client} {s : Bytes} {later : List Recv}

variable [Externals]

theorem RecvFails.of_nothing {stop : Stop} {c' : Client} (hs : s.length < 1)
    (h : ReadFails c s later stop c') : RecvFails c s later stop c' := by
  refine .read h (.inr (by omega)) fun ha => ?_
  have := ha.two_le
  omega

/-- What `awaitFrame` finds: nothing to read, or the item at the front. Only the polls are counted. -/
inductive Awaited (c : Client) (s : Bytes) (later : List Recv) : Option Received → Client → Prop
  | nothing {k : Nat} {c' : Client} (hno : ¬ c.Readable) (h : c'.Feeds s later)
      (hc : c'.core = ({ c with polls := k } : Client).core) : Awaited c s later none c'
  | received {k n : Nat} {x : Received} {c' : Client} (hread : c.Readable)
      (ht : Takes c.protocol s x n) (h : c'.Feeds (s.drop n) later)
      (hc : c'.core = ({ c with polls := k } : Client).core) : Awaited c s later (some x) c'

/-- A pass receives only what the poll announces. Under asyncio the poll itself reads a byte. -/
theorem wp_awaitFrame_of {Q : Option Received → Client → Prop} {E : Stop → Client → Prop}
    (h : c.Feeds s later)
    (hend : 0 < s.length ∨ (Stalls c.deadline later ∧
      ∀ k stop c', c.Readable → s.length < 1 →
        ReadFails { c with polls := k } s later stop c' → E stop c'))
    (hnothing : ∀ k c', ¬ c.Readable → c'.Feeds s later →
      c'.core = ({ c with polls := k } : Client).core → Q none c')
    (hrecv : ∀ k c', c.Readable → c'.Feeds s later →
      c'.core = ({ c with polls := k } : Client).core → wp recvFrame (fun x => Q (some x)) E c') :
    wp awaitFrame Q E c := by
  simp only [awaitFrame, pollReadable, wp_bind, wp_get, wp_ite, wp_pure, wp_set, if_true,
    Bool.false_eq_true, if_false]
  by_cases hbuf : c.rb.start < c.rb.stop
  · rw [if_pos hbuf]
    exact hrecv c.polls c (.inl hbuf) h rfl
  rw [if_neg hbuf]
  have hpoll : ({ c with polls := c.polls + 1 } : Client).Feeds s later := h.congr rfl rfl rfl
  cases hr : c.env.readable c.polls with
  | false => exact hnothing _ _ (by simp [Client.Readable, hbuf, hr]) hpoll rfl
  | true =>
    have hread : c.Readable := .inr hr
    simp only [Bool.not_true, Bool.false_eq_true, if_false]
    by_cases hk : c.cfg.transport = .socket
    · rw [if_pos hk]
      exact hrecv _ _ hread hpoll rfl
    · rw [if_neg hk]
      rcases hend with hpos | ⟨hstall, hE⟩
      · exact wp_ensure_feeds hpoll hpos fun c₁ h₁ hc₁ _ => hrecv _ c₁ hread h₁ hc₁
      · exact wp_ensure hpoll hstall (fun c₁ h₁ hc₁ _ => hrecv _ c₁ hread h₁ hc₁)
          fun stop c' hf hlt => hE _ _ _ hread hlt hf

theorem wp_awaitFrame (h : c.Feeds s later) (hstall : Stalls c.deadline later) :
    wp awaitFrame (Awaited c s later)
      (fun stop c' => c.Readable ∧ ∃ k, RecvFails { c with polls := k } s later stop c') c := by
  refine wp_awaitFrame_of h
    (.inr ⟨hstall, fun k stop c' hread hlt hf => ⟨hread, k, .of_nothing hlt hf⟩⟩)
    (fun k c' hno hf hc => .nothing hno hf hc) fun k c₁ hread h₁ hc₁ => ?_
  refine wp_mono (wp_recvFrame_total h₁ (deadline_of_core hc₁ ▸ hstall)) ?_ ?_
  · rintro x c' ⟨n, ht, hf, hc'⟩
    exact .received hread (protocol_of_core hc₁ ▸ ht) hf (hc'.trans hc₁)
  · exact fun stop c' hr => ⟨hread, k, hr.of_core hc₁⟩

omit [Externals] in
theorem pollReadable_of_not_readable (h : ¬ c.Readable) :
    pollReadable c = .ok false { c with polls := c.polls + 1 } := by
  rw [Client.Readable, not_or, Bool.not_eq_true] at h
  obtain ⟨a, c', hrun, rfl, rfl⟩ := wp_exists (x := pollReadable) (s := c)
    (Q := fun a c' => a = false ∧ c' = { c with polls := c.polls + 1 }) (by
      simp only [pollReadable, wp_bind, wp_get, wp_ite, h.1, h.2, if_false, wp_set, Bool.not_false,
        if_true, wp_pure, and_self])
  exact hrun

theorem wp_awaitFrame_of_not_readable {Q : Option Received → Client → Prop} {E : Stop → Client → Prop}
    (h : ¬ c.Readable) (hQ : Q none { c with polls := c.polls + 1 }) : wp awaitFrame Q E c := by
  rw [awaitFrame, wp_bind]
  exact (wp_iff_of_ok (pollReadable_of_not_readable h)).2 hQ

end passes

/-! ### The clock -/

/-- The client once it has looked at the clock. -/
def Client.ticked (c : Client) : Client := { c with ticks := c.ticks + 1 }

/-- Entering the loop only reads the clock. -/
theorem wp_enterLoop {c : Client} {Q : Collect → Client → Prop} {E : Stop → Client → Prop}
    (hQ : ∀ last next ticks, Q (.looping last next) { c with ticks }) : wp enterLoop Q E c := by
  simp only [enterLoop, wp_bind, wp_monotonic, wp_get]
  split
  · exact hQ _ _ _
  · simp only [wp_bind, wp_monotonic, wp_pure]
    exact hQ _ _ _

/-! ### Heartbeats -/

/-- The next look at the clock makes a heartbeat due. -/
def Client.HeartbeatDue (next : Option Int) (c : Client) : Prop :=
  ∃ due interval, next = some due ∧ c.cfg.keepalive = some interval ∧ due ≤ c.env.clock c.ticks

/-- The line of a heartbeat. -/
def heartbeat : Bytes := Bytes.lit "INFO ID" ++ crlf

section keepalive
variable {c : Client} {last : Int} {next : Option Int}

theorem wire_heartbeat : (Commands.info "ID".toList).wire = .ok heartbeat := rfl

/-- Nothing happens, or a heartbeat is sent, or the connection that does not take it is closed. -/
theorem wp_keepalivePass {Q : Option SeedLinkPacket × Collect → Client → Prop}
    {E : Stop → Client → Prop} (hsk : c.sock.isSome = true)
    (hquiet : ¬ c.HeartbeatDue next → Q (none, .looping last next) c.ticked)
    (hsent : ∀ due c', c.HeartbeatDue next → c.ticked.Sends heartbeat c' →
      Q (none, .looping last (some due)) c')
    (hfailed : ∀ due, c.HeartbeatDue next → c.Refuses heartbeat →
      Q (none, .looping last (some due)) c.ticked.closed) :
    wp (keepalivePass last next) Q E c := by
  simp only [keepalivePass, wp_bind, wp_monotonic, wp_get]
  split
  · rename_i due interval hint
    simp only [wp_ite, wp_bind, wp_tryExcept, wp_pure]
    by_cases hdue : due ≤ c.env.clock c.ticks
    · rw [if_pos hdue]
      have hbeat : c.HeartbeatDue (some due) := ⟨due, interval, rfl, hint, hdue⟩
      rcases c.ticked.sends_or_refuses hsk heartbeat with ⟨c', hsend⟩ | hrefuse
      · refine (wp_iff_of_ok (sendCommand_of_sends wire_heartbeat hsend)).2 ?_
        exact hsent _ c' hbeat hsend
      · obtain ⟨e, he, hrun⟩ := sendCommand_of_refuses wire_heartbeat hrefuse
        refine (wp_iff_of_error hrun).2 ?_
        simp only [he, if_true, wp_close, closed_closed]
        exact hfailed _ hbeat hrefuse
    · rw [if_neg hdue]
      exact hquiet fun ⟨_, _, h, _, hle⟩ => hdue (Option.some.inj h ▸ hle)
  · rename_i hno
    exact hquiet fun ⟨due, interval, hn, hi, _⟩ => hno due interval hn hi

end keepalive

/-! ### A pass -/

/-- The idle timeout has not run out when the pass begins. -/
def Client.Current (last : Int) (c : Client) : Prop :=
  ¬ c.env.clock c.ticks - last > c.cfg.idleTimeout

section collect
variable [Externals] {c : Client} {reconnect : Bool} {last : Int} {next : Option Int}

/-- A pass finds the connection closed or the client idle, or it awaits a frame. -/
theorem wp_collectPass {Q : Option SeedLinkPacket × Collect → Client → Prop}
    {E : Stop → Client → Prop}
    (hclosed : c.sock = none → Q (none, if reconnect then .reconnecting else .finished) c)
    (hidle : c.sock.isSome = true → ¬ c.Current last → ∀ message,
      wp (closeAndRaise reconnect (.seedLinkTimeout message) (.looping last next)) Q E c.ticked)
    (hcurrent : c.sock.isSome = true → c.Current last → wp awaitFrame
      (fun received c' => match received with
        | none => wp (keepalivePass last next) Q E c'
        | some x => wp (handleFrame reconnect last next x) Q E c')
      (fun stop c' => match stop with
        | .raised e => if e.isSeedLinkError then
            wp (closeAndRaise reconnect e (.looping last next)) Q E c' else E (.raised e) c'
        | .blocked => E .blocked c') c.ticked) :
    wp (collectPass reconnect last next) Q E c := by
  simp only [collectPass, wp_bind, wp_get, wp_ite, wp_monotonic, wp_tryExcept, wp_map]
  split
  · rename_i hsk
    exact hclosed (Option.isNone_iff_eq_none.1 hsk)
  · rename_i hsk
    have hsome : c.sock.isSome = true := by
      rw [← Option.isNone_eq_false_iff]
      exact Bool.eq_false_of_not_eq_true hsk
    split
    · rename_i hidle'
      exact hidle hsome (not_not.2 hidle') _
    · rename_i hcur
      refine wp_mono (hcurrent hsome hcur) ?_ ?_
      · rintro (_ | x) c' hQ <;> exact hQ
      · rintro (e | _) c' hE <;> exact hE

theorem collectPass_of_closed (h : c.sock = none) : collectPass reconnect last next c =
    .ok (none, if reconnect then .reconnecting else .finished) c := by
  have hnone : ¬ c.sock.isSome = true := by rw [h]; exact Bool.false_ne_true
  obtain ⟨a, c', hrun, rfl, rfl⟩ := wp_exists (x := collectPass reconnect last next) (s := c)
    (Q := fun a c' => a = (none, if reconnect then .reconnecting else .finished) ∧ c' = c)
    (wp_collectPass (fun _ => ⟨rfl, rfl⟩) (fun h => absurd h hnone) fun h => absurd h hnone)
  exact hrun

/-- The states of `collect` between its steps. -/
inductive Walks (reconnect : Bool) (c₀ : Client) : Collect → Client → Prop
  | start : Walks reconnect c₀ .start c₀
  | step {g g' : Collect} {c c' : Client} {pkt : Option SeedLinkPacket} (h : Walks reconnect c₀ g c)
      (hstep : collectStep reconnect g c = .ok (pkt, g') c') : Walks reconnect c₀ g' c'

end collect

end SeedLink
