import Mathlib.Data.Int.ConditionallyCompleteOrder
import SeedLink.Escapes
import SeedLink.Resume
import SeedLink.Steady

/-!
# The idle timeout and the buffer

`collect` looks at the clock before it looks at its buffer. The reading it compares with was taken when it
yielded its last packet, so a consumer that holds on to that packet for longer than the idle timeout
makes the next pass close the connection, with the frames that the buffer still holds
(`idle_spares_buffer_iff`).
-/

namespace SeedLink

open StateExc Client

section buffered
variable [Externals] {reconnect : Bool} {c c₀ : Client} {g : Collect} {last : Int} {next : Option Int}

/-- A frame that `collect` yields. -/
def isDataFrame (frame : RawFrame) : Prop := isJsonErrorFrame frame = false ∧ isInfoFrame frame = false

/-- Behind other complete items, if any, a complete data frame. -/
inductive HoldsData (p : Option Protocol) : Bytes → Prop
  | front {s : Bytes} {frame : RawFrame} {n : Nat} (ht : Takes p s (.packet frame) n) (hd : isDataFrame frame) :
      HoldsData p s
  | behind {s : Bytes} {x : Received} {n : Nat} (ht : Takes p s x n) (hs : x.Short n)
      (hrest : HoldsData p (s.drop n)) : HoldsData p s

/-- A complete data frame waits in the buffer of a client with a connection. -/
structure Client.Holds (c : Client) : Prop where
  connected : c.sock.isSome = true
  unread : HoldsData c.protocol c.rb.unread

/-- The next step is that of the idle timeout: it closes the connection and raises `SeedLinkTimeout`
unless it reconnects. -/
def Client.ClosesIdle (last : Int) (next : Option Int) (c : Client) : Prop :=
  ∃ message, ∀ reconnect, collectStep reconnect (.looping last next) c =
    closeAndRaise reconnect (.seedLinkTimeout message) (.looping last next) c.ticked

theorem HoldsData.exists_takes {p : Option Protocol} {s : Bytes} (h : HoldsData p s) :
    ∃ x n, Takes p s x n ∧ x.Short n := by
  cases h with
  | front ht => exact ⟨_, _, ht, trivial⟩
  | behind ht hs => exact ⟨_, _, ht, hs⟩

theorem Takes.pos {p : Option Protocol} {s : Bytes} {x : Received} {n : Nat} (h : Takes p s x n) :
    0 < s.length := by
  rcases h.announces with ⟨_, -, ha⟩ | ⟨-, ha⟩ | ⟨_, -, ha⟩ <;> exact Nat.lt_of_lt_of_le (by decide) ha.two_le

theorem closesIdle_of_not_current (hsk : c.sock.isSome = true) (h : ¬ c.Current last) : c.ClosesIdle last next := by
  have hnone : ¬ c.sock.isNone = true := by
    rw [← Option.not_isSome, hsk]
    exact Bool.false_ne_true
  refine ⟨s!"No data for over {secondsText c.cfg.idleTimeout}s", fun reconnect => ?_⟩
  have hclock : monotonic c = .ok (c.env.clock c.ticks) { c with ticks := c.ticks + 1 } := rfl
  show collectPass reconnect last next c = _
  unfold collectPass
  rw [seq_ok (get_run c), if_neg hnone, seq_ok hclock, if_pos (not_not.1 h)]
  rfl

/-- No item makes the loop raise `SeedLinkTimeout`. -/
theorem wp_handleFrame_not_timeout {x : Received} : wp (handleFrame reconnect last next x) (fun _ _ => True)
    (fun stop _ => ∀ message, stop ≠ .raised (.seedLinkTimeout message)) c := by
  have hclose : ∀ (message : String) (code : Option Text) (g : Collect),
      wp (closeAndRaise reconnect (.seedLinkError message code) g) (fun _ _ => True)
        (fun stop _ => ∀ message, stop ≠ .raised (.seedLinkTimeout message)) c := by
    intro message code g
    simp only [closeAndRaise, wp_bind, wp_close, wp_ite, wp_pure, wp_raise]
    split
    · trivial
    · rintro message' ⟨⟩
  cases x with
  | endOfStream => trivial
  | reply resp => exact hclose _ _ _
  | packet frame =>
    simp only [handleFrame, wp_ite, wp_bind, wp_liftExcept]
    split
    · cases hm : jsonErrorMessage frame.payload with
      | ok message => exact hclose _ _ _
      | error e =>
        rintro message ⟨⟩
        cases (jsonErrorMessage_error hm).1
    · split <;> trivial

/-- A pass on time takes the item at the front of the buffer. -/
theorem not_closesIdle_of_current (hwf : c.rb.WF) (h : c.Holds) (hcur : c.Current last) :
    ¬ c.ClosesIdle last next := by
  obtain ⟨sk, hsk⟩ := Option.isSome_iff_exists.1 h.connected
  obtain ⟨x, n, ht, hs⟩ := h.unread.exists_takes
  have hf : c.ticked.Feeds c.rb.unread sk.incoming :=
    ⟨c.rb.unread, [], ⟨hwf, rfl, sk, hsk, rfl⟩, by simp, List.append_nil _⟩
  have hbuf : c.rb.start < c.rb.stop := by
    have := ht.pos
    rw [hwf.length_unread, RecvBuf.available] at this
    omega
  have hpass : wp (collectPass false last next) (fun _ _ => True)
      (fun stop _ => ∀ message, stop ≠ .raised (.seedLinkTimeout message)) c := by
    refine wp_collectPass (fun hnone => by rw [hnone] at hsk; cases hsk) (fun _ hidle => absurd hcur hidle) fun _ _ => ?_
    refine wp_awaitFrame_of hf (.inl ht.pos) (fun _ _ hno => absurd (.inl hbuf) hno) fun k c₁ _ h₁ hc₁ => ?_
    have hp₁ : c₁.protocol = c.protocol := protocol_of_core (c := { c.ticked with polls := k }) hc₁
    obtain ⟨c₂, hrecv, -, -⟩ := recvFrame_of_takes h₁ (hp₁ ▸ ht) hs
    exact (wp_iff_of_ok hrecv).2 wp_handleFrame_not_timeout
  rintro ⟨message, hcloses⟩
  exact wp_error hpass (hcloses false) message rfl

theorem Walks.usable (h₀ : c₀.Usable) (h : Walks reconnect c₀ g c) : c.Usable := by
  induction h with
  | start => exact h₀
  | step _ hstep ih => exact (usable_collectStep reconnect _).ok hstep ih

/-- The idle timeout spares a connection whose data waits in the buffer if and only if every pass that
begins with such data begins in time. -/
theorem idle_spares_buffer_iff (h₀ : c₀.Usable) :
    (∀ last next c, Walks reconnect c₀ (.looping last next) c → c.Holds → ¬ c.ClosesIdle last next) ↔
      ∀ last next c, Walks reconnect c₀ (.looping last next) c → c.Holds → c.Current last := by
  constructor
  · intro h last next c hwalk hholds
    by_contra hcur
    exact h last next c hwalk hholds (closesIdle_of_not_current hholds.connected hcur)
  · intro h last next c hwalk hholds
    exact not_closesIdle_of_current ((hwalk.usable h₀).wf hholds.connected) hholds (h last next c hwalk hholds)

end buffered

/-- A client that streams from a server that has sent two packets at once, and whose consumer keeps the first
one for 700 seconds. -/
def slowConsumer : Client :=
  { Client.listening .v4 [.data (numbered 7 ++ numbered 8)] with
    env := ⟨fun _ => .timeout, fun n => if n < 3 then 0 else 700000000000, fun _ => true⟩, streaming := true }

theorem idle_spares_buffer_slowConsumer :
    (∀ last next c, @Walks Externals.bare true slowConsumer (.looping last next) c →
      @Client.Holds Externals.bare c → ¬ @Client.ClosesIdle Externals.bare last next c) ↔
    ∀ last next c, @Walks Externals.bare true slowConsumer (.looping last next) c →
      @Client.Holds Externals.bare c → c.Current last :=
  @idle_spares_buffer_iff Externals.bare true slowConsumer ⟨Nat.le_refl _, fun _ => RecvBuf.wf_fresh⟩

theorem holdsData_numbered [Externals] : HoldsData (some .v4) (numbered 8) := by
  have hd : DecodesV4 (numbered 8) (numberedFrame 8) 20 := ⟨by decide, numberedHeader 8, rfl, rfl, by decide, rfl⟩
  exact .front (.packetV4 rfl (.inr ⟨_, rfl⟩) hd) ⟨rfl, rfl⟩

/-- The first two steps, and what the client then is. -/
def slowSteps : ClientM ((Collect × Bytes) × Option Protocol × Bool × Int) := do
  let r ← @collectStep Externals.bare true .start
  let r ← @collectStep Externals.bare true r.2
  let c ← get
  return ((r.2, c.rb.unread), c.protocol, c.sock.isSome, c.env.clock c.ticks - c.cfg.idleTimeout)

/-- Packet 8 waits in the buffer when the connection is closed. The clock never goes back. -/
theorem idle_closes_slowConsumer : Monotone slowConsumer.env.clock ∧
    ¬ ∀ last next c, @Walks Externals.bare true slowConsumer (.looping last next) c →
      @Client.Holds Externals.bare c → ¬ @Client.ClosesIdle Externals.bare last next c := by
  let _ : Externals := Externals.bare
  refine ⟨fun m n hmn => ?_, fun h => ?_⟩
  · show (if m < 3 then (0 : Int) else _) ≤ if n < 3 then 0 else _
    split <;> split <;> omega
  · have hreturned : returned slowSteps slowConsumer =
        some ((.looping 0 none, numbered 8), some .v4, true, 100000000000) := by decide +kernel
    obtain ⟨c', hrun⟩ := exists_of_returned hreturned
    obtain ⟨⟨pkt₁, g₁⟩, c₁, hstart, hrun⟩ := exists_of_seq hrun
    obtain ⟨⟨pkt₂, g₂⟩, c₂, hpass, hrun⟩ := exists_of_seq hrun
    have hstate := (EStateM.Result.ok.inj hrun).1
    simp only [Prod.mk.injEq] at hstate
    obtain ⟨⟨rfl, hunread⟩, hp, hsk, hclock⟩ := hstate
    have hholds : c₂.Holds := ⟨hsk, by rw [hp, hunread]; exact holdsData_numbered⟩
    refine h 0 none c₂ (.step (.step .start hstart) hpass) hholds (closesIdle_of_not_current hsk ?_)
    rw [Client.Current]
    omega

end SeedLink
