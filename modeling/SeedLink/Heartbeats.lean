import Mathlib.Data.Int.ConditionallyCompleteOrder
import SeedLink.Endings
import SeedLink.Steady

/-!
# The pace of the heartbeats

Whatever `collect` sends from its loop is a heartbeat, and each is at least an interval behind the one
before it and behind the loop's start, also where the client reconnects in between. None comes late: a pass
that finds nothing to read sends it as soon as the interval is over, or finds the connection broken
(`heartbeats_paced`).
-/

namespace SeedLink

open StateExc Client

/-! ### What takes no look at the clock -/

/-- The clock, and the looks at it. -/
structure Client.SameTime (c c' : Client) : Prop where
  cfg : c'.cfg = c.cfg
  env : c'.env = c.env
  ticks : c'.ticks = c.ticks

instance : IsPreorder Client Client.SameTime where
  refl _ := ⟨rfl, rfl, rfl⟩
  trans _ _ _ h h' := ⟨h'.cfg.trans h.cfg, h'.env.trans h.env, h'.ticks.trans h.ticks⟩

abbrev Timeless {α : Type} (x : ClientM α) : Prop := Keeps Client.SameTime x

theorem timeless_reading : Reading Client.SameTime :=
  Reads.reading
    { ensure := fun n => keeps_ensure fun c c' h => by cases h <;> exact ⟨rfl, rfl, rfl⟩
      close := fun _ => ⟨rfl, rfl, rfl⟩
      rb := fun _ _ _ => ⟨rfl, rfl, rfl⟩
      polls := fun _ _ => ⟨rfl, rfl, rfl⟩ }

theorem Timeless.modify {f : Client → Client} (hf : ∀ c, (f c).cfg = c.cfg ∧ (f c).env = c.env ∧ (f c).ticks = c.ticks) :
    Timeless (modify f : ClientM PUnit) :=
  Keeps.modify fun c => ⟨(hf c).1, (hf c).2.1, (hf c).2.2⟩

theorem timeless_close : Timeless close := .modify fun _ => ⟨rfl, rfl, rfl⟩

theorem timeless_sendCommand (cmd : Command) : Timeless (sendCommand cmd) := by
  have hsendall : ∀ wire, Timeless (sendall wire) := by
    intro wire c
    unfold wp sendall
    cases c.sock with
    | none => exact ⟨rfl, rfl, rfl⟩
    | some sk =>
      simp only
      cases sk.peer sk.sent sk.incoming wire <;> exact ⟨rfl, rfl, rfl⟩
  have hsend : Timeless (do
      let wire ← liftExcept cmd.wire
      sendall wire
      awaitReply cmd.parse) :=
    .bind (keeps_liftExcept _) fun wire => .bind (hsendall wire) fun _ => timeless_reading.awaitReply _
  rw [sendCommand_eq]
  exact .bind .get fun c => .ite (.bind (keeps_raise _) fun _ => hsend) hsend

theorem timeless_sendHandshake : ∀ commands, Timeless (sendHandshake commands)
  | [] => .pure _
  | cmd :: rest => .bind (timeless_sendCommand cmd) fun _ =>
      have hrest := timeless_sendHandshake rest
      .ite (.bind (.modify fun _ => ⟨rfl, rfl, rfl⟩) fun _ => hrest) hrest

theorem timeless_timeoutScope {α : Type} {message : String} {x : ClientM α} (hx : Timeless x) :
    Timeless (timeoutScope message x) := by
  have hscope : ∀ inScope : Bool, Timeless (modify fun c => { c with inScope } : ClientM PUnit) := fun _ =>
    .modify fun _ => ⟨rfl, rfl, rfl⟩
  have hset : Timeless (modify fun c => { c with inScope := c.cfg.timeout.isSome } : ClientM PUnit) :=
    .modify fun _ => ⟨rfl, rfl, rfl⟩
  refine .bind .get fun c => .ite hx (.bind hset fun _ => .bind ?_ fun _ => .bind (hscope false) fun _ => .pure _)
  exact .tryCatch hx fun stop => .bind (hscope false) fun _ =>
    .ite (.bind timeless_close fun _ => keeps_raise _) (.throw _)

theorem timeless_connect (handshake : Bool) : Timeless (connect handshake) := by
  have hhello : Timeless doHello :=
    .bind (timeless_sendCommand _) fun _ => .bind timeless_reading.readLine fun _ =>
      .bind timeless_reading.readLine fun _ => .bind (.modify fun _ => ⟨rfl, rfl, rfl⟩) fun _ => .bind .get fun _ =>
        .bind (keeps_liftExcept _) fun _ => .modify fun _ => ⟨rfl, rfl, rfl⟩
  have hhandshake : Timeless doHandshake :=
    keeps_tryExcept (.bind hhello fun _ => .bind .get fun _ => .bind (keeps_liftExcept _) fun commands =>
      timeless_sendHandshake commands) fun _ => .bind timeless_close fun _ => keeps_raise _
  have hdial : Timeless connectSocket :=
    keeps_connectSocket (fun _ => ⟨rfl, rfl, rfl⟩) (fun _ _ => ⟨rfl, rfl, rfl⟩) fun _ => ⟨rfl, rfl, rfl⟩
  exact .bind .get fun _ => timeless_timeoutScope <| .bind hdial fun _ => .ite hhandshake (.pure _)

theorem timeless_sendPlan : ∀ plan walk, Timeless (sendPlan plan walk)
  | [], _ => .pure _
  | cmd :: rest, walk => by
    unfold sendPlan
    exact .ite (.bind (timeless_sendCommand cmd) fun _ => timeless_sendPlan rest _) (timeless_sendPlan rest _)

/-! ### What is sent from the loop -/

/-- The clock may have been looked at, and nothing has been sent. -/
structure Client.Silent (c c' : Client) : Prop where
  cfg : c'.cfg = c.cfg
  env : c'.env = c.env
  ticks : c.ticks ≤ c'.ticks
  sent : c'.sent = c.sent
  sock : c'.sock.isSome = true → c.sock.isSome = true

instance : IsPreorder Client Client.Silent where
  refl _ := ⟨rfl, rfl, Nat.le_refl _, rfl, id⟩
  trans _ _ _ h h' := ⟨h'.cfg.trans h.cfg, h'.env.trans h.env, h.ticks.trans h'.ticks, h'.sent.trans h.sent,
    h.sock ∘ h'.sock⟩

theorem Client.Silent.closed {c c' : Client} (h : c.Silent c') : c.Silent c'.closed :=
  ⟨h.cfg, h.env, h.ticks, h.sent, nofun⟩

theorem silent_reading : Reading Client.Silent :=
  Reads.reading
    { ensure := fun n => keeps_ensure fun c c' h => by
        cases h with
        | kept | enough => exact ⟨rfl, rfl, Nat.le_refl _, rfl, id⟩
        | filled hsk => exact ⟨rfl, rfl, Nat.le_refl _, rfl, fun _ => by rw [hsk]; rfl⟩
        | closed hsk => exact .closed ⟨rfl, rfl, Nat.le_refl _, rfl, fun _ => by rw [hsk]; rfl⟩
      close := fun c => .closed (refl c)
      rb := fun _ _ _ => ⟨rfl, rfl, Nat.le_refl _, rfl, id⟩
      polls := fun _ _ => ⟨rfl, rfl, Nat.le_refl _, rfl, id⟩ }

/-! ### The record of a run -/

/-- The time that the client has last looked at. -/
def Client.lastLook (c : Client) : Int := c.env.clock (c.ticks - 1)

/-- What the client did, and when. -/
inductive Mark
  | entered (time : Int)
  | beat (time : Int)

def Mark.time : Mark → Int
  | .entered t | .beat t => t

/-- The times of a step: at which it entered the loop, or at which it sent something from there. -/
def Mark.ofStep (g g' : Collect) (c c' : Client) : List Mark :=
  match g, g' with
  | .looping _ _, _ => if c'.sent = c.sent then [] else [.beat c'.lastLook]
  | _, .looping _ _ => [.entered c'.lastLook]
  | _, _ => []

/-- A heartbeat is an interval behind whatever is recorded before it. -/
structure Mark.Behind (cfg : Config) (later earlier : Mark) : Prop where
  le : earlier.time ≤ later.time
  spaced : ∀ t, later = .beat t → ∃ interval, cfg.keepaliveInterval = some interval ∧ earlier.time + interval ≤ t

/-- Where the client stands between the steps. -/
structure Paced (c₀ : Client) (marks : List Mark) (g : Collect) (c : Client) : Prop where
  cfg : c.cfg = c₀.cfg
  env : c.env = c₀.env
  behind : marks.Pairwise (Mark.Behind c₀.cfg)
  looked : ∀ m ∈ marks, ∃ k < c.ticks, m.time = c₀.env.clock k
  first : ∀ m, marks.getLast? = some m → ∃ t, m = .entered t
  looping : ∀ last next, g = .looping last next → ∃ m, marks.head? = some m ∧
    (c.sock.isSome = true → next = c₀.cfg.keepaliveInterval.map (m.time + ·))

section run
variable {c₀ c c' : Client} {marks : List Mark} {g g' : Collect}

/-- Time goes on, and nothing is recorded. -/
theorem Paced.wait (h : Paced c₀ marks g c) (hcfg : c'.cfg = c.cfg) (henv : c'.env = c.env)
    (hticks : c.ticks ≤ c'.ticks) (hg : ∀ last next, g' = .looping last next → ∃ m, marks.head? = some m ∧
      (c'.sock.isSome = true → next = c₀.cfg.keepaliveInterval.map (m.time + ·))) : Paced c₀ marks g' c' where
  cfg := hcfg.trans h.cfg
  env := henv.trans h.env
  behind := h.behind
  looked m hm := by
    obtain ⟨k, hk, ht⟩ := h.looked m hm
    exact ⟨k, Nat.lt_of_lt_of_le hk hticks, ht⟩
  first := h.first
  looping := hg

/-- Something is recorded. -/
theorem Paced.mark (h : Paced c₀ marks g c) (hclock : Monotone c₀.env.clock) {m : Mark} {last : Int} {next : Option Int}
    (hcfg : c'.cfg = c.cfg) (henv : c'.env = c.env) (hticks : c.ticks < c'.ticks) (ht : m.time = c'.lastLook)
    (hspaced : ∀ t, m = .beat t → ∃ interval m', c₀.cfg.keepaliveInterval = some interval ∧ marks.head? = some m' ∧
      m'.time + interval ≤ t)
    (hnext : next = c₀.cfg.keepaliveInterval.map (m.time + ·)) : Paced c₀ (m :: marks) (.looping last next) c' where
  cfg := hcfg.trans h.cfg
  env := henv.trans h.env
  behind := by
    refine List.pairwise_cons.2 ⟨fun e he => ⟨?_, fun t hm => ?_⟩, h.behind⟩
    · obtain ⟨k, hk, hke⟩ := h.looked e he
      rw [hke, ht, Client.lastLook, henv.trans h.env]
      exact hclock (by omega)
    · obtain ⟨interval, m', hint, hhead, hle⟩ := hspaced t hm
      refine ⟨interval, hint, ?_⟩
      obtain ⟨rest, rfl⟩ := List.head?_eq_some_iff.1 hhead
      rcases List.mem_cons.1 he with rfl | he
      · exact hle
      · have := ((List.pairwise_cons.1 h.behind).1 e he).le
        omega
  looked e he := by
    rcases List.mem_cons.1 he with rfl | he
    · exact ⟨c'.ticks - 1, by omega, by rw [ht, Client.lastLook, henv.trans h.env]⟩
    · obtain ⟨k, hk, hke⟩ := h.looked e he
      exact ⟨k, hk.trans hticks, hke⟩
  first e he := by
    cases marks with
    | cons e' rest => exact h.first e (by simpa using he)
    | nil =>
      obtain rfl : m = e := by simpa using he
      cases hm : m with
      | entered t => exact ⟨t, rfl⟩
      | beat t =>
        obtain ⟨_, _, _, hhead, _⟩ := hspaced t hm
        cases hhead
  looping last' next' hg := by
    cases hg
    exact ⟨m, rfl, fun _ => hnext⟩

end run

section pacing
variable [Externals]

theorem timeless_negotiate : Timeless negotiate := by
  refine timeless_timeoutScope fun c => ?_
  have hrest : Timeless (do
      let plan ← liftExcept (c.base.prepareNegotiation c.negotiationArgs).1
      runPlan plan
      modify fun c => { c with streaming := true }) :=
    .bind (keeps_liftExcept _) fun _ => .bind (.bind (timeless_sendPlan _ _) fun _ => keeps_liftExcept _) fun _ =>
      .modify fun _ => ⟨rfl, rfl, rfl⟩
  simp only [negotiateInner, wp_bind, wp_get, wp_set]
  simp only [← wp_bind]
  exact wp_mono (hrest _) (fun _ _ h => ⟨h.cfg, h.env, h.ticks⟩) fun _ _ h => ⟨h.cfg, h.env, h.ticks⟩

/-- A pass of the loop: it sends a heartbeat that is due and sets the next, or it sends nothing and leaves the
next as it is, unless the connection is closed behind it. -/
inductive Passed (next : Option Int) (c : Client) : Collect → Client → Prop
  | quiet {g' : Collect} {c' : Client} (h : c.Silent c')
      (hg : ∀ last next', g' = .looping last next' → c'.sock.isSome = true → next' = next) : Passed next c g' c'
  | beat {last due interval : Int} {c' : Client} (hsk : c.sock.isSome = true) (hcfg : c'.cfg = c.cfg) (henv : c'.env = c.env)
      (hticks : c.ticks < c'.ticks) (hsent : c'.sent = c.sent ++ [heartbeat]) (hnext : next = some due)
      (hinterval : c.cfg.keepalive = some interval) (hdue : due ≤ c'.lastLook) :
      Passed next c (.looping last (some (c'.lastLook + interval))) c'

variable {c₀ c c₁ : Client} {reconnect : Bool} {last : Int} {next : Option Int} {marks : List Mark} {g : Collect}

omit [Externals] in
theorem Passed.closed {g' : Collect} {c' : Client} (h : c.Silent c') : Passed next c g' c'.closed :=
  .quiet h.closed nofun

omit [Externals] in
theorem silent_ticked : c.Silent c.ticked := ⟨rfl, rfl, Nat.le_succ _, rfl, id⟩

omit [Externals] in
theorem Client.Silent.passed {c' : Client} {g' : Collect} (h : c.Silent c')
    (hp : Passed next c' g' c₁) : Passed next c g' c₁ := by
  cases hp with
  | quiet h' hg => exact .quiet (IsTrans.trans _ _ _ h h') hg
  | beat hsk hcfg henv hticks hsent hnext hinterval hdue =>
    exact .beat (h.sock hsk) (hcfg.trans h.cfg) (henv.trans h.env) (Nat.lt_of_le_of_lt h.ticks hticks) (h.sent ▸ hsent) hnext
      (h.cfg ▸ hinterval) hdue

omit [Externals] in
theorem wp_keepalivePass_passed :
    wp (keepalivePass last next) (fun a => Passed next c a.2) (fun _ _ => False) c := by
  have hquiet : ∀ next, Passed next c (.looping last next) c.ticked := fun next =>
    .quiet silent_ticked fun _ _ hg _ => by cases hg; rfl
  simp only [keepalivePass, wp_bind, wp_monotonic, wp_get]
  split
  · rename_i due interval hint
    simp only [wp_ite, wp_bind, wp_tryExcept, wp_pure]
    split
    · rename_i hdue
      have hbroken : Passed (some due) c (.looping last (some (c.env.clock c.ticks + interval))) c.ticked.closed :=
        .closed silent_ticked
      refine wp_sendCommand (fun _ => ?_) (fun e he _ => ?_) (fun detail _ => ?_) fun wire c' hw hsend => ?_
      · exact hbroken
      · cases wire_heartbeat.symm.trans he
      · show if _ then _ else _
        rw [if_pos (show (seedLinkError _).isSeedLinkError = true from rfl)]
        rw [wp_close, closed_closed]
        exact hbroken
      · obtain rfl : heartbeat = wire := Except.ok.inj (wire_heartbeat.symm.trans hw)
        obtain ⟨sk, incoming, hsk, -, rfl⟩ := hsend
        have hsome : c.sock.isSome = true := by rw [show c.sock = some sk from hsk]; rfl
        have hbeat : Passed (some due) c
            (.looping last (some ((c.ticked.answered sk heartbeat incoming).lastLook + interval)))
            (c.ticked.answered sk heartbeat incoming) :=
          .beat hsome rfl rfl (Nat.lt_succ_self _) rfl rfl hint hdue
        exact hbeat
    · exact hquiet _
  · exact hquiet _

theorem silent_handleFrame (reconnect : Bool) (last : Int) (next : Option Int) (x : Received) :
    wp (handleFrame reconnect last next x) (fun a c' => c.Silent c' ∧ ∀ last' next', a.2 = .looping last' next' →
      next' = next) (fun _ => c.Silent) c := by
  have hclosed : ∀ e, wp (closeAndRaise reconnect e (.looping last next)) (fun a c' => c.Silent c' ∧
      ∀ last' next', a.2 = .looping last' next' → next' = next) (fun _ => c.Silent) c := by
    intro e
    simp only [closeAndRaise, wp_bind, wp_close, wp_ite, wp_pure, wp_raise]
    split
    · exact ⟨.closed (refl c), fun _ _ h => by cases h; rfl⟩
    · exact .closed (refl c)
  cases x with
  | endOfStream => exact ⟨⟨rfl, rfl, Nat.le_refl _, rfl, id⟩, fun _ _ h => by cases h⟩
  | reply resp => exact hclosed _
  | packet frame =>
    simp only [handleFrame, wp_ite, wp_bind, wp_liftExcept, wp_monotonic, wp_modify, wp_pure]
    split
    · cases jsonErrorMessage frame.payload with
      | error e => exact refl c
      | ok message => exact hclosed _
    split
    · exact ⟨refl c, fun _ _ h => by cases h; rfl⟩
    · exact ⟨⟨rfl, rfl, Nat.le_succ _, rfl, id⟩, fun _ _ h => by cases h; rfl⟩

theorem wp_collectPass_passed :
    wp (collectPass reconnect last next) (fun a => Passed next c a.2) (fun _ => c.Silent) c := by
  have hclosed : ∀ e c', c.Silent c' →
      wp (closeAndRaise reconnect e (.looping last next)) (fun a => Passed next c a.2) (fun _ => c.Silent) c' := by
    intro e c' h
    simp only [closeAndRaise, wp_bind, wp_close, wp_ite, wp_pure, wp_raise]
    split
    · exact .closed h
    · exact h.closed
  refine wp_collectPass (fun _ => .quiet (refl c) fun _ _ hg => ?_) (fun _ _ message => hclosed _ _ silent_ticked)
    fun hsk _ => ?_
  · split at hg <;> cases hg
  refine wp_mono (silent_reading.awaitFrame c.ticked) ?_ ?_
  · rintro (_ | x) c' h
    · have hc' := IsTrans.trans _ _ _ silent_ticked h
      exact wp_mono wp_keepalivePass_passed (fun _ _ hp => hc'.passed hp) fun _ _ => False.elim
    · have hc' := IsTrans.trans _ _ _ silent_ticked h
      exact wp_mono (silent_handleFrame reconnect last next x)
        (fun _ _ hh => .quiet (IsTrans.trans _ _ _ hc' hh.1) fun _ _ hg _ => hh.2 _ _ hg)
        fun _ _ hs => IsTrans.trans _ _ _ hc' hs
  · rintro (e | _) c' h
    · show if _ then _ else _
      split
      · exact hclosed e c' (IsTrans.trans _ _ _ silent_ticked h)
      · exact IsTrans.trans _ _ _ silent_ticked h
    · exact IsTrans.trans _ _ _ silent_ticked h

/-! ### Runs -/

omit [Externals] in
theorem wp_enterLoop_next : wp enterLoop (fun g' c' => ∃ last next, g' = .looping last next ∧ c'.cfg = c.cfg ∧
    c'.env = c.env ∧ c.ticks < c'.ticks ∧ next = c.cfg.keepaliveInterval.map (c'.lastLook + ·)) (fun _ _ => False) c := by
  simp only [enterLoop, wp_bind, wp_monotonic, wp_get]
  split
  · rename_i hint
    exact ⟨_, _, rfl, rfl, rfl, Nat.lt_succ_self _, by rw [hint]; rfl⟩
  · rename_i interval hint
    rw [wp_bind, wp_monotonic]
    exact ⟨_, _, rfl, rfl, rfl, Nat.lt_succ_of_le (Nat.le_succ _), by rw [hint]; rfl⟩

/-- A run of the generator with its record, the last first. -/
inductive Paces (reconnect : Bool) (c₀ : Client) : List Mark → Collect → Client → Prop
  | start : Paces reconnect c₀ [] .start c₀
  | step {marks : List Mark} {g g' : Collect} {c c' : Client} {pkt : Option SeedLinkPacket}
      (h : Paces reconnect c₀ marks g c) (hstep : collectStep reconnect g c = .ok (pkt, g') c') :
      Paces reconnect c₀ (Mark.ofStep g g' c c' ++ marks) g' c'

omit [Externals] in
theorem Paced.enter (h : Paced c₀ marks g c) (hclock : Monotone c₀.env.clock) (hg : ∀ last next, g ≠ .looping last next)
    (hsame : c.SameTime c₁) : wp enterLoop (fun g' c' => Paced c₀ (Mark.ofStep g g' c c' ++ marks) g' c')
      (fun _ _ => False) c₁ := by
  refine wp_mono wp_enterLoop_next ?_ fun _ _ => id
  rintro _ c' ⟨last, next, rfl, hcfg, henv, hticks, hnext⟩
  have hmark : Mark.ofStep g (.looping last next) c c' = [.entered c'.lastLook] := by
    cases g with
    | looping last next => exact absurd rfl (hg last next)
    | start | reconnecting | finished => rfl
  rw [hmark]
  refine h.mark hclock (hcfg.trans hsame.cfg) (henv.trans hsame.env) (hsame.ticks ▸ hticks) rfl nofun ?_
  rw [hnext, hsame.cfg, h.cfg]
  rfl

omit [Externals] in
theorem Paced.fails (h : Paced c₀ marks .reconnecting c) : ∀ (stop : Stop) c₁, c.SameTime c₁ → (match stop with
    | .raised e => if e.isSeedLinkError then wp (if e.isAuthError then raise e else do close; return .reconnecting)
        (fun g' c' => Paced c₀ (Mark.ofStep .reconnecting g' c c' ++ marks) g' c') (fun _ _ => True) c₁
      else True
    | .blocked => True) := by
  rintro (e | _) c₁ hsame
  · simp only [wp_ite, wp_raise, wp_bind, wp_close, wp_pure]
    split
    · split
      · trivial
      · exact h.wait hsame.cfg hsame.env (Nat.le_of_eq hsame.ticks.symm) fun _ _ hg => by cases hg
    · trivial
  · trivial

theorem wp_collectStep_paced (h : Paced c₀ marks g c) (hclock : Monotone c₀.env.clock) :
    wp (collectStep reconnect g) (fun a c' => Paced c₀ (Mark.ofStep g a.2 c c' ++ marks) a.2 c') (fun _ _ => True) c := by
  cases g with
  | start =>
    have henter : ∀ c₁, c.SameTime c₁ → wp (do let g ← enterLoop; return ((none : Option SeedLinkPacket), g))
        (fun a c' => Paced c₀ (Mark.ofStep .start a.2 c c' ++ marks) a.2 c') (fun _ _ => True) c₁ := by
      intro c₁ hsame
      rw [wp_bind]
      exact wp_mono (h.enter hclock (fun _ _ hg => by cases hg) hsame) (fun _ _ => id) fun _ _ => False.elim
    simp only [collectStep, wp_bind, wp_get, wp_ite]
    simp only [← wp_bind]
    split
    · rw [wp_bind]
      exact wp_mono (timeless_negotiate c) (fun _ c₁ hsame => henter c₁ hsame) fun _ _ _ => trivial
    · exact henter c (refl c)
  | looping last next =>
    refine wp_mono wp_collectPass_passed (fun a c' hp => ?_) fun _ _ _ => trivial
    obtain ⟨m, hhead, hnext⟩ := h.looping last next rfl
    generalize hg : a.2 = g' at hp
    cases hp with
    | quiet hs hq =>
      have hmark : Mark.ofStep (.looping last next) g' c c' = [] := if_pos hs.sent
      rw [hmark]
      refine h.wait hs.cfg hs.env hs.ticks fun last' next' hl => ⟨m, hhead, fun hsk => ?_⟩
      rw [hq last' next' hl hsk]
      exact hnext (hs.sock hsk)
    | @beat last' due interval _ hsk hcfg henv hticks hsent hdue hint hle =>
      have hmark : Mark.ofStep (.looping last next) (.looping last' (some (c'.lastLook + interval))) c c' =
          [.beat c'.lastLook] := if_neg (by rw [hsent]; simp)
      rw [hmark]
      obtain ⟨interval', hkeep, rfl⟩ := Option.map_eq_some_iff.1 ((hnext hsk).symm.trans hdue)
      obtain rfl : interval = interval' :=
        Option.some.inj (hint.symm.trans (h.cfg ▸ (Option.filter_eq_some_iff.1 hkeep).1))
      refine h.mark hclock hcfg henv hticks rfl ?_ (by rw [hkeep]; rfl)
      rintro t ⟨⟩
      exact ⟨interval, m, hkeep, hhead, hle⟩
  | reconnecting =>
    simp only [collectStep, reconnectAttempt, wp_bind, wp_get, wp_liftExcept, wp_tryExcept, wp_pure]
    split
    on_goal 2 => trivial
    refine wp_mono (timeless_connect true c) (fun _ c₁ h₁ => ?_) h.fails
    refine wp_mono (timeless_negotiate c₁) (fun _ c₂ h₂ => ?_) fun stop c₂ h₂ => h.fails stop c₂ (IsTrans.trans _ _ _ h₁ h₂)
    exact wp_mono (h.enter hclock (fun _ _ hg => by cases hg) (IsTrans.trans _ _ _ h₁ h₂)) (fun _ _ => id) fun _ _ => False.elim
  | finished => exact h

theorem Paces.paced (hclock : Monotone c₀.env.clock) (h : Paces reconnect c₀ marks g c) : Paced c₀ marks g c := by
  induction h with
  | start => exact ⟨rfl, rfl, .nil, nofun, nofun, nofun⟩
  | @step marks g g' c c' pkt _ hstep ih =>
    exact wp_ok (a := (pkt, g')) (wp_collectStep_paced ih hclock) hstep

/-- A pass that finds nothing to read and the interval over. -/
structure Client.Owes (c₀ : Client) (marks : List Mark) (last : Int) (c : Client) : Prop where
  connected : c.sock.isSome = true
  current : c.Current last
  nothing : ¬ c.Readable
  elapsed : ∃ interval m, c₀.cfg.keepaliveInterval = some interval ∧ marks.head? = some m ∧
    m.time + interval ≤ c.env.clock (c.ticks + 1)

theorem Paced.prompt (h : Paced c₀ marks (.looping last next) c) (howes : c₀.Owes marks last c) :
    wp (collectStep reconnect (.looping last next)) (fun _ c' => c'.sock = none ∨
      (c'.sent = c.sent ++ [heartbeat] ∧ c'.lastLook = c.env.clock (c.ticks + 1))) (fun _ _ => False) c := by
  obtain ⟨hsk, hcur, hread, interval, m, hint, hhead, hover⟩ := howes
  obtain ⟨m', hhead', hnext⟩ := h.looping last next rfl
  obtain rfl : m = m' := Option.some.inj (hhead.symm.trans hhead')
  have hdue : HeartbeatDue next { c.ticked with polls := c.polls + 1 } :=
    ⟨m.time + interval, interval, by rw [hnext hsk, hint]; rfl,
      (congrArg Config.keepalive h.cfg).trans (Option.filter_eq_some_iff.1 hint).1, hover⟩
  refine wp_collectPass (fun hnone => ?_) (fun _ hidle => absurd hcur hidle) fun _ _ => ?_
  · rw [hnone] at hsk
    cases hsk
  refine wp_awaitFrame_of_not_readable hread (wp_keepalivePass hsk (fun hno => absurd hdue hno) ?_ ?_)
  · rintro due c' - ⟨sk, incoming, -, -, rfl⟩
    exact .inr ⟨rfl, rfl⟩
  · exact fun _ _ _ => .inl rfl

/-- The heartbeat that a peer takes is sent. -/
theorem exists_beat (hsk : c.sock.isSome = true) (hcur : c.Current last) (hread : ¬ c.Readable)
    (hdue : HeartbeatDue next c.ticked) (htakes : ¬ c.Refuses heartbeat) :
    ∃ pkt g' c', collectStep reconnect (.looping last next) c = .ok (pkt, g') c' ∧ c'.sent = c.sent ++ [heartbeat] := by
  have hbeat : wp (collectPass reconnect last next) (fun _ c' => c'.sent = c.sent ++ [heartbeat]) (fun _ _ => False) c := by
    refine wp_collectPass (fun hnone => ?_) (fun _ hidle => absurd hcur hidle) fun _ _ =>
      wp_awaitFrame_of_not_readable hread (wp_keepalivePass hsk (fun hno => absurd hdue hno) ?_ ?_)
    · rw [hnone] at hsk
      cases hsk
    · rintro due c' - ⟨sk, incoming, -, -, rfl⟩
      rfl
    · exact fun _ _ hrefuse => absurd hrefuse htakes
  obtain ⟨⟨pkt, g'⟩, c', hrun, hsent⟩ := wp_exists hbeat
  exact ⟨pkt, g', c', hrun, hsent⟩

/-- The heartbeats of every run keep the pace, and nothing else is sent from its loop. -/
theorem heartbeats_paced (hclock : Monotone c₀.env.clock) (h : Paces reconnect c₀ marks g c) :
    marks.Pairwise (Mark.Behind c₀.cfg) ∧ (∀ m, marks.getLast? = some m → ∃ t, m = .entered t) ∧
      ∀ last next, g = .looping last next →
        wp (collectStep reconnect g) (fun _ c' => c'.sent = c.sent ∨ c'.sent = c.sent ++ [heartbeat])
          (fun _ c' => c'.sent = c.sent) c ∧
        (c₀.Owes marks last c → wp (collectStep reconnect g) (fun _ c' => c'.sock = none ∨
          (c'.sent = c.sent ++ [heartbeat] ∧ c'.lastLook = c.env.clock (c.ticks + 1))) (fun _ _ => False) c) := by
  have hp := h.paced hclock
  refine ⟨hp.behind, hp.first, ?_⟩
  rintro last next rfl
  refine ⟨wp_mono wp_collectPass_passed (fun a _ hpass => ?_) fun _ _ h => h.sent, hp.prompt⟩
  generalize a.2 = g' at hpass
  cases hpass with
  | quiet hs => exact .inl hs.sent
  | beat _ _ _ _ hsent => exact .inr hsent

end pacing

/-- A client whose server takes its heartbeats and says nothing. -/
def heartbeatTaken : Client := heartbeating [] fun _ pending _ => .ok pending

/-- The first pass finds that a second is over. -/
theorem heartbeats_paced_taken :
    ∃ marks g c, @Paces Externals.bare false heartbeatTaken marks g c ∧ c.sent = [heartbeat] ∧
      marks.Pairwise (Mark.Behind heartbeatTaken.cfg) := by
  let _ : Externals := Externals.bare
  have hclock : Monotone heartbeatTaken.env.clock := fun m n hmn => by
    show (1000000000 : Int) * m ≤ 1000000000 * n
    omega
  have h₁ : Paces false heartbeatTaken _ (.looping 0 (some 2000000000)) { heartbeatTaken with ticks := 2 } :=
    .step .start rfl
  have hbeat : ∃ pkt g c, collectStep false (.looping 0 (some 2000000000)) { heartbeatTaken with ticks := 2 } =
      .ok (pkt, g) c ∧ c.sent = [heartbeat] := by
    refine exists_beat rfl ?_ ?_ ⟨_, _, rfl, rfl, ?_⟩ ?_
    · simp [Client.Current, heartbeatTaken, heartbeating]
    · simp [Client.Readable, heartbeatTaken, heartbeating, RecvBuf.fresh]
    · simp [heartbeatTaken, heartbeating, Client.ticked]
    · rintro ⟨sk, detail, ⟨⟩, ⟨⟩⟩
  obtain ⟨pkt, g, c, hrun, hsent⟩ := hbeat
  exact ⟨_, _, _, h₁.step hrun, hsent, (heartbeats_paced hclock (h₁.step hrun)).1⟩

end SeedLink
