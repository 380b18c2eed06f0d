import SeedLink.Resume
import SeedLink.ShellSessions

/-!
# What is left at a prompt

A streaming command of the shell ends behind END, with the connection closed, or when Ctrl-C strikes it. So
at a prompt nothing streams unless Ctrl-C has (`session_rests`), and Enter ends the session
(`enter_ends`).
-/

namespace SeedLink

open StateExc Client Commands

section passes
variable [Externals] {c : Client} {g : Collect}

theorem jsonErrorMessage_raises {payload : Bytes} {e : Exn} (h : jsonErrorMessage payload = .error e) :
    e ≠ .keyboardInterrupt := by
  rintro rfl
  unfold jsonErrorMessage at h
  simp only at h
  split at h
  · cases h
  · cases h
  · cases h
  · split at h <;> cases h
  · cases h

/-- The places of a generator that goes on. -/
def Collect.Looping (g : Collect) : Prop := ∃ last next, g = .looping last next

/-- What has been raised is no Ctrl-C, and nothing streams behind a `SeedLinkError`. -/
def Client.Leaves (stop : Stop) (c : Client) : Prop :=
  ∀ e, stop = .raised e → e ≠ .keyboardInterrupt ∧ (e.isSeedLinkError = true → c.streaming = false)

omit [Externals] in
theorem leaves_blocked : Client.Leaves .blocked c := nofun

omit [Externals] in
theorem leaves_seedLink {e : Exn} (he : e.isSeedLinkError = true) (hst : c.streaming = false) :
    Client.Leaves (.raised e) c := by
  rintro e' ⟨⟩
  refine ⟨?_, fun _ => hst⟩
  rintro rfl
  cases he

omit [Externals] in
theorem leaves_foreign {e : Exn} (hkey : e ≠ .keyboardInterrupt) (he : e.isSeedLinkError = false) :
    Client.Leaves (.raised e) c := by
  rintro e' ⟨⟩
  exact ⟨hkey, fun h => absurd (he.symm.trans h) Bool.false_ne_true⟩

/-- Without reconnecting, a step leaves nothing streaming when it ends the generator or raises `SeedLinkError`. -/
theorem wp_collectStep_leaves (hwf : c.sock.isSome = true → c.rb.WF) (hrest : c.Rested)
    (hg : g = .start ∧ c.streaming = true ∨ g.Looping) :
    wp (collectStep false g) (fun r c' => r.2.Looping ∨ r = (none, .finished) ∧ c'.streaming = false)
      Client.Leaves c := by
  rcases hg with ⟨rfl, hst⟩ | ⟨last, next, rfl⟩
  · simp only [collectStep, wp_bind, wp_get, hst, Bool.not_true, Bool.false_eq_true, if_false, wp_pure]
    exact wp_enterLoop fun _ _ _ => .inl ⟨_, _, rfl⟩
  have hclose : ∀ (e : Exn) (c' : Client), e.isSeedLinkError = true → wp (closeAndRaise false e (.looping last next))
      (fun r c' => r.2.Looping ∨ r = (none, .finished) ∧ c'.streaming = false) Client.Leaves c' :=
    fun _ _ he => leaves_seedLink he rfl
  refine wp_collectPass (fun hnone => .inr ⟨rfl, (hrest hnone).1⟩) (fun _ _ _ => hclose _ _ rfl) fun hsk _ => ?_
  obtain ⟨s, later, hf, hstall⟩ := exists_feeds (hwf hsk) hsk
  refine wp_mono (wp_awaitFrame (c := c.ticked) (hf.congr rfl rfl rfl) hstall) ?_ ?_
  · rintro (_ | x) c' haw
    · cases haw with
      | nothing _ h =>
        exact wp_keepalivePass h.isSome (fun _ => .inl ⟨_, _, rfl⟩) (fun _ _ _ _ => .inl ⟨_, _, rfl⟩)
          fun _ _ _ => .inl ⟨_, _, rfl⟩
    · cases x with
      | endOfStream => exact .inr ⟨rfl, rfl⟩
      | reply resp => exact hclose _ _ rfl
      | packet frame =>
        simp only [handleFrame, wp_ite, wp_bind, wp_liftExcept, wp_monotonic, wp_modify, wp_pure]
        split
        · cases hm : jsonErrorMessage frame.payload with
          | ok message => exact hclose _ _ rfl
          | error e => exact leaves_foreign (jsonErrorMessage_raises hm) (jsonErrorMessage_error hm).1
        · split <;> exact .inl ⟨_, _, rfl⟩
  · rintro (e | _) c' ⟨-, k, hfails⟩
    · rcases hfails.cases with he | ⟨rfl, -⟩ | ⟨rfl, -⟩
      · simp only [he, if_true]
        exact hclose _ _ he
      · exact leaves_foreign Exn.noConfusion rfl
      · exact leaves_foreign Exn.noConfusion rfl
    · exact leaves_blocked

end passes

/-! ### A socket that is shut down -/

/-- The bytes `s` are all that can still be read, behind them a read fails, and every poll says so. -/
structure Client.Drains (c : Client) (s : Bytes) (later : List Recv) : Prop where
  feeds : c.Feeds s later
  stalls : Stalls c.deadline later
  ends : later ≠ []
  socket : c.cfg.transport = .socket
  readable : ∀ k, c.polls ≤ k → c.env.readable k = true

section drains
variable {c c' : Client} {s : Bytes} {later : List Recv}

theorem RecvFails.of_blocked [Pymseed] (h : RecvFails c s later .blocked c') : later = [] := by
  cases h with
  | read h | awaiting _ _ _ h =>
    cases h with
    | blocked hlater => exact hlater

theorem Client.Drains.congr (h : c.Drains s later) {n : Nat} {k : Nat} (hf : c'.Feeds (s.drop n) later)
    (hc : c'.core = ({ c with polls := k } : Client).core) (hk : c.polls ≤ k) : c'.Drains (s.drop n) later := by
  have hpolls : c'.polls = k := (congrArg Client.polls hc :)
  have henv : c'.env = c.env := (congrArg Client.env hc :)
  have hdeadline : c'.deadline = c.deadline := deadline_of_core (c := { c with polls := k }) hc
  have hcfg : c'.cfg = c.cfg := cfg_of_core (c := { c with polls := k }) hc
  refine ⟨hf, hdeadline ▸ h.stalls, h.ends, hcfg ▸ h.socket, fun j hj => ?_⟩
  rw [henv]
  exact h.readable j (by omega)

variable [Externals]

/-- A frame is received, or receiving fails. -/
theorem wp_awaitFrame_drains (h : c.Drains s later) : wp awaitFrame
    (fun received c' => ∃ x n, received = some x ∧ Takes c.protocol s x n ∧ c'.Drains (s.drop n) later)
    (fun stop _ => stop ≠ .blocked) c := by
  have hrecv : ∀ k, c.polls ≤ k → wp recvFrame
      (fun received c' => ∃ x n, some received = some x ∧ Takes c.protocol s x n ∧ c'.Drains (s.drop n) later)
      (fun stop _ => stop ≠ .blocked) { c with polls := k } := by
    intro k hk
    refine wp_mono (wp_recvFrame_total (c := { c with polls := k }) (h.feeds.congr rfl rfl rfl) h.stalls) ?_ ?_
    · rintro x c' ⟨n, ht, hf, hc⟩
      exact ⟨x, n, rfl, ht, h.congr hf hc hk⟩
    · rintro stop c' hfails rfl
      exact h.ends hfails.of_blocked
  simp only [awaitFrame, pollReadable, wp_bind, wp_get, wp_ite, wp_pure, wp_set, if_true]
  split
  · exact hrecv c.polls (Nat.le_refl _)
  · rw [h.readable c.polls (Nat.le_refl _), if_neg (by simp), if_pos h.socket]
    exact hrecv (c.polls + 1) (Nat.le_succ _)

/-- A pass on a socket that is shut down goes on behind the frame it takes, ends the generator behind END, or
raises. -/
theorem wp_collectPass_drains {last : Int} {next : Option Int} (h : c.Drains s later) :
    wp (collectPass false last next)
      (fun r c' => (r.2.Looping ∧ ∃ n, 0 < n ∧ n ≤ s.length ∧ c'.Drains (s.drop n) later) ∨
        r = (none, .finished) ∧ Bytes.lit "END" <+: s)
      (fun stop c' => ∃ e, stop = .raised e ∧ (e.isSeedLinkError = true → c'.sock = none)) c := by
  have hclose : ∀ (e : Exn) (c' : Client), wp (closeAndRaise false e (.looping last next))
      (fun r c' => (r.2.Looping ∧ ∃ n, 0 < n ∧ n ≤ s.length ∧ c'.Drains (s.drop n) later) ∨
        r = (none, .finished) ∧ Bytes.lit "END" <+: s)
      (fun stop c' => ∃ e, stop = .raised e ∧ (e.isSeedLinkError = true → c'.sock = none)) c' :=
    fun e c' => ⟨e, rfl, fun _ => rfl⟩
  refine wp_collectPass (fun hnone => ?_) (fun _ _ _ => hclose _ _) fun _ _ => ?_
  · have := h.feeds.isSome
    rw [hnone] at this
    cases this
  have hticked : c.ticked.Drains s later := ⟨h.feeds.congr rfl rfl rfl, h.stalls, h.ends, h.socket, h.readable⟩
  refine wp_mono (wp_awaitFrame_drains hticked) ?_ ?_
  · rintro _ c' ⟨x, n, rfl, ht, hd⟩
    cases x with
    | endOfStream =>
      cases ht with
      | endOfStream hend => exact .inr ⟨rfl, hend⟩
    | reply resp => exact hclose _ _
    | packet frame =>
      obtain ⟨hpos, hle⟩ := ht.bounds
      simp only [handleFrame, wp_ite, wp_bind, wp_liftExcept, wp_monotonic, wp_modify, wp_pure]
      split
      · cases hm : jsonErrorMessage frame.payload with
        | ok message => exact hclose _ _
        | error e => exact ⟨e, rfl, fun he => absurd he (by rw [(jsonErrorMessage_error hm).1]; exact Bool.false_ne_true)⟩
      · split
        · exact .inl ⟨⟨_, _, rfl⟩, n, hpos, hle, hd⟩
        · exact .inl ⟨⟨_, _, rfl⟩, n, hpos, hle, hd.feeds.congr rfl rfl rfl, hd.stalls, hd.ends, hd.socket, hd.readable⟩
  · rintro (e | _) c' hstop
    · simp only
      split
      · exact hclose _ _
      · rename_i he
        exact ⟨e, rfl, fun h => absurd h he⟩
    · exact absurd rfl hstop

theorem wp_collectStep_drains {g : Collect} (h : c.Drains s later)
    (hg : g = .start ∧ c.streaming = true ∨ g.Looping) :
    wp (collectStep false g)
      (fun r c' => (r.2.Looping ∧ ∃ n, (g.Looping → 0 < n) ∧ n ≤ s.length ∧ c'.Drains (s.drop n) later) ∨
        r = (none, .finished) ∧ Bytes.lit "END" <+: s)
      (fun stop c' => ∃ e, stop = .raised e ∧ (e.isSeedLinkError = true → c'.sock = none)) c := by
  rcases hg with ⟨rfl, hst⟩ | ⟨last, next, rfl⟩
  · simp only [collectStep, wp_bind, wp_get, hst, Bool.not_true, Bool.false_eq_true, if_false, wp_pure]
    refine wp_enterLoop fun last next ticks => .inl ⟨⟨last, next, rfl⟩, 0, ?_, Nat.zero_le _, ?_⟩
    · rintro ⟨_, _, ⟨⟩⟩
    · exact ⟨h.feeds.congr rfl rfl rfl, h.stalls, h.ends, h.socket, h.readable⟩
  · refine wp_mono (wp_collectPass_drains h) (fun r c' hr => ?_) fun _ _ hr => hr
    rcases hr with ⟨hlooping, n, hpos, hle, hd⟩ | hend
    · exact .inl ⟨hlooping, n, fun _ => hpos, hle, hd⟩
    · exact .inr hend

end drains

/-- What is in the buffer and what arrives before the shutdown is all that can be read behind it. -/
theorem Client.drains_shutdown {c : Client} (arriving : List Recv) (hwf : c.rb.WF) (hsk : c.sock.isSome = true)
    (hsocket : c.cfg.transport = .socket) (hreadable : ∀ k, c.polls ≤ k → c.env.readable k = true) :
    ∃ s later, ({ c with sock := c.sock.map (Sock.shutdown arriving) } : Client).Drains s later ∧
      s <+: c.rb.unread ++ delivered arriving := by
  obtain ⟨sk, hsk⟩ := Option.isSome_iff_exists.1 hsk
  obtain ⟨now, later, hsplit, hnow, hstall⟩ := exists_benign_stalls c.deadline (arriving ++ [.data []])
  have hends : later ≠ [] := by
    rintro rfl
    have hmem : Recv.data [] ∈ now := by
      rw [List.append_nil] at hsplit
      exact hsplit ▸ List.mem_append_right _ (List.mem_singleton_self _)
    exact hnow _ hmem rfl
  have hpre : now <+: arriving := by
    obtain ⟨ev, later, rfl⟩ : ∃ later' ev, later = later' ++ [ev] := ⟨_, _, (List.dropLast_append_getLast hends).symm⟩
    rw [← List.append_assoc] at hsplit
    exact ⟨_, (List.append_inj_left' hsplit rfl).symm⟩
  refine ⟨c.rb.unread ++ delivered now, later, ⟨⟨_, now, ⟨hwf, rfl, ?_⟩, hnow, rfl⟩, hstall, hends, hsocket, hreadable⟩, ?_⟩
  · exact ⟨sk.shutdown arriving, by rw [hsk]; rfl, hsplit⟩
  · obtain ⟨rest, rfl⟩ := hpre
    exact ⟨delivered rest, by rw [delivered_append, List.append_assoc]⟩

theorem streams_usable {c : Client} (arriving : List Recv) (h : c.Usable) :
    ({ c with sock := c.sock.map (Sock.shutdown arriving) } : Client).Usable := by
  refine ⟨h.size, fun hsk => h.wf ?_⟩
  rwa [Option.isSome_map] at hsk

namespace Cli

/-! ### Ctrl-C -/

/-- What Ctrl-C can leave streaming. -/
def Press.interrupts : Press → Bool
  | .polling | .receiving | .updating _ => true
  | .enter _ | .printing => false

/-- Ctrl-C has struck one of the first passes. -/
def Operator.Broke (op : Operator) (passes : Nat) : Prop :=
  ∃ k < passes, ∃ press, op.press k = some press ∧ press.interrupts = true

/-- A client at rest, unless Ctrl-C has struck it. -/
structure Shell.AtRest (op : Operator) (s : Shell) : Prop where
  usable : s.client.Usable
  rested : s.client.Rested
  broke : s.client.streaming = true → op.Broke s.passes

/-- The client is at rest if the exception is one that a streaming command catches. -/
structure Shell.Leaves (op : Operator) (stop : Stop) (s : Shell) : Prop where
  usable : s.client.Usable
  rested : s.client.Rested
  caught : ∀ e, stop = .raised e → e = .keyboardInterrupt ∨ e.isSeedLinkError = true →
    s.client.streaming = true → op.Broke s.passes

section resting
variable [Externals] {op : Operator} {s : Shell} {n fuel : Nat} {g : Collect}

theorem wp_watchPass_rests (husable : s.client.Usable) (hrest : s.client.Rested)
    (hg : g = .start ∧ s.client.streaming = true ∨ g.Looping) :
    wp (watchPass (op.press s.passes) g)
      (fun r s' => s'.client.Usable ∧ s'.client.Rested ∧
        (r.2.Looping ∨ r = (none, .finished) ∧ s'.client.streaming = false))
      (fun stop s' => s'.Leaves op stop) s := by
  have hbroke : ∀ press, op.press s.passes = some press → press.interrupts = true → op.Broke (s.passes + 1) :=
    fun press hp hi => ⟨s.passes, Nat.lt_succ_self _, press, hp, hi⟩
  have hwait : ∀ s₁ : Shell, s₁.client.Usable → s₁.client.Rested → s₁.client.streaming = s.client.streaming →
      s₁.passes = s.passes + 1 →
      wp (takePacket (op.press s.passes) s₁.client.base.streams g)
        (fun r s' => s'.client.Usable ∧ s'.client.Rested ∧
          (r.2.Looping ∨ r = (none, .finished) ∧ s'.client.streaming = false))
        (fun stop s' => s'.Leaves op stop) s₁ := by
    intro s₁ hu hr hst hpasses
    have hg₁ : g = .start ∧ s₁.client.streaming = true ∨ g.Looping := by rwa [hst]
    rw [takePacket, wp_bind, awaiting, wp_tryCatch, wp_onSl]
    refine wp_mono (wp_and (wp_collectStep_leaves hu.wf hr hg₁)
      (wp_and (usable_collectStep false g s₁.client) (rests_collectStep false g s₁.client hr))) ?_ ?_
    · rintro r c ⟨hleft, husable, hrested⟩
      cases hpkt : r.1 with
      | none => exact ⟨husable hu, hrested, hleft⟩
      | some pkt =>
        simp only [wp_bind, wp_onProcess, note, wp_modify, wp_pure]
        split
        · exact ⟨husable hu, hrested, hleft⟩
        · rename_i k e hmishap
          simp only [wp_bind, wp_get, setStreams, wp_modify, wp_throw]
          refine ⟨⟨(husable hu).size, (husable hu).wf⟩, hrested.congr rfl rfl rfl rfl, fun _ _ _ _ => ?_⟩
          show op.Broke s₁.passes
          rw [hpasses]
          cases hpress : op.press s.passes with
          | none => rw [hpress] at hmishap; cases hmishap
          | some press =>
            rw [hpress] at hmishap
            cases press with
            | updating k => exact hbroke _ hpress rfl
            | enter | polling | receiving | printing => cases hmishap
    · rintro (e | _) c ⟨hleft, husable, hrested⟩
      · refine ⟨husable hu, hrested, ?_⟩
        rintro e' ⟨⟩ hcaught hstream
        rcases hcaught with rfl | hse
        · exact absurd rfl (hleft _ rfl).1
        · exact absurd (((hleft _ rfl).2 hse).symm.trans hstream) Bool.false_ne_true
      · simp only [wp_ite, wp_throw]
        split
        · rename_i hpress
          refine ⟨husable hu, hrested, fun _ _ _ _ => ?_⟩
          show op.Broke s₁.passes
          rw [hpasses]
          exact hbroke _ (of_decide_eq_true hpress) rfl
        · exact ⟨husable hu, hrested, fun _ hraised => by cases hraised⟩
  rw [watchPass, wp_bind, wp_modify, wp_bind]
  cases hpress : op.press s.passes with
  | none =>
    rw [hpress] at hwait
    exact hwait { s with passes := s.passes + 1 } husable hrest rfl rfl
  | some press =>
    rw [hpress] at hwait hbroke
    cases press with
    | enter arriving =>
      refine hwait (Shell.watcher arriving { s with passes := s.passes + 1 }) ?_ ?_ ?_ ?_
      all_goals unfold Shell.watcher; split
      · exact husable
      · exact streams_usable arriving husable
      · exact hrest
      · exact streams_rested arriving hrest
      · rfl
      · rfl
      · rfl
      · rfl
    | polling => exact ⟨husable, hrest, fun _ _ _ _ => hbroke _ rfl rfl⟩
    | receiving | updating | printing => exact hwait { s with passes := s.passes + 1 } husable hrest rfl rfl

theorem wp_watch_rests : ∀ {fuel : Nat} {g : Collect} {s : Shell}, s.client.Usable → s.client.Rested →
    (g = .start ∧ s.client.streaming = true ∨ g.Looping) →
    wp (watch op fuel g) (fun _ => Shell.AtRest op) (fun stop s' => s'.Leaves op stop) s
  | 0, _, _, husable, hrest, _ => ⟨husable, hrest, fun _ hraised => by cases hraised⟩
  | fuel + 1, g, s, husable, hrest, hg => by
    simp only [watch, wp_bind, wp_get, wp_ite, wp_pure, wp_throw]
    refine wp_mono (wp_watchPass_rests husable hrest hg) ?_ fun _ _ h => h
    rintro r s₁ ⟨hu, hr, hleft⟩
    split
    · rename_i hend
      rcases hleft with ⟨last, next, hg'⟩ | ⟨-, hst⟩
      · simp [hg'] at hend
      · exact ⟨hu, hr, fun h => absurd (hst.symm.trans h) Bool.false_ne_true⟩
    · rename_i hgoes
      split
      · rw [wp_onSl, wp_close]
        refine ⟨SeedLink.usable.close s₁.client hu, rested_closed _, ?_⟩
        rintro e ⟨⟩ - h
        cases h
      · refine wp_watch_rests hu hr (.inr ?_)
        rcases hleft with hlooping | ⟨hend, -⟩
        · exact hlooping
        · exact absurd (by rw [hend]; rfl) hgoes

theorem wp_watchPackets_rests (husable : s.client.Usable) (hrest : s.client.Rested) (hst : s.client.streaming = true) :
    wp (watchPackets op fuel) (fun _ => Shell.AtRest op) (fun _ s' => s'.client.Usable ∧ s'.client.Rested) s := by
  simp only [watchPackets, wp_bind, wp_tryCatch, wp_excepting, wp_modify, wp_throw]
  refine wp_mono (wp_watch_rests husable hrest (.inl ⟨rfl, hst⟩)) (fun _ s' h => ⟨h.usable, h.rested, h.broke⟩)
    fun stop s' h => ?_
  rcases stop with e | _
  · simp only [wp_ite, wp_bind, wp_get, wp_pure, wp_fail]
    split
    · rename_i hcaught
      have hrests : s'.client.streaming = true → op.Broke s'.passes := h.caught e rfl (by simpa using hcaught)
      split
      · exact ⟨h.usable, h.rested, hrests⟩
      · split
        · exact ⟨h.usable, h.rested, hrests⟩
        · exact ⟨h.usable, h.rested, hrests⟩
    · exact ⟨h.usable, h.rested⟩
  · exact ⟨h.usable, h.rested⟩

omit [Externals] in
theorem wp_attempt_rests (cmd : Command) (h : s.AtRest op) : wp (attempt op n (sendCommand cmd))
    (fun r s' => s'.AtRest op ∧ (r.isSome = true → s'.client.Connected)) (fun _ => Shell.AtRest op) s := by
  refine wp_attempt (wp_mono (wp_and (heeds_sendCommand cmd s.client)
    (wp_and (SeedLink.usable.sendCommand cmd trivial s.client) (leads_sendCommand cmd s.client h.rested))) ?_ ?_)
    fun s' message h' => ⟨⟨h'.usable, h'.rested, h'.broke⟩, fun hnone => by cases hnone⟩
  · rintro _ _ ⟨hheeds, husable, hconn⟩
    exact ⟨⟨husable h.usable, hconn.rested, fun hst => h.broke (hheeds.streaming hst)⟩, fun _ => hconn⟩
  · rintro _ _ ⟨hheeds, husable, hrested⟩
    exact ⟨husable h.usable, hrested, fun hst => h.broke (hheeds.streaming hst)⟩

/-- What every turn keeps. -/
theorem keepsAtRest : TurnKeeps op n fuel (Shell.AtRest op) fun s => s.client.Usable ∧ s.client.Rested where
  raised _ h := ⟨h.usable, h.rested⟩
  shell s s' hp _ hpasses h := by
    have hclient : s'.client = s.client := congrArg Process.client hp
    exact ⟨hclient ▸ h.usable, hclient ▸ h.rested, fun hst => hpasses ▸ h.broke (hclient ▸ hst)⟩
  call hx s h := by
    refine wp_mono (wp_and (hx.heeds s.client) (wp_and (hx.usable s.client) (hx.rests s.client h.rested))) ?_ ?_
    all_goals
      rintro _ _ ⟨hheeds, husable, hrested⟩
      exact ⟨husable h.usable, hrested, fun hst => h.broke (hheeds.streaming hst)⟩
  finish cmd s h := by
    rw [finishHandshake, wp_bind]
    refine wp_mono (wp_attempt_rests cmd h) ?_ fun _ _ h' => ⟨h'.usable, h'.rested⟩
    rintro r s₁ ⟨h₁, hconn⟩
    simp only [wp_ite, wp_bind, wp_modify, wp_pure]
    split
    · rename_i hsome
      have hconn' : s₁.client.Connected := hconn hsome
      exact wp_watchPackets_rests ⟨h₁.usable.size, h₁.usable.wf⟩ (Client.Connected.rested hconn') rfl
    · exact h₁

theorem connected_of_turn {s' : Shell} (hrun : turn op n fuel s = .ok false s') : s'.client.Connected := by
  obtain ⟨typed, s₁, -, hrest⟩ := exists_of_seq hrun
  obtain ⟨stop, s₂, -, hpost⟩ := exists_of_seq hrest
  have hstop : wp (postcmd stop) (fun ended s' => ended = false → s'.client.Connected) (fun _ _ => True) s₂ := by
    simp only [postcmd, wp_bind, wp_get, wp_pure, Bool.or_eq_false_iff, Option.isNone_eq_false_iff]
    exact fun h => h.2
  exact wp_ok hstop hpost rfl

/-- At every prompt behind the first there is a connection, and nothing streams unless Ctrl-C has struck a
streaming command before. -/
theorem session_rests {s₀ : Shell} {hist : List (Text × Shell)} (h₀ : s₀.AtRest op) (h : Session op s₀ n s hist) :
    s.AtRest op ∧ (hist ≠ [] → s.client.Connected) := by
  induction h with
  | start => exact ⟨h₀, fun h => absurd rfl h⟩
  | next _ htyped hrun ih =>
    refine ⟨?_, fun _ => connected_of_turn hrun⟩
    exact wp_ok (Q := fun _ => Shell.AtRest op) (keepsAtRest.turn ih.1
      (fun _ _ _ _ s p h => ⟨⟨h.usable.size, h.usable.wf⟩, h.rested, h.broke⟩)
      fun _ _ _ _ _ s h => ⟨h.usable, h.rested, h.broke⟩) hrun

end resting

/-- A shell whose server sends packet 7 behind the handshake and ends the stream. -/
def finite : Shell :=
  { process := {
      client := {
        cfg := {}
        env := ⟨fun _ => .timeout, fun _ => 0, fun _ => true⟩
        sock := some {
          incoming := []
          peer := scripted [
            (Bytes.lit "HELLO" ++ crlf, [.data (Bytes.lit "SeedLink v4.0 :: SLPROTO:4.0" ++ crlf ++ Bytes.lit "ORG" ++ crlf)]),
            (Bytes.lit "SLPROTO 4.0" ++ crlf, [.data (Bytes.lit "OK" ++ crlf)]),
            (Bytes.lit "STATION A_B" ++ [13], [.data (Bytes.lit "OK" ++ crlf)]),
            (Bytes.lit "DATA" ++ [13], [.data (Bytes.lit "OK" ++ crlf)]),
            (Bytes.lit "END" ++ crlf, [.data (numbered 7), .data (Bytes.lit "END")])] } }
      file := none } }

def streamingTo : Operator := .typing ["hello", "slproto", "station A_B", "data", "end"]

/-- The prompt behind the stream. -/
def streamed : Option (Shell × List (Text × Shell)) := @promptAt Externals.bare streamingTo 5 finite 5

theorem session_rests_streamed : ∃ s hist, @Session Externals.bare streamingTo finite 5 s hist ∧
    s.process.received = [toPacket (numberedFrame 7)] ∧ s.client.streaming = false ∧
      s.AtRest streamingTo ∧ s.client.Connected := by
  obtain ⟨⟨s, hist⟩, hrun⟩ := Option.isSome_iff_exists.1 (show streamed.isSome = true by decide +kernel)
  have hseen : streamed.map (fun p => (p.2.isEmpty, p.1.process.received, p.1.client.streaming)) =
      some (false, [toPacket (numberedFrame 7)], false) := by decide +kernel
  rw [hrun, Option.map_some, Option.some.injEq, Prod.mk.injEq, Prod.mk.injEq] at hseen
  obtain ⟨hne, hreceived, hst⟩ := hseen
  have h := @session_of_promptAt Externals.bare _ _ _ _ _ _ hrun
  have h₀ : finite.AtRest streamingTo := ⟨⟨Nat.le_refl _, fun _ => RecvBuf.wf_fresh⟩, Client.Connected.rested rfl, nofun⟩
  obtain ⟨hrest, hconn⟩ := @session_rests Externals.bare streamingTo s 5 finite hist h₀ h
  refine ⟨s, hist, h, hreceived, hst, hrest, hconn ?_⟩
  rintro rfl
  cases hne

section enter
variable [Externals] {op : Operator} {s : Shell} {n fuel : Nat} {g : Collect}

/-! ### Enter -/

/-- A streaming command has got to a pass of its loop. -/
inductive Watching (op : Operator) (s₀ : Shell) : Collect → Shell → Prop
  | start : Watching op s₀ .start s₀
  | pass {g g' : Collect} {s s' : Shell} {pkt : Option SeedLinkPacket} (h : Watching op s₀ g s)
      (hrun : watchPass (op.press s.passes) g s = .ok (pkt, g') s')
      (hgoes : ¬ (pkt.isNone && g' = .finished) = true)
      (hprinted : ¬ (pkt.isSome && op.press s.passes = some .printing) = true) : Watching op s₀ g' s'

variable {s₀ : Shell} {bytes all : Bytes} {later : List Recv}

theorem Watching.watch (h : Watching op s₀ g s) :
    ∃ k, ∀ fuel, Cli.watch op (fuel + k) .start s₀ = Cli.watch op fuel g s := by
  induction h with
  | start => exact ⟨0, fun _ => rfl⟩
  | @pass g g' s s' pkt h hrun hgoes hprinted ih =>
    obtain ⟨k, hk⟩ := ih
    refine ⟨k + 1, fun fuel => ?_⟩
    rw [← Nat.add_assoc, Nat.add_right_comm, hk]
    show (do
        let s ← get
        let press := op.press s.passes
        let r ← watchPass press g
        if r.1.isNone && r.2 = .finished then return
        else if r.1.isSome && press = some .printing then do
          onSl close
          throw (.raised .keyboardInterrupt)
        else Cli.watch op fuel r.2 : ShellM Unit) s = _
    rw [seq_ok (get_run s), seq_ok hrun]
    simp only [if_neg hgoes, if_neg hprinted]

/-- The stream is over, and so is the connection unless END was among the bytes. -/
structure Shell.Over (all : Bytes) (s : Shell) : Prop where
  streaming : s.client.streaming = false
  closed : s.client.sock = none ∨ Bytes.lit "END" <:+: all

/-- An exception but a `SeedLinkError` escapes; behind a `SeedLinkError` the stream is over. -/
def Shell.Escapes (all : Bytes) (stop : Stop) (s : Shell) : Prop :=
  ∃ e, stop = .raised e ∧ e ≠ .keyboardInterrupt ∧ (e.isSeedLinkError = true → s.Over all)

/-- A pass behind the shutdown in which nothing is pressed. -/
theorem wp_takePacket_drains {press : Option Press} (hpress : press = none ∨ ∃ arriving, press = some (.enter arriving))
    (hu : s.client.Usable) (hr : s.client.Rested) (hd : s.client.Drains bytes later)
    (hall : bytes <:+: all) (hg : g = .start ∧ s.client.streaming = true ∨ g.Looping) (streams : List Stream) :
    wp (takePacket press streams g)
      (fun r s' => s'.passes = s.passes ∧ s'.stopped = s.stopped ∧ ((r.2.Looping ∧ s'.client.Usable ∧
        s'.client.Rested ∧ ∃ n, (g.Looping → 0 < n) ∧ n ≤ bytes.length ∧ s'.client.Drains (bytes.drop n) later) ∨
          r = (none, .finished) ∧ s'.Over all))
      (fun stop s' => s'.stopped = s.stopped ∧ s'.Escapes all stop) s := by
  have hmishaps : Press.mishaps press = {} ∧ decide (press = some .receiving) = false := by
    rcases hpress with rfl | ⟨arriving, rfl⟩ <;> exact ⟨rfl, by simp⟩
  rw [takePacket, wp_bind, hmishaps.1, hmishaps.2, awaiting, wp_tryCatch, wp_onSl]
  refine wp_mono (wp_and (wp_and (wp_collectStep_drains hd hg) (wp_collectStep_leaves hu.wf hr hg))
    (wp_and (usable_collectStep false g s.client) (rests_collectStep false g s.client hr))) ?_ ?_
  · rintro r c ⟨⟨hdrains, hleft⟩, husable, hrested⟩
    have hout : (r.2.Looping ∧ c.Usable ∧ c.Rested ∧
        ∃ n, (g.Looping → 0 < n) ∧ n ≤ bytes.length ∧ c.Drains (bytes.drop n) later) ∨
          r = (none, .finished) ∧ (s.withClient c).Over all := by
      rcases hdrains with ⟨hlooping, hn⟩ | ⟨hend, hEND⟩
      · exact .inl ⟨hlooping, husable hu, hrested, hn⟩
      · refine .inr ⟨hend, ?_, .inr (hEND.isInfix.trans hall)⟩
        rcases hleft with ⟨_, _, hlooping⟩ | ⟨-, hst⟩
        · rw [hend] at hlooping
          cases hlooping
        · exact hst
    cases hpkt : r.1 with
    | none => exact ⟨rfl, rfl, hout⟩
    | some pkt =>
      simp only [wp_bind, wp_onProcess, note, wp_modify, wp_pure]
      refine ⟨rfl, rfl, hout.imp_right fun h => ?_⟩
      rw [h.1] at hpkt
      cases hpkt
  · rintro stop c ⟨⟨⟨e, rfl, hclosed⟩, hleft⟩, -, -⟩
    exact ⟨rfl, e, rfl, (hleft e rfl).1, fun he => ⟨(hleft e rfl).2 he, .inl (hclosed he)⟩⟩

theorem wp_watchPass_drains {press : Option Press} {s₁ : Shell}
    (hstrike : press = none ∧ s₁ = { s with passes := s.passes + 1 } ∨
      ∃ arriving, press = some (.enter arriving) ∧ s₁ = Shell.watcher arriving { s with passes := s.passes + 1 })
    (hu : s₁.client.Usable) (hr : s₁.client.Rested) (hd : s₁.client.Drains bytes later)
    (hall : bytes <:+: all) (hg : g = .start ∧ s₁.client.streaming = true ∨ g.Looping) :
    wp (watchPass press g)
      (fun r s' => s'.passes = s₁.passes ∧ s'.stopped = s₁.stopped ∧ ((r.2.Looping ∧ s'.client.Usable ∧
        s'.client.Rested ∧ ∃ n, (g.Looping → 0 < n) ∧ n ≤ bytes.length ∧ s'.client.Drains (bytes.drop n) later) ∨
          r = (none, .finished) ∧ s'.Over all))
      (fun stop s' => s'.stopped = s₁.stopped ∧ s'.Escapes all stop) s := by
  rw [watchPass, wp_bind, wp_modify, wp_bind]
  rcases hstrike with ⟨rfl, rfl⟩ | ⟨arriving, rfl, rfl⟩
  · exact wp_takePacket_drains (.inl rfl) hu hr hd hall hg _
  · exact wp_takePacket_drains (.inr ⟨arriving, rfl⟩) hu hr hd hall hg _

theorem wp_watch_drains (hquiet : ∀ k, n ≤ k → op.press k = none) : ∀ {fuel : Nat} {g : Collect} {s : Shell}
    {bytes : Bytes}, bytes.length < fuel → n ≤ s.passes → s.stopped = true → s.client.Usable → s.client.Rested →
    s.client.Drains bytes later → bytes <:+: all → g.Looping →
    wp (watch op fuel g) (fun _ => Shell.Over all) (fun stop s' => s'.stopped = true ∧ s'.Escapes all stop) s
  | 0, _, _, _, hfuel, _, _, _, _, _, _, _ => absurd hfuel (Nat.not_lt_zero _)
  | fuel + 1, g, s, bytes, hfuel, hn, hst, hu, hr, hd, hall, hg => by
    simp only [watch, wp_bind, wp_get, hquiet s.passes hn, wp_ite, wp_pure]
    refine wp_mono (wp_watchPass_drains (.inl ⟨rfl, rfl⟩) hu hr hd hall (.inr hg)) ?_ fun _ _ h => ⟨h.1.trans hst, h.2⟩
    rintro r s₁ ⟨hpasses, hst₁, hout⟩
    rcases hout with ⟨⟨last, next, hlooping⟩, hu₁, hr₁, k, hpos, hle, hd₁⟩ | ⟨hend, hover⟩
    · rw [if_neg (by simp [hlooping]), if_neg (by simp)]
      refine wp_watch_drains hquiet ?_ (by rw [hpasses]; exact Nat.le_succ_of_le hn) (hst₁.trans hst) hu₁ hr₁ hd₁
        ((List.drop_suffix k bytes).isInfix.trans hall) ⟨last, next, hlooping⟩
      have := hpos hg
      rw [List.length_drop]
      omega
    · rw [if_pos (by rw [hend]; rfl)]
      exact hover

/-- The pass that finds the connection closed. -/
theorem wp_watchPass_closed {arriving : List Recv} (hnone : s.client.sock = none) (hg : g.Looping) :
    wp (watchPass (some (.enter arriving)) g) (fun r s' => r = (none, .finished) ∧ s'.client = s.client)
      (fun _ _ => False) s := by
  obtain ⟨last, next, rfl⟩ := hg
  rw [watchPass, wp_bind, wp_modify, wp_bind]
  have hclient : (Shell.watcher arriving { s with passes := s.passes + 1 }).client = s.client := by
    unfold Shell.watcher
    split
    · rfl
    · show ({ s.client with sock := s.client.sock.map (Sock.shutdown arriving) } : Client) = s.client
      rw [hnone, Option.map_none, ← hnone]
  have hrun : collectStep false (.looping last next) (Shell.watcher arriving { s with passes := s.passes + 1 }).client =
      .ok (none, .finished) s.client := by
    rw [hclient]
    exact collectPass_of_closed hnone
  show wp (takePacket (some (.enter arriving)) s.client.base.streams (.looping last next)) _ _
    (Shell.watcher arriving { s with passes := s.passes + 1 })
  rw [takePacket, wp_bind, awaiting, wp_tryCatch, wp_onSl]
  exact (wp_iff_of_ok hrun).2 ⟨rfl, rfl⟩

theorem Watching.stands (h : Watching op s₀ g s) (hu : s₀.client.Usable) (hr : s₀.client.Rested)
    (hst : s₀.client.streaming = true) : s.client.Usable ∧ s.client.Rested ∧
      (g = .start ∧ s.client.streaming = true ∨ g.Looping) := by
  induction h with
  | start => exact ⟨hu, hr, .inl ⟨rfl, hst⟩⟩
  | pass _ hrun hgoes _ ih =>
    obtain ⟨hu', hr', hleft⟩ := wp_ok (wp_watchPass_rests ih.1 ih.2.1 ih.2.2) hrun
    refine ⟨hu', hr', .inr (hleft.resolve_right fun hend => hgoes ?_)⟩
    obtain ⟨rfl, rfl⟩ := Prod.mk.inj hend.1
    rfl

/-- When Enter is pressed in any pass of a streaming command, and nothing behind it, the command ends after
finitely many passes and reports nothing. The connection is closed unless the server's END was among the bytes
that could still be read. An exception that is no `SeedLinkError` escapes as before. -/
theorem enter_ends {arriving : List Recv} (hu : s₀.client.Usable) (hr : s₀.client.Rested)
    (hst : s₀.client.streaming = true) (h : Watching op s₀ g s) (hstopped : s.stopped = false)
    (hpress : op.press s.passes = some (.enter arriving)) (hquiet : ∀ k, s.passes < k → op.press k = none)
    (hsocket : s.client.cfg.transport = .socket) (hreadable : ∀ k, s.client.polls ≤ k → s.client.env.readable k = true) :
    ∃ enough, ∀ fuel, enough ≤ fuel → wp (watchPackets op fuel)
      (fun _ s' => s₀.Silent s' ∧ s'.Over (s.client.rb.unread ++ delivered arriving))
      (fun stop _ => ∃ e, stop = .raised e ∧ e ≠ .keyboardInterrupt ∧ e.isSeedLinkError = false) s₀ := by
  obtain ⟨husable, hrested, hg⟩ := h.stands hu hr hst
  obtain ⟨k, hk⟩ := h.watch
  suffices hwatch : ∃ enough, ∀ fuel, enough ≤ fuel → wp (watch op fuel g)
      (fun _ => Shell.Over (s.client.rb.unread ++ delivered arriving))
      (fun stop s' => s'.stopped = true ∧ s'.Escapes (s.client.rb.unread ++ delivered arriving) stop) s by
    obtain ⟨enough, hwatch⟩ := hwatch
    refine ⟨enough + k, fun fuel hfuel => ?_⟩
    obtain ⟨more, rfl⟩ := Nat.exists_eq_add_of_le hfuel
    have hsame : ∀ Q E, wp (watch op (enough + k + more) .start) Q E s₀ ↔ wp (watch op (enough + more) g) Q E s := by
      intro Q E
      unfold wp
      rw [Nat.add_right_comm, hk]
    simp only [watchPackets, wp_bind, wp_tryCatch, wp_excepting, wp_modify, wp_throw]
    refine wp_mono (wp_and (silent.watch op _ .start s₀) ((hsame _ _).2 (hwatch _ (Nat.le_add_right _ _)))) ?_ ?_
    · rintro _ s' ⟨hsilent, hover⟩
      exact ⟨⟨hsilent.errors, hsilent.hadError⟩, hover.streaming, hover.closed⟩
    · rintro _ s' ⟨hsilent, hst', e, rfl, he, hover⟩
      simp only [wp_ite, wp_bind, wp_get, wp_pure]
      split
      · rename_i hcaught
        have hse : e.isSeedLinkError = true := by simpa [he] using hcaught
        exact ⟨⟨hsilent.errors, hsilent.hadError⟩, (hover hse).streaming, (hover hse).closed⟩
      · rename_i hescapes
        exact ⟨e, rfl, he, by simpa [he] using hescapes⟩
  have hwatcher : (Shell.watcher arriving { s with passes := s.passes + 1 }) = { s with
      passes := s.passes + 1
      stopped := true
      process := { s.process with client :=
        { s.client with sock := s.client.sock.map (Sock.shutdown arriving) } } } :=
    if_neg (by rw [hstopped]; exact Bool.false_ne_true)
  cases hsk : s.client.sock with
  | none =>
    refine ⟨1, fun fuel hfuel => ?_⟩
    obtain ⟨fuel, rfl⟩ := Nat.exists_eq_add_of_le' hfuel
    have hlooping : g.Looping := hg.resolve_left fun h => by
      rw [(hrested hsk).1] at h
      cases h.2
    simp only [watch, wp_bind, wp_get, hpress, wp_ite, wp_pure]
    refine wp_mono (wp_watchPass_closed hsk hlooping) ?_ fun _ _ h => h.elim
    rintro r s' ⟨hend, hclient⟩
    rw [if_pos (by rw [hend]; rfl)]
    exact ⟨hclient ▸ (hrested hsk).1, .inl (hclient ▸ hsk)⟩
  | some sk =>
    have hsome : s.client.sock.isSome = true := by rw [hsk]; rfl
    obtain ⟨bytes, later, hd, hpre⟩ := Client.drains_shutdown arriving (husable.wf hsome) hsome hsocket hreadable
    refine ⟨bytes.length + 2, fun fuel hfuel => ?_⟩
    obtain ⟨fuel, rfl⟩ := Nat.exists_eq_add_of_le' (Nat.le_trans (Nat.le_add_left 1 (bytes.length + 1)) hfuel)
    have hd' : (Shell.watcher arriving { s with passes := s.passes + 1 }).client.Drains bytes later := by
      rw [hwatcher]
      exact hd
    simp only [watch, wp_bind, wp_get, hpress, wp_ite, wp_pure]
    refine wp_mono (wp_watchPass_drains (.inr ⟨arriving, rfl, rfl⟩) (hwatcher ▸ streams_usable arriving husable)
      (hwatcher ▸ streams_rested arriving hrested) hd' hpre.isInfix (by rw [hwatcher]; exact hg)) ?_
      fun _ _ h => ⟨h.1.trans (by rw [hwatcher]), h.2⟩
    rintro r s₁ ⟨hpasses, hst₁, hout⟩
    rw [hwatcher] at hpasses hst₁
    rcases hout with ⟨⟨last, next, hlooping⟩, hu₁, hr₁, n, -, hle, hd₁⟩ | ⟨hend, hover⟩
    · rw [if_neg (by simp [hlooping]), if_neg (by simp)]
      refine wp_watch_drains (n := s.passes + 1) (fun k hk => hquiet k hk) ?_ (Nat.le_of_eq hpasses.symm) hst₁ hu₁ hr₁ hd₁
        ((List.drop_suffix n bytes).isInfix.trans hpre.isInfix) ⟨last, next, hlooping⟩
      rw [List.length_drop]
      omega
    · rw [if_pos (by rw [hend]; rfl)]
      exact hover

end enter

/-- A shell that streams from a server, with Enter pressed in the first pass, behind the start of a packet. -/
def streamingShell : Shell :=
  { process := {
      client := { Client.listening .v4 [.data (Bytes.lit "SE")] with streaming := true }
      file := none }
    stopped := false }

def pressingEnter : Operator :=
  { typed := fun _ => .endOfInput, press := fun k => if k = 0 then some (.enter [.data (Bytes.lit "SE")]) else none }

theorem enter_ends_streaming : ∃ enough, ∀ fuel, enough ≤ fuel →
    wp (@watchPackets Externals.bare pressingEnter fuel)
      (fun _ s' => streamingShell.Silent s' ∧ s'.Over (Bytes.lit "SE"))
      (fun stop _ => ∃ e, stop = .raised e ∧ e ≠ .keyboardInterrupt ∧ e.isSeedLinkError = false) streamingShell := by
  have h := @enter_ends Externals.bare pressingEnter streamingShell .start streamingShell [.data (Bytes.lit "SE")]
    ⟨Nat.le_refl _, fun _ => RecvBuf.wf_fresh⟩ (Client.Connected.rested rfl) rfl
    (@Watching.start Externals.bare _ _) rfl rfl
    (fun k hk => if_neg (by intro h; subst h; cases hk)) rfl fun _ _ => rfl
  rwa [show streamingShell.client.rb.unread ++ delivered [.data (Bytes.lit "SE")] = Bytes.lit "SE" from rfl] at h

end Cli

end SeedLink
