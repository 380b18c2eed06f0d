import SeedLink.Passes
import SeedLink.Shell
import SeedLink.Steady

/-!
# What a session of the shell does

Each turn of `cmdloop` sends the line that was typed, as the wire has it, unless the client withholds it, and behind
it nothing but the heartbeats of a streaming command: the shell never negotiates of its own (`wp_turn_sends`).
-/

namespace SeedLink

open StateExc Client Commands

/-! ### What a client sends -/

/-- Only heartbeats have been sent. -/
def Client.Beats (c c' : Client) : Prop := ∃ k, c'.sent = c.sent ++ List.replicate k heartbeat

instance : IsPreorder Client Client.Beats where
  refl _ := ⟨0, (List.append_nil _).symm⟩
  trans _ _ _ h h' := by
    obtain ⟨k, h⟩ := h
    obtain ⟨k', h'⟩ := h'
    exact ⟨k + k', by rw [h', h, List.append_assoc, List.replicate_append_replicate]⟩

/-- Nothing has been sent. -/
def Client.Quiet (c c' : Client) : Prop := c'.sent = c.sent

instance : IsPreorder Client Client.Quiet where
  refl _ := rfl
  trans _ _ _ h h' := h'.trans h

theorem quiet : Reads Client.Quiet where
  ensure n := by
    refine keeps_ensure fun c c' h => ?_
    cases h <;> rfl
  close _ := rfl
  rb _ _ _ := rfl
  polls _ _ := rfl

theorem Client.Quiet.beats {c c' : Client} (h : c.Quiet c') : c.Beats c' := ⟨0, h.trans (List.append_nil _).symm⟩

/-- The client does not send the command: it is not connected, the command is no line, the connection does not take
the line, or it is an INFO request while packets are streaming. -/
inductive Client.Withholds (c : Client) (cmd : Command) : Prop
  | unconnected (h : c.sock = none)
  | invalid {e : Exn} (h : cmd.wire = .error e)
  | refused {wire : Bytes} (hw : cmd.wire = .ok wire) (h : c.Refuses wire)
  | streaming {level : Text} (hcmd : cmd = Commands.info level) (h : c.streaming = true)

theorem Client.Withholds.congr {cmd : Command} {c c' : Client} (h : c.Withholds cmd) (hsock : c'.sock = c.sock)
    (hst : c'.streaming = c.streaming) : c'.Withholds cmd := by
  cases h with
  | unconnected h => exact .unconnected (hsock.trans h)
  | invalid h => exact .invalid h
  | refused hw h =>
    obtain ⟨sk, detail, hsk, hpeer⟩ := h
    exact .refused hw ⟨sk, detail, hsock.trans hsk, hpeer⟩
  | streaming hcmd h => exact .streaming hcmd (hst.trans h)

/-- The line of the command has been sent, or the client withholds it. -/
def Client.Says (cmd : Command) (c c' : Client) : Prop :=
  c'.sent = c.sent ∧ c.Withholds cmd ∨ ∃ wire, cmd.wire = .ok wire ∧ c'.sent = c.sent ++ [wire]

theorem Client.Says.trans {cmd : Command} {c c₁ c' : Client} (h : c.Says cmd c₁) (h' : c₁.Quiet c') : c.Says cmd c' := by
  unfold Client.Says
  rwa [show c'.sent = c₁.sent from h']

theorem wp_sendCommand_line (cmd : Command) (c : Client) :
    wp (sendCommand cmd) (fun _ c' => ∃ wire, cmd.wire = .ok wire ∧ c'.sent = c.sent ++ [wire]) (fun _ => c.Says cmd) c := by
  have hwithholds : c.Withholds cmd → (∀ wire c', cmd.wire = .ok wire → ¬ c.Sends wire c') →
      wp (sendCommand cmd) (fun _ c' => ∃ wire, cmd.wire = .ok wire ∧ c'.sent = c.sent ++ [wire]) (fun _ => c.Says cmd) c :=
    fun h hno => wp_sendCommand (fun _ => .inl ⟨rfl, h⟩) (fun _ _ _ => .inl ⟨rfl, h⟩) (fun _ _ => .inl ⟨rfl, h⟩)
      fun wire c' hw hs => absurd hs (hno wire c' hw)
  obtain ⟨e, hw⟩ | ⟨wire, hw⟩ : (∃ e, cmd.wire = .error e) ∨ ∃ wire, cmd.wire = .ok wire := by
    cases cmd.wire with
    | error e => exact .inl ⟨e, rfl⟩
    | ok wire => exact .inr ⟨wire, rfl⟩
  · refine hwithholds (.invalid hw) fun wire c' hw' => ?_
    rw [hw] at hw'
    cases hw'
  · cases hsk : c.sock with
    | none =>
      refine hwithholds (.unconnected hsk) fun wire c' _ hs => ?_
      have hsome := hs.connected
      rw [hsk] at hsome
      cases hsome
    | some sk =>
      rcases sends_or_refuses (by rw [hsk]; rfl) wire with ⟨c₁, hs⟩ | h
      · have hsent : c₁.sent = c.sent ++ [wire] := by
          obtain ⟨sk, incoming, -, -, rfl⟩ := hs
          rfl
        have hreply := quiet.reading.awaitReply cmd.parse c₁
        unfold wp at hreply ⊢
        rw [sendCommand_of_sends hw hs]
        cases hrun : awaitReply cmd.parse c₁ with
        | ok r c' =>
          rw [hrun] at hreply
          exact ⟨wire, hw, hsent ▸ hreply⟩
        | error stop c' =>
          rw [hrun] at hreply
          exact .inr ⟨wire, hw, hsent ▸ hreply⟩
      · obtain ⟨e, -, hrun⟩ := sendCommand_of_refuses hw h
        exact (wp_iff_of_error hrun).2 (.inl ⟨rfl, .refused hw h⟩)

/-- What reads behind a command sends nothing more. -/
theorem wp_says_then {α : Type} {cmd : Command} {c : Client} {f : Option SeedLinkResponse → ClientM α}
    (hf : ∀ r, Keeps Client.Quiet (f r)) : wp (sendCommand cmd >>= f) (fun _ => c.Says cmd) (fun _ => c.Says cmd) c := by
  rw [wp_bind]
  refine wp_mono (wp_sendCommand_line cmd c) (fun r c₁ h₁ => ?_) fun _ _ h₁ => h₁
  have h₁ : c.Says cmd c₁ := .inr h₁
  exact wp_mono (hf r c₁) (fun _ _ h => h₁.trans h) fun _ _ h => h₁.trans h

theorem wp_says_scope {α : Type} {cmd : Command} {c : Client} {message : String} {x : ClientM α} (hx : Steady x)
    (h : wp x (fun _ => c.scoped.Says cmd) (fun _ => c.scoped.Says cmd) c.scoped) :
    wp (timeoutScope message x) (fun _ => c.Says cmd) (fun _ => c.Says cmd) c := by
  have hsame : c.scoped.sent = c.sent ∧ c.scoped.sock = c.sock ∧ c.scoped.streaming = c.streaming := by
    unfold Client.scoped
    split <;> exact ⟨rfl, rfl, rfl⟩
  obtain ⟨hscoped, hsock, hst⟩ := hsame
  have hunscoped : ∀ c', c.scoped.Says cmd c' → c.Says cmd c'.unscoped := by
    intro c' h
    have hsent : c'.unscoped.sent = c'.sent := by unfold Client.unscoped; split <;> rfl
    unfold Client.Says at h ⊢
    rw [hscoped] at h
    rw [hsent]
    exact h.imp_left fun h => ⟨h.1, h.2.congr hsock.symm hst.symm⟩
  refine wp_timeoutScope (wp_mono (wp_and h (hx c.scoped)) (fun _ c' h => ?_) fun stop c' h => ?_)
  · exact ⟨h.2.cfg.trans scoped_cfg, hunscoped c' h.1⟩
  · refine ⟨h.2.cfg.trans scoped_cfg, ?_⟩
    split <;> exact hunscoped c' h.1

theorem beats_heartbeat : Keeps Client.Beats (sendCommand (Commands.info "ID".toList)) := by
  have hsays : ∀ c c' : Client, c.Says (Commands.info "ID".toList) c' → c.Beats c' := by
    rintro c c' (⟨h, -⟩ | ⟨wire, hw, h⟩)
    · exact Client.Quiet.beats h
    · obtain rfl : heartbeat = wire := Except.ok.inj (wire_heartbeat.symm.trans hw)
      exact ⟨1, h⟩
  exact fun c => wp_mono (wp_sendCommand_line _ c) (fun _ c' h => hsays c c' (.inr h)) fun _ c' h => hsays c c' h

/-- The places of a generator that does not reconnect. -/
def Collect.Follows (g : Collect) : Prop := g = .finished ∨ ∃ last next, g = .looping last next

/-- A relation that streaming keeps, also on a socket that is shut down. -/
structure Streams (R : Client → Client → Prop) : Prop extends Reading R where
  heartbeat : Keeps R (sendCommand (Commands.info "ID".toList))
  ticks : ∀ (c : Client) ticks, R c { c with ticks }
  ended : ∀ c : Client, R c { c with streaming := false }
  base : ∀ (c : Client) b, R c { c with base := b }
  shutdown : ∀ (c : Client) arriving, R c { c with sock := c.sock.map (Sock.shutdown arriving) }

theorem streams_beats : Streams Client.Beats where
  toReading := Reads.reading
    { ensure := fun n c => wp_mono (quiet.ensure n c) (fun _ _ h => h.beats) fun _ _ h => h.beats
      close := fun c => (quiet.close c).beats
      rb := fun c rb h => (quiet.rb c rb h).beats
      polls := fun c n => (quiet.polls c n).beats }
  heartbeat := beats_heartbeat
  ticks _ _ := Client.Quiet.beats rfl
  ended _ := Client.Quiet.beats rfl
  base _ _ := Client.Quiet.beats rfl
  shutdown _ _ := Client.Quiet.beats rfl

namespace Streams
variable {R : Client → Client → Prop} (h : Streams R) {c : Client} {g : Collect}
include h

theorem enterLoop : Keeps R enterLoop := fun c => wp_enterLoop fun _ _ ticks => h.ticks c ticks

variable [IsPreorder Client R]

theorem closeAndRaise (reconnect : Bool) (e : Exn) (g : Collect) : Keeps R (closeAndRaise reconnect e g) :=
  .bind (.modify h.close) fun _ => .ite (.pure _) (keeps_raise _)

theorem keepalivePass (last : Int) (next : Option Int) : Keeps R (keepalivePass last next) := by
  refine .bind (fun c => h.ticks c _) fun now => .bind .get fun c => ?_
  split
  · refine .ite (.bind ?_ fun _ => .pure _) (.pure _)
    exact keeps_tryExcept (.bind h.heartbeat fun _ => .pure _) fun _ => .modify h.close
  · exact .pure _

variable [Externals]

theorem handleFrame (reconnect : Bool) (last : Int) (next : Option Int) (received : Received) :
    Keeps R (handleFrame reconnect last next received) := by
  cases received with
  | endOfStream => exact .bind (.modify h.ended) fun _ => .pure _
  | reply resp => exact h.closeAndRaise _ _ _
  | packet frame =>
    refine .ite (.bind (keeps_liftExcept _) fun _ => h.closeAndRaise _ _ _) (.ite (.pure _) ?_)
    exact .bind (fun c => h.ticks c _) fun _ => .bind (.modify fun c => h.base c _) fun _ => .pure _

/-- A generator that neither negotiates nor reconnects. -/
theorem collectStep (hg : g = .start ∧ c.streaming = true ∨ g.Follows) :
    wp (collectStep false g) (fun _ => R c) (fun _ => R c) c := by
  rcases hg with ⟨rfl, hst⟩ | rfl | ⟨last, next, rfl⟩
  · simp only [SeedLink.collectStep, wp_bind, wp_get, hst, Bool.not_true, Bool.false_eq_true, if_false, wp_pure]
    exact h.enterLoop c
  · exact refl c
  · have hpass : Keeps R (collectPass false last next) := by
      refine .bind .get fun c => .ite (.pure _) (.bind (fun c => h.ticks c _) fun now => .ite ?_ ?_)
      · exact h.closeAndRaise _ _ _
      · refine .bind (keeps_tryExcept (.map h.awaitFrame) fun e => .map (h.closeAndRaise _ _ _)) fun pass => ?_
        split
        · exact h.keepalivePass last next
        · exact h.handleFrame false last next _
        · exact .pure _
    exact hpass c

end Streams

section follows
variable [Externals] {c : Client} {g : Collect}

theorem wp_collectStep_follows (hg : g = .start ∧ c.streaming = true ∨ g.Follows) :
    wp (collectStep false g) (fun r _ => r.2.Follows) (fun _ _ => True) c := by
  rcases hg with ⟨rfl, hst⟩ | rfl | ⟨last, next, rfl⟩
  · simp only [collectStep, wp_bind, wp_get, hst, Bool.not_true, Bool.false_eq_true, if_false, wp_pure]
    exact wp_enterLoop fun _ _ _ => .inr ⟨_, _, rfl⟩
  · exact .inl rfl
  · have hraise : ∀ (e : Exn) (c' : Client), wp (closeAndRaise false e (.looping last next))
        (fun r _ => r.2.Follows) (fun _ _ => True) c' := fun _ _ => trivial
    refine wp_collectPass (fun _ => .inl rfl) (fun _ _ _ => hraise _ _) fun hsk _ => ?_
    refine wp_mono (streams_beats.toReading.awaitFrame c.ticked) (fun received c' _ => ?_) fun stop c' _ => ?_
    · cases received with
      | none =>
        simp only [keepalivePass, wp_bind, wp_monotonic, wp_get]
        split
        · simp only [wp_ite, wp_bind, wp_pure]
          split
          · exact wp_mono (keeps_tryExcept (R := Client.Beats) (.bind beats_heartbeat fun _ => .pure _)
              (fun _ => .modify streams_beats.close) _) (fun _ _ _ => .inr ⟨_, _, rfl⟩) fun _ _ _ => trivial
          · exact .inr ⟨_, _, rfl⟩
        · exact .inr ⟨_, _, rfl⟩
      | some x =>
        cases x with
        | endOfStream => exact .inl rfl
        | reply resp => exact hraise _ _
        | packet frame =>
          simp only [handleFrame, wp_ite, wp_bind, wp_liftExcept, wp_monotonic, wp_modify, wp_pure]
          split
          · cases jsonErrorMessage frame.payload with
            | ok message => exact hraise _ _
            | error e => trivial
          · split <;> exact .inr ⟨_, _, rfl⟩
    · rcases stop with e | _
      · simp only
        split
        · exact hraise _ _
        · trivial
      · trivial

end follows

namespace Cli

/-! ### Rules -/

def Shell.withClient (s : Shell) (c : Client) : Shell := { s with process := { s.process with client := c } }

@[simp] theorem Shell.client_withClient (s : Shell) (c : Client) : (s.withClient c).client = c := rfl

@[simp] theorem Shell.withClient_client (s : Shell) : s.withClient s.client = s := rfl

/-- The shell once it has reported a failure. -/
def Shell.failed (s : Shell) (message : String) : Shell :=
  { s with errors := s.errors ++ [s!"Error: {message}"], hadError := true }

@[simp] theorem Shell.client_failed (s : Shell) (message : String) : (s.failed message).client = s.client := rfl

section rules
variable {α : Type} {s : Shell} {Q : α → Shell → Prop} {E : Stop → Shell → Prop} {op : Operator} {n : Nat}

theorem wp_onSl (x : ClientM α) : wp (onSl x) Q E s =
    wp x (fun a c => Q a (s.withClient c)) (fun stop c => E stop (s.withClient c)) s.client := by
  unfold wp onSl onProcess onClient Shell.client
  cases x s.process.client <;> rfl

theorem wp_onProcess (x : MainM α) : wp (onProcess x) Q E s =
    wp x (fun a p => Q a { s with process := p }) (fun stop p => E stop { s with process := p }) s.process := by
  unfold wp onProcess
  cases x s.process <;> rfl

theorem wp_fail {Q : Unit → Shell → Prop} (message : String) : wp (fail message) Q E s = Q ⟨⟩ (s.failed message) := rfl

theorem wp_awaiting {P : Shell → Prop} {interrupted : Bool} {x : ClientM α}
    (h : wp x (fun a c => Q a (s.withClient c)) (fun _ c => P (s.withClient c)) s.client) :
    wp (awaiting interrupted x) Q (fun _ => P) s := by
  rw [awaiting, wp_tryCatch, wp_onSl]
  refine wp_mono h (fun _ _ h => h) fun stop c h => ?_
  rcases stop with e | _
  · exact h
  · simp only [wp_ite, wp_throw, ite_self]
    exact h

theorem wp_excepting (x : ShellM α) (caught : Exn → Bool) (handler : Exn → ShellM α) :
    wp (excepting x caught handler) Q E s = wp x Q (fun stop s' => match stop with
      | .raised e => if caught e then wp (handler e) Q E s' else E (.raised e) s'
      | .blocked => E .blocked s') s := by
  rw [excepting, wp_tryCatch]
  congr
  funext stop s'
  rcases stop with e | _
  · simp only [wp_ite, wp_throw]
  · rfl

theorem wp_branch {p : Prop} [Decidable p] {x y : ShellM α} (hx : p → wp x Q E s) (hy : ¬ p → wp y Q E s) :
    wp (if p then x else y) Q E s := by
  split
  · exact hx ‹_›
  · exact hy ‹_›

/-- The call returns, or its error is reported or passed on. -/
theorem wp_attempt {P : Shell → Prop} {Q : Option α → Shell → Prop} {x : ClientM α}
    (h : wp x (fun a c => Q (some a) (s.withClient c)) (fun _ c => P (s.withClient c)) s.client)
    (hfailed : ∀ s' message, P s' → Q none (s'.failed message)) : wp (attempt op n x) Q (fun _ => P) s := by
  rw [attempt, wp_excepting, wp_map]
  refine wp_mono (wp_awaiting h) (fun _ _ h => h) fun stop s' h => ?_
  rcases stop with e | _
  · simp only
    split
    · exact hfailed _ _ h
    · exact h
  · exact h

end rules

/-! ### What is typed and what is sent -/

/-- What a turn depends on. -/
structure Mode where
  protocol : Option Protocol
  sentStation : Bool
  deriving DecidableEq, Repr

def Shell.mode (s : Shell) : Mode := ⟨s.client.protocol, s.sentStation⟩

section requests
variable [Externals]

/-- The command that a typed one stands for, and whether packets are streamed behind it. -/
def Mode.request (dialup : Bool) (mode : Mode) (name arg : Text) : Option (Command × Bool) :=
  if name = "hello".toList then some (hello, false)
  else if name = "slproto".toList then some (slproto (if arg.isEmpty then "4.0".toList else arg), false)
  else if name = "station".toList then
    if arg.isEmpty then none
    else some (if mode.protocol = some .v4 then stationV4 arg else stationV3 arg true, false)
  else if name = "select".toList then
    some (if mode.protocol = some .v4 then selectV4 [] arg else selectV3 [] arg true, false)
  else if name = "data".toList then
    (seqArg arg).bind fun seq =>
      if mode.protocol = some .v4 then (dataV4 [] seq false none none).toOption.map (·, false)
      else some (dataV3 [] "DATA".toList seq none mode.sentStation, !mode.sentStation)
  else if name = "fetch".toList then
    (seqArg arg).map fun seq => (dataV3 [] "FETCH".toList seq none mode.sentStation, !mode.sentStation)
  else if name = "time".toList then
    match Text.splitWord1 arg with
    | [] => none
    | start :: rest => some (timeV3 [] start rest.head? mode.sentStation, !mode.sentStation)
  else if name = "end".toList then some (if mode.protocol = some .v4 then endV4 dialup else endV3, true)
  else if name = "info".toList then some (Commands.info (if arg.isEmpty then "ID".toList else arg), false)
  else if name = "bye".toList then some (Commands.bye, false)
  else none

def Mode.requested (dialup : Bool) (mode : Mode) (typed : Text) : Option (Command × Bool) :=
  (parseline typed).1.bind fun parsed => mode.request dialup parsed.1 parsed.2

/-- The client withholds what is asked for, if anything is. -/
def Forgoes (c : Client) (request : Option (Command × Bool)) : Prop :=
  ∀ cmd streams, request = some (cmd, streams) → c.Withholds cmd

/-- The line of the command, with heartbeats behind it if it streams. There is none only where none is asked for or
the client withholds it. -/
def Owns (c : Client) (request : Option (Command × Bool)) (lines : List Bytes) : Prop :=
  lines = [] ∧ Forgoes c request ∨ ∃ cmd streams wire k, request = some (cmd, streams) ∧ cmd.wire = .ok wire ∧
    lines = wire :: List.replicate k heartbeat ∧ (streams = false → k = 0)

end requests

/-! ### Streaming -/

section streaming
variable {R : Client → Client → Prop} [IsPreorder Client R] {s : Shell} {op : Operator} {fuel : Nat}
  {g : Collect} {press : Option Press}

variable (h : Streams R)
include h

theorem streams_watcher (arriving : List Recv) : R s.client (s.watcher arriving).client := by
  unfold Shell.watcher
  split
  · exact refl _
  · exact h.shutdown _ _

variable [Externals]

theorem wp_watchPass (hg : g = .start ∧ s.client.streaming = true ∨ g.Follows) :
    wp (watchPass press g) (fun r s' => R s.client s'.client ∧ r.2.Follows) (fun _ s' => R s.client s'.client) s := by
  have hwait : ∀ s₁ : Shell, R s.client s₁.client → s₁.client.streaming = s.client.streaming →
      wp (takePacket press s₁.client.base.streams g) (fun r s' => R s.client s'.client ∧ r.2.Follows)
        (fun _ s' => R s.client s'.client) s₁ := by
    intro s₁ h₁ hst
    have hg₁ : g = .start ∧ s₁.client.streaming = true ∨ g.Follows := by rwa [hst]
    rw [takePacket, wp_bind]
    refine wp_awaiting (wp_mono (wp_and (h.collectStep hg₁) (wp_collectStep_follows hg₁))
      (fun r c hc => ?_) fun _ c hc => IsTrans.trans _ _ _ h₁ hc.1)
    have hc' := IsTrans.trans _ _ _ h₁ hc.1
    cases r.1 with
    | none => exact ⟨hc', hc.2⟩
    | some pkt =>
      simp only [wp_bind, wp_onProcess, note, wp_modify, wp_pure]
      split
      · exact ⟨hc', hc.2⟩
      · simp only [wp_bind, wp_get, setStreams, wp_modify, wp_throw]
        exact IsTrans.trans _ _ _ hc' (h.base c _)
  rw [watchPass, wp_bind, wp_modify, wp_bind]
  unfold Press.strike
  split
  · exact hwait _ (streams_watcher h (s := { s with passes := s.passes + 1 }) _) (by unfold Shell.watcher; split <;> rfl)
  · exact refl _
  · exact hwait _ (refl _) rfl

theorem wp_watch : ∀ {fuel : Nat} {g : Collect} {s : Shell}, (g = .start ∧ s.client.streaming = true ∨ g.Follows) →
    wp (watch op fuel g) (fun _ s' => R s.client s'.client) (fun _ s' => R s.client s'.client) s
  | 0, _, s, _ => refl s.client
  | fuel + 1, g, s, hg => by
    simp only [watch, wp_bind, wp_get, wp_ite, wp_pure, wp_throw]
    refine wp_mono (wp_watchPass h hg) (fun r s₁ h₁ => ?_) fun _ _ h₁ => h₁
    split
    · exact h₁.1
    · split
      · exact IsTrans.trans _ _ _ h₁.1 (h.close _)
      · refine wp_mono (wp_watch (.inr h₁.2)) (fun _ _ h' => IsTrans.trans _ _ _ h₁.1 h')
          fun _ _ h' => IsTrans.trans _ _ _ h₁.1 h'

theorem wp_watchPackets (hst : s.client.streaming = true) :
    wp (watchPackets op fuel) (fun _ s' => R s.client s'.client) (fun _ s' => R s.client s'.client) s := by
  simp only [watchPackets, wp_bind, wp_tryCatch, wp_excepting, wp_modify, wp_throw]
  refine wp_mono (wp_watch h (.inl ⟨rfl, hst⟩)) (fun _ _ h' => h') fun stop s' h' => ?_
  rcases stop with e | _
  · simp only [wp_ite, wp_bind, wp_get, wp_pure]
    split
    · split
      · exact h'
      · split
        · exact h'
        · exact h'
    · exact h'
  · exact h'

end streaming

/-! ### A turn -/

section turns
variable {s s₁ s' : Shell} {op : Operator} {n fuel : Nat} {request : Option (Command × Bool)}
  {cmd : Command} {streams : Bool}

/-- What is sent is what the request is for. -/
def Shell.Sends (request : Option (Command × Bool)) (s s' : Shell) : Prop :=
  ∃ lines, s'.client.sent = s.client.sent ++ lines ∧ Owns s.client request lines

theorem Shell.Sends.of_forgoes (hreq : Forgoes s.client request) (h : s'.client.sent = s.client.sent) :
    s.Sends request s' := ⟨[], h.trans (List.append_nil _).symm, .inl ⟨rfl, hreq⟩⟩

/-- Nothing is asked for. -/
theorem Shell.Sends.of_none (hreq : request = none) (h : s'.client.sent = s.client.sent) : s.Sends request s' := by
  refine .of_forgoes (fun cmd streams hsome => ?_) h
  rw [hreq] at hsome
  cases hsome

theorem Shell.Sends.congr (h : s.Sends request s₁) (heq : s'.client.sent = s₁.client.sent) : s.Sends request s' := by
  obtain ⟨lines, hsent, howns⟩ := h
  exact ⟨lines, heq.trans hsent, howns⟩

theorem Shell.Sends.of_line (hreq : request = some (cmd, streams)) (h : s.client.Says cmd s'.client) :
    s.Sends request s' := by
  rcases h with ⟨h, hwithholds⟩ | ⟨wire, hw, h⟩
  · refine .of_forgoes (fun cmd' streams' hsome => ?_) h
    rw [hreq] at hsome
    cases hsome
    exact hwithholds
  · exact ⟨[wire], h, .inr ⟨cmd, streams, wire, 0, hreq, hw, rfl, fun _ => rfl⟩⟩

theorem wp_attempt_sends {α : Type} {x : ClientM α} (hreq : request = some (cmd, streams))
    (hx : wp x (fun _ => s.client.Says cmd) (fun _ => s.client.Says cmd) s.client) :
    wp (attempt op n x) (fun _ => s.Sends request) (fun _ => s.Sends request) s :=
  wp_attempt (wp_mono hx (fun _ _ h => .of_line hreq h) fun _ _ h => .of_line hreq h) fun _ _ h => h.congr rfl

theorem wp_send_sends (hreq : request = some (cmd, streams)) :
    wp (send op n cmd) (fun _ => s.Sends request) (fun _ => s.Sends request) s := by
  rw [send, wp_bind]
  exact wp_mono (wp_attempt_sends hreq (wp_mono (wp_sendCommand_line cmd _) (fun _ _ h => .inr h) fun _ _ h => h))
    (fun _ _ h => h) fun _ _ h => h

theorem wp_doHelloLine_sends (hreq : request = some (hello, streams)) :
    wp (doHelloLine op n) (fun _ => s.Sends request) (fun _ => s.Sends request) s := by
  have hgreet : wp (doHelloWith false) (fun _ => s.client.Says hello) (fun _ => s.client.Says hello) s.client :=
    wp_says_then fun _ => .bind quiet.reading.readLine fun _ => .bind quiet.reading.readLine fun _ =>
      .bind (.modify fun _ => rfl) fun _ => .ite (.bind .get fun _ => .bind (keeps_liftExcept _) fun _ =>
        .modify fun _ => rfl) (.pure _)
  rw [doHelloLine, wp_bind]
  exact wp_mono (wp_attempt_sends hreq hgreet) (fun _ _ h => h) fun _ _ h => h

theorem wp_doSlproto_sends {arg : Text}
    (hreq : request = some (slproto (if arg.isEmpty then "4.0".toList else arg), streams)) :
    wp (doSlproto op n arg) (fun _ => s.Sends request) (fun _ => s.Sends request) s := by
  simp only [doSlproto, wp_bind, wp_ite, wp_onSl, wp_modify, wp_pure]
  refine wp_mono (wp_send_sends hreq) (fun r s' h => ?_) fun _ _ h => h
  split
  · exact h.congr rfl
  · exact h

theorem wp_doStation_sends {arg : Text} (hreq : request = if arg.isEmpty then none
      else some (if s.client.protocol = some .v4 then stationV4 arg else stationV3 arg true, streams)) :
    wp (doStation op n arg) (fun _ => s.Sends request) (fun _ => s.Sends request) s := by
  simp only [doStation, wp_ite, wp_fail, wp_bind, wp_get, wp_modify]
  split
  · rename_i hempty
    rw [if_pos hempty] at hreq
    exact .of_none hreq rfl
  · rename_i hne
    rw [if_neg hne] at hreq
    exact wp_mono (wp_send_sends hreq) (fun _ _ h => h.congr rfl) fun _ _ h => h

theorem wp_doSelect_sends {arg : Text}
    (hreq : request = some (if s.client.protocol = some .v4 then selectV4 [] arg else selectV3 [] arg true, streams)) :
    wp (doSelect op n arg) (fun _ => s.Sends request) (fun _ => s.Sends request) s := by
  simp only [doSelect, wp_bind, wp_get]
  exact wp_mono (wp_send_sends hreq) (fun _ _ h => h) fun _ _ h => h

theorem wp_doBye_sends (hreq : request = some (Commands.bye, streams)) :
    wp (doBye op n) (fun _ => s.Sends request) (fun _ => s.Sends request) s := by
  have hbye : wp SeedLink.bye (fun _ => s.client.Says Commands.bye) (fun _ => s.client.Says Commands.bye) s.client := by
    rw [SeedLink.bye, wp_bind, wp_get, wp_ite]
    split
    · exact wp_says_then fun _ => .pure _
    · rename_i hsk
      exact .inl ⟨rfl, .unconnected (by simpa using hsk)⟩
  rw [doBye, wp_bind]
  exact wp_mono (wp_attempt_sends hreq hbye) (fun _ _ h => h) fun _ _ h => h

/-- Two branches that belong together. -/
theorem wp_ite_sends {p : Prop} [Decidable p] {x y : ShellM Bool} {request₁ request₂ : Option (Command × Bool)}
    (hx : p → wp x (fun _ => s.Sends request₁) (fun _ => s.Sends request₁) s)
    (hy : ¬ p → wp y (fun _ => s.Sends request₂) (fun _ => s.Sends request₂) s) :
    wp (if p then x else y) (fun _ => s.Sends (if p then request₁ else request₂))
      (fun _ => s.Sends (if p then request₁ else request₂)) s := by
  split
  · exact hx ‹_›
  · exact hy ‹_›

/-- A branch that sends nothing, and is asked for nothing. -/
theorem wp_ite_quiet {p : Prop} [Decidable p] {x y : ShellM Bool} (hreq : p → request = none)
    (hx : wp x (fun _ s' => s'.client.sent = s.client.sent) (fun _ s' => s'.client.sent = s.client.sent) s)
    (hy : wp y (fun _ => s.Sends request) (fun _ => s.Sends request) s) :
    wp (if p then x else y) (fun _ => s.Sends request) (fun _ => s.Sends request) s := by
  split
  · exact wp_mono hx (fun _ _ h => .of_none (hreq ‹_›) h) fun _ _ h => .of_none (hreq ‹_›) h
  · exact hy

variable [Externals]

theorem wp_finishHandshake_sends (hreq : request = some (cmd, true)) :
    wp (finishHandshake op n fuel cmd) (fun _ => s.Sends request) (fun _ => s.Sends request) s := by
  rw [finishHandshake, wp_bind]
  refine wp_attempt (wp_mono (wp_sendCommand_line cmd _) (fun r c h => ?_) fun _ c h => .of_line hreq h) fun s' message h => ?_
  · obtain ⟨wire, hw, hsent⟩ := h
    simp only [Option.isSome_some, if_true, wp_bind, wp_modify]
    have hbeats : ∀ s' : Shell, c.Beats s'.client → s.Sends request s' := by
      rintro s' ⟨k, hk⟩
      refine ⟨wire :: List.replicate k heartbeat, ?_, .inr ⟨cmd, true, wire, k, hreq, hw, rfl, nofun⟩⟩
      rw [hk, hsent, List.append_assoc]
      rfl
    exact wp_mono (wp_watchPackets streams_beats rfl) (fun _ s' h => hbeats s' h) fun _ s' h => hbeats s' h
  · exact Shell.Sends.congr h rfl

theorem wp_doInfo_sends {arg : Text}
    (hreq : request = some (Commands.info (if arg.isEmpty then "ID".toList else arg), streams)) :
    wp (doInfo op n arg) (fun _ => s.Sends request) (fun _ => s.Sends request) s := by
  have hinfo : ∀ (level : Text) (c : Client), wp (infoDict level) (fun _ => c.Says (Commands.info level))
      (fun _ => c.Says (Commands.info level)) c := by
    intro level c
    have hask : Steady (do
        let _ ← sendCommand (Commands.info level)
        let c ← get
        infoLoop (c.bytesAhead + 1) []) :=
      .bind (steady.sendCommand _) fun _ => .bind .get fun c => steady.reading.infoLoop _ _
    have htext : wp (Client.info level) (fun _ => c.Says (Commands.info level)) (fun _ => c.Says (Commands.info level)) c := by
      rw [Client.info, wp_bind, wp_get, wp_ite, wp_raise]
      split
      · exact .inl ⟨rfl, .streaming rfl ‹_›⟩
      · exact wp_says_scope hask (wp_says_then fun _ => .bind .get fun c => quiet.reading.infoLoop _ _)
    rw [infoDict, wp_bind]
    refine wp_mono htext (fun text c' h => ?_) fun _ _ h => h
    simp only [wp_bind, wp_get, wp_ite]
    split
    · cases loadsJson text <;> exact h
    · cases parseInfoXml text <;> exact h
  rw [doInfo, wp_bind]
  exact wp_mono (wp_attempt_sends hreq (hinfo _ _)) (fun _ _ h => h) fun _ _ h => h

/-- With a station the command is acknowledged; without one it ends the handshake. -/
theorem wp_uniStation_sends (command : Bool → Command)
    (hreq : request = some (command s.sentStation, !s.sentStation)) :
    wp (if s.sentStation then do let _ ← send op n (command true) else finishHandshake op n fuel (command false))
      (fun _ => s.Sends request) (fun _ => s.Sends request) s := by
  cases hst : s.sentStation with
  | true =>
    rw [if_pos rfl, wp_bind]
    exact wp_mono (wp_send_sends (hreq.trans (by rw [hst]))) (fun _ _ h => h) fun _ _ h => h
  | false =>
    rw [if_neg Bool.false_ne_true]
    exact wp_finishHandshake_sends (hreq.trans (by rw [hst]; rfl))

theorem wp_doData_sends {arg : Text} (hreq : request = (seqArg arg).bind fun seq =>
      if s.client.protocol = some .v4 then (dataV4 [] seq false none none).toOption.map (·, false)
      else some (dataV3 [] "DATA".toList seq none s.sentStation, !s.sentStation)) :
    wp (doData op n fuel arg) (fun _ => s.Sends request) (fun _ => s.Sends request) s := by
  unfold doData
  cases hseq : seqArg arg with
  | none =>
    rw [hseq] at hreq
    exact .of_none hreq rfl
  | some seq =>
    rw [hseq, Option.bind_some] at hreq
    simp only [wp_bind, wp_get]
    by_cases hp : s.client.protocol = some .v4
    · rw [if_pos hp] at hreq ⊢
      rw [wp_bind]
      cases hcmd : dataV4 [] seq false none none with
      | error e =>
        rw [hcmd] at hreq
        exact .of_none hreq rfl
      | ok cmd =>
        rw [hcmd] at hreq
        simp only [liftShell, wp_pure, wp_bind]
        exact wp_mono (wp_send_sends hreq) (fun _ _ h => h) fun _ _ h => h
    · rw [if_neg hp] at hreq ⊢
      exact wp_uniStation_sends (dataV3 [] "DATA".toList seq none) hreq

theorem wp_doFetch_sends {arg : Text} (hreq : request = (seqArg arg).map fun seq =>
      (dataV3 [] "FETCH".toList seq none s.sentStation, !s.sentStation)) :
    wp (doFetch op n fuel arg) (fun _ => s.Sends request) (fun _ => s.Sends request) s := by
  unfold doFetch
  cases hseq : seqArg arg with
  | none =>
    rw [hseq] at hreq
    exact .of_none hreq rfl
  | some seq =>
    rw [hseq, Option.map_some] at hreq
    simp only [wp_bind, wp_get]
    exact wp_uniStation_sends (dataV3 [] "FETCH".toList seq none) hreq

theorem wp_doTime_sends {arg : Text} (hreq : request = match Text.splitWord1 arg with
      | [] => none
      | start :: rest => some (timeV3 [] start rest.head? s.sentStation, !s.sentStation)) :
    wp (doTime op n fuel arg) (fun _ => s.Sends request) (fun _ => s.Sends request) s := by
  unfold doTime
  cases hwords : Text.splitWord1 arg with
  | nil =>
    rw [hwords] at hreq
    exact .of_none hreq rfl
  | cons start rest =>
    rw [hwords] at hreq
    simp only [wp_bind, wp_get]
    exact wp_uniStation_sends (timeV3 [] start rest.head?) hreq

theorem wp_doEnd_sends
    (hreq : request = some (if s.client.protocol = some .v4 then endV4 s.client.cfg.dialup else endV3, true)) :
    wp (doEnd op n fuel) (fun _ => s.Sends request) (fun _ => s.Sends request) s := by
  simp only [doEnd, wp_bind, wp_get]
  exact wp_finishHandshake_sends hreq

theorem wp_dispatch_sends {name arg line : Text} :
    wp (dispatch op n fuel name arg line) (fun _ => s.Sends (s.mode.request s.client.cfg.dialup name arg))
      (fun _ => s.Sends (s.mode.request s.client.cfg.dialup name arg)) s := by
  have hthen : ∀ {x : ShellM Unit} {stop : Bool} {request : Option (Command × Bool)},
      wp x (fun _ => s.Sends request) (fun _ => s.Sends request) s →
      wp (do x; return stop) (fun _ => s.Sends request) (fun _ => s.Sends request) s := by
    intro x stop request h
    rw [wp_bind]
    exact wp_mono h (fun _ _ h => h) fun _ _ h => h
  unfold dispatch Mode.request
  refine wp_ite_sends (fun _ => hthen (wp_doHelloLine_sends rfl)) fun _ => ?_
  refine wp_ite_sends (fun _ => hthen (wp_doSlproto_sends rfl)) fun _ => ?_
  refine wp_ite_sends (fun _ => hthen (wp_doStation_sends rfl)) fun _ => ?_
  refine wp_ite_sends (fun _ => hthen (wp_doSelect_sends rfl)) fun _ => ?_
  refine wp_ite_sends (fun _ => hthen (wp_doData_sends rfl)) fun _ => ?_
  refine wp_ite_sends (fun _ => hthen (wp_doFetch_sends rfl)) fun _ => ?_
  refine wp_ite_sends (fun _ => hthen (wp_doTime_sends rfl)) fun _ => ?_
  refine wp_ite_sends (fun _ => hthen (wp_doEnd_sends rfl)) fun _ => ?_
  refine wp_ite_quiet ?_ ?_ (wp_ite_quiet ?_ ?_ ?_)
  · rintro rfl
    rfl
  · simp only [doDetails, wp_bind, wp_ite, wp_pure]
    split
    · trivial
    · cases Text.intBase10 arg with
      | none => rfl
      | some level =>
        simp only [wp_ite, wp_modify, wp_fail]
        split <;> rfl
  · rintro rfl
    rfl
  · simp only [doSamples, wp_bind, wp_ite, wp_pure, wp_modify, wp_fail]
    split
    · trivial
    · split <;> rfl
  refine wp_ite_sends (fun _ => hthen (wp_doInfo_sends rfl)) fun _ => ?_
  refine wp_ite_quiet ?_ rfl (wp_ite_sends (fun _ => hthen (wp_doBye_sends rfl)) fun _ =>
    wp_ite_quiet (fun _ => rfl) rfl (.of_none rfl rfl))
  rintro rfl
  rfl

/-- A turn sends what is typed. -/
theorem wp_onecmd_sends {typed : Text} :
    wp (onecmd op n fuel typed) (fun _ => s.Sends (s.mode.requested s.client.cfg.dialup typed))
      (fun _ => s.Sends (s.mode.requested s.client.cfg.dialup typed)) s := by
  rw [onecmd, wp_bind, wp_modify]
  unfold Mode.requested
  rcases parseline typed with ⟨_ | ⟨name, arg⟩, line⟩
  · simp only [wp_ite, wp_bind, wp_pure, unknownCommand, wp_fail]
    split <;> exact .of_none rfl rfl
  · exact wp_mono (wp_dispatch_sends (s := { s with hadError := false })) (fun _ _ h => h) fun _ _ h => h

/-- Also when it raises. -/
theorem wp_turn_sends : wp (turn op n fuel)
    (fun _ => s.Sends ((op.text n).bind (s.mode.requested s.client.cfg.dialup)))
    (fun _ => s.Sends ((op.text n).bind (s.mode.requested s.client.cfg.dialup))) s := by
  unfold turn readTyped
  rw [wp_bind]
  cases op.text n with
  | none => exact .of_none rfl rfl
  | some typed =>
    rw [wp_pure, wp_bind]
    exact wp_mono wp_onecmd_sends (fun _ _ h => h) fun _ _ h => h

end turns

/-! ### What every turn keeps -/

/-- The calls of the client that the shell makes one at a time. -/
inductive Calls [Externals] : {α : Type} → ClientM α → Prop
  | command (cmd : Command) : Calls (sendCommand cmd)
  | greet : Calls (doHelloWith false)
  | inform (level : Text) : Calls (infoDict level)
  | leave : Calls SeedLink.bye

section keeping
variable [Externals] {P F : Shell → Prop} {op : Operator} {n fuel : Nat}

/-- What the calls of a turn keep; `F` is what holds when a turn raises. -/
structure TurnKeeps (op : Operator) (n fuel : Nat) (P F : Shell → Prop) : Prop where
  raised : ∀ s, P s → F s
  shell : ∀ s s' : Shell, s'.process = s.process → s'.sentStation = s.sentStation → s'.passes = s.passes → P s → P s'
  call : ∀ {α : Type} {x : ClientM α}, Calls x → ∀ s, P s →
    wp x (fun _ c => P (s.withClient c)) (fun _ c => P (s.withClient c)) s.client
  finish : ∀ cmd s, P s → wp (finishHandshake op n fuel cmd) (fun _ => P) (fun _ => F) s

namespace TurnKeeps
variable (h : TurnKeeps op n fuel P F) {s : Shell}
include h

theorem attempt {α : Type} {x : ClientM α} (hx : Calls x) (hs : P s) :
    wp (attempt op n x) (fun _ => P) (fun _ => F) s :=
  wp_mono (wp_attempt (P := P) (h.call hx s hs) fun s' message h' => h.shell s' (s'.failed message) rfl rfl rfl h')
    (fun _ _ h' => h') fun _ _ h' => h.raised _ h'

theorem send (cmd : Command) (hs : P s) : wp (send op n cmd) (fun _ => P) (fun _ => F) s := by
  rw [Cli.send, wp_bind]
  exact wp_mono (h.attempt (.command cmd) hs) (fun _ _ h' => h') fun _ _ h' => h'

theorem uniStation (command : Bool → Command) (hs : P s) :
    wp (if s.sentStation then do let _ ← Cli.send op n (command true) else finishHandshake op n fuel (command false))
      (fun _ => P) (fun _ => F) s := by
  split
  · rw [wp_bind]
    exact wp_mono (h.send _ hs) (fun _ _ h' => h') fun _ _ h' => h'
  · exact h.finish _ s hs

theorem doData (arg : Text) (hs : P s) : wp (doData op n fuel arg) (fun _ => P) (fun _ => F) s := by
  unfold Cli.doData
  cases seqArg arg with
  | none => exact h.shell s _ rfl rfl rfl hs
  | some seq =>
    simp only [wp_bind, wp_get]
    split
    · rw [wp_bind]
      cases dataV4 [] seq false none none with
      | error e => exact h.raised _ hs
      | ok cmd =>
        simp only [liftShell, wp_pure, wp_bind]
        exact wp_mono (h.send cmd hs) (fun _ _ h' => h') fun _ _ h' => h'
    · exact h.uniStation (dataV3 [] "DATA".toList seq none) hs

theorem doFetch (arg : Text) (hs : P s) : wp (doFetch op n fuel arg) (fun _ => P) (fun _ => F) s := by
  unfold Cli.doFetch
  cases seqArg arg with
  | none => exact h.shell s _ rfl rfl rfl hs
  | some seq =>
    simp only [wp_bind, wp_get]
    exact h.uniStation (dataV3 [] "FETCH".toList seq none) hs

theorem doTime (arg : Text) (hs : P s) : wp (doTime op n fuel arg) (fun _ => P) (fun _ => F) s := by
  unfold Cli.doTime
  cases Text.splitWord1 arg with
  | nil => exact h.shell s _ rfl rfl rfl hs
  | cons start rest =>
    simp only [wp_bind, wp_get]
    exact h.uniStation (timeV3 [] start rest.head?) hs

/-- A new protocol and a first station must do no harm where they can occur. -/
theorem dispatch {name arg line : Text} (hs : P s)
    (hproto : name = "slproto".toList → ∀ s p, P s → P (s.withClient { s.client with protocol := some p }))
    (hstation : name = "station".toList → arg.isEmpty = false → ∀ s : Shell, P s → P { s with sentStation := true }) :
    wp (dispatch op n fuel name arg line) (fun _ => P) (fun _ => F) s := by
  have hthen : ∀ {x : ShellM Unit} {stop : Bool}, wp x (fun _ => P) (fun _ => F) s →
      wp (do x; return stop) (fun _ => P) (fun _ => F) s := by
    intro x stop hx
    rw [wp_bind]
    exact wp_mono hx (fun _ _ h' => h') fun _ _ h' => h'
  have hcall : ∀ {α : Type} {x : ClientM α}, Calls x →
      wp (do let _ ← Cli.attempt op n x) (fun _ => P) (fun _ => F) s := by
    intro α x hx
    rw [wp_bind]
    exact wp_mono (h.attempt hx hs) (fun _ _ h' => h') fun _ _ h' => h'
  unfold Cli.dispatch
  refine wp_branch (fun _ => hthen (hcall .greet)) fun _ => ?_
  refine wp_branch (fun hname => hthen ?_) fun _ => ?_
  · simp only [doSlproto, wp_bind, wp_ite, wp_onSl, wp_modify, wp_pure]
    refine wp_mono (h.send _ hs) (fun r s' h' => ?_) fun _ _ h' => h'
    split
    · exact hproto hname s' _ h'
    · exact h'
  refine wp_branch (fun hname => hthen ?_) fun _ => ?_
  · simp only [doStation, wp_ite, wp_fail, wp_bind, wp_get, wp_modify]
    split
    · exact h.shell s _ rfl rfl rfl hs
    · rename_i hne
      exact wp_mono (h.send _ hs) (fun _ s' h' => hstation hname (Bool.eq_false_of_not_eq_true hne) s' h') fun _ _ h' => h'
  refine wp_branch (fun _ => hthen ?_) fun _ => ?_
  · simp only [doSelect, wp_bind, wp_get]
    exact wp_mono (h.send _ hs) (fun _ _ h' => h') fun _ _ h' => h'
  refine wp_branch (fun _ => hthen (h.doData arg hs)) fun _ => ?_
  refine wp_branch (fun _ => hthen (h.doFetch arg hs)) fun _ => ?_
  refine wp_branch (fun _ => hthen (h.doTime arg hs)) fun _ => ?_
  refine wp_branch (fun _ => hthen ?_) fun _ => ?_
  · simp only [doEnd, wp_bind, wp_get]
    exact h.finish _ s hs
  refine wp_branch (fun _ => hthen ?_) fun _ => ?_
  · simp only [doDetails, wp_ite, wp_pure]
    split
    · exact hs
    · cases Text.intBase10 arg with
      | none => exact h.shell s _ rfl rfl rfl hs
      | some level =>
        simp only [wp_ite, wp_modify, wp_fail]
        split <;> exact h.shell s _ rfl rfl rfl hs
  refine wp_branch (fun _ => hthen ?_) fun _ => ?_
  · simp only [doSamples, wp_ite, wp_pure, wp_modify, wp_fail]
    split
    · exact hs
    · split <;> exact h.shell s _ rfl rfl rfl hs
  refine wp_branch (fun _ => hthen (hcall (.inform _))) fun _ => ?_
  refine wp_branch (fun _ => hs) fun _ => ?_
  refine wp_branch (fun _ => hthen (hcall .leave)) fun _ => ?_
  exact wp_branch (fun _ => hs) fun _ => h.shell s _ rfl rfl rfl hs

theorem turn (hs : P s) (hproto : ∀ typed arg, op.text n = some typed →
      (parseline typed).1 = some ("slproto".toList, arg) →
        ∀ s p, P s → P (s.withClient { s.client with protocol := some p }))
    (hstation : ∀ typed arg, op.text n = some typed → (parseline typed).1 = some ("station".toList, arg) →
      arg.isEmpty = false → ∀ s : Shell, P s → P { s with sentStation := true }) :
    wp (turn op n fuel) (fun _ => P) (fun _ => F) s := by
  unfold Cli.turn readTyped
  rw [wp_bind]
  cases htext : op.text n with
  | none => exact h.raised _ hs
  | some typed =>
    have hs' : P { s with hadError := false } := h.shell s _ rfl rfl rfl hs
    rw [wp_pure, wp_bind, onecmd, wp_bind, wp_modify]
    rcases hparsed : parseline typed with ⟨_ | ⟨name, arg⟩, line⟩
    · simp only [wp_ite, wp_bind, wp_pure, unknownCommand, wp_fail, postcmd, wp_get]
      split
      · exact hs'
      · exact h.shell { s with hadError := false } _ rfl rfl rfl hs'
    · refine wp_mono (h.dispatch hs' (fun hname => hproto typed arg htext (by rw [hparsed, hname]))
        fun hname => hstation typed arg htext (by rw [hparsed, hname])) (fun _ _ h' => h') fun _ _ h' => h'

end TurnKeeps

end keeping

end Cli

end SeedLink
