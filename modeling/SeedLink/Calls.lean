import SeedLink.Negotiation
import SeedLink.Steady

/-!
# Between the calls

`close` may happen deep inside a read, a line scan or a send, and the flags are set by the callers after
these return. A call that returns from there still has its connection, and one that raises leaves a client
that is connected or at rest (`OnConnection`). So a client without a connection is at rest whatever it was
called for and however the calls ended (`Client.Reachable.rested`).
-/

namespace SeedLink

open StateExc Client

/-! ### At rest -/

def Client.Connected (c : Client) : Prop := c.sock.isSome = true

/-- Without a connection a client neither streams nor is in batch mode, and its buffer is as `close` leaves
it. -/
def Client.Rested (c : Client) : Prop :=
  c.sock = none → c.streaming = false ∧ c.batchActive = false ∧ c.rb = c.rb.reset

theorem RecvBuf.reset_reset (rb : RecvBuf) : rb.reset.reset = rb.reset := by
  by_cases h : rb.buf.size > recvBufSize <;> simp [reset, h]

section rested
variable {c c' : Client}

theorem Client.Connected.rested (h : c.Connected) : c.Rested := by
  intro hsk
  rw [Client.Connected, hsk] at h
  cases h

theorem rested_closed (c : Client) : c.closed.Rested := fun _ => ⟨rfl, rfl, c.rb.reset_reset.symm⟩

theorem Client.Rested.congr (h : c.Rested) (hsock : c'.sock = c.sock) (hstream : c'.streaming = c.streaming)
    (hbatch : c'.batchActive = c.batchActive) (hrb : c'.rb = c.rb) : c'.Rested := by
  unfold Client.Rested
  rw [hsock, hstream, hbatch, hrb]
  exact h

theorem Client.Rested.inScope (h : c.Rested) (inScope : Bool) : ({ c with inScope } : Client).Rested :=
  h.congr rfl rfl rfl rfl

end rested

/-- On a connection, `x` returns with the connection, or raises and leaves the client connected or at rest. -/
def OnConnection {α : Type} (x : ClientM α) : Prop := Leads Client.Connected Client.Connected Client.Rested x

/-- Whatever becomes of the connection, `x` leaves a client that was at rest at rest. -/
def Rests {α : Type} (x : ClientM α) : Prop := Leads Client.Rested Client.Rested Client.Rested x

namespace OnConnection
variable {α β : Type} {x : ClientM α}

theorem pure (a : α) : OnConnection (Pure.pure a) := Leads.pure (fun _ h => h) a

theorem throw (stop : Stop) : OnConnection (throw stop : ClientM α) := Leads.throw (fun _ h => h.rested) stop

theorem raise (e : Exn) : OnConnection (raise e : ClientM α) := throw _

theorem liftExcept (x : Except Exn α) : OnConnection (liftExcept x) := by
  cases x with
  | ok a => exact pure a
  | error e => exact raise e

theorem modify {f : Client → Client} (hf : ∀ c, (f c).sock = c.sock) : OnConnection (modify f : ClientM PUnit) :=
  Leads.modify fun c h => by rwa [Client.Connected, hf c]

theorem bind {f : α → ClientM β} (hx : OnConnection x) (hf : ∀ a, OnConnection (f a)) : OnConnection (x >>= f) :=
  Leads.bind hx hf

theorem get_bind {f : Client → ClientM α} (hf : ∀ c, OnConnection (f c)) : OnConnection (get >>= f) :=
  Leads.get_bind fun c h => hf c c h

theorem ite {p : Prop} [Decidable p] {y : ClientM α} (hx : OnConnection x) (hy : OnConnection y) :
    OnConnection (if p then x else y) := Leads.ite hx hy

/-- What is closed and then raises. -/
theorem close_raise (e : Exn) : OnConnection (do SeedLink.close; SeedLink.raise e : ClientM α) :=
  fun c _ => rested_closed c

end OnConnection

/-! ### Reading -/

theorem onConnection_ensure (n : Nat) : OnConnection (ensure n) := by
  intro c hc
  obtain ⟨sk, hsk⟩ := Option.isSome_iff_exists.1 hc
  unfold wp ensure
  rw [hsk]
  rcases c.rb.prepareRoom n with ⟨_ | _, rb⟩
  · simp only
    rcases fillLoop c.deadline n sk.incoming rb with ⟨stop, rb', incoming⟩
    have hconn : ({ c with rb := rb', sock := some { sk with incoming } } : Client).Connected := rfl
    cases stop with
    | filled => exact hconn
    | blocked => exact hconn.rested
    | oserror | eof => exact rested_closed _
    | timeout =>
      simp only [onTimeout]
      split_ifs
      · exact hconn.rested
      · exact rested_closed _
      · exact hconn.rested
  · show ({ c with rb, sock := some sk } : Client).Connected
    rfl

theorem onConnection_buffered (i j : Nat) : OnConnection (buffered i j) := .get_bind fun _ => .pure _

theorem onConnection_consume (n : Nat) : OnConnection (consume n) := .modify fun _ => rfl

theorem onConnection_peek (n : Nat) : OnConnection (peek n) :=
  .bind (onConnection_ensure n) fun _ => onConnection_buffered 0 n

theorem onConnection_take (n : Nat) : OnConnection (take n) :=
  .bind (onConnection_ensure n) fun _ => .bind (onConnection_buffered 0 n) fun _ =>
    .bind (onConnection_consume n) fun _ => .pure _

theorem onConnection_readLineLoop : ∀ fuel searchFrom, OnConnection (readLineLoop fuel searchFrom)
  | 0, _ => .throw _
  | fuel + 1, searchFrom => by
    refine .get_bind fun c => ?_
    cases scanLine c.rb.buf c.rb.start c.rb.stop searchFrom with
    | error e => exact .close_raise e
    | ok found =>
      cases found with
      | none => exact .bind (onConnection_ensure _) fun _ => onConnection_readLineLoop fuel _
      | some found => exact .bind (.modify fun _ => rfl) fun _ => .pure _

theorem onConnection_readLine : OnConnection readLine := onConnection_readLineLoop _ _

theorem onConnection_unexpectedData : OnConnection unexpectedData :=
  .bind (onConnection_buffered 0 2) fun _ => .raise _

theorem onConnection_classifyNext : OnConnection classifyNext := by
  refine .bind (onConnection_ensure 2) fun _ => .get_bind fun c => .ite (.pure _) (.ite ?_ onConnection_unexpectedData)
  refine .bind (onConnection_peek 3) fun three => .ite (.pure _) (.ite ?_ (.ite (.pure _) onConnection_unexpectedData))
  exact .bind (onConnection_peek 5) fun five => .ite (.pure _) onConnection_unexpectedData

theorem onConnection_recvFrameV4 : OnConnection recvFrameV4 :=
  .bind (onConnection_ensure _) fun _ => .bind (onConnection_buffered _ _) fun _ => .bind (.liftExcept _) fun _ =>
    .bind (onConnection_ensure _) fun _ => .get_bind fun _ => .bind (.liftExcept _) fun _ =>
      .bind (onConnection_consume _) fun _ => .pure _

section frames
variable [Pymseed]

theorem onConnection_readMseedPayloadLoop : ∀ fuel size, OnConnection (readMseedPayloadLoop fuel size)
  | 0, _ => .throw _
  | fuel + 1, size => by
    refine .bind (onConnection_peek size) fun start => ?_
    cases detectRecordLength start with
    | error e => exact .raise e
    | ok found =>
      cases found with
      | some reclen => exact onConnection_take reclen
      | none => exact .ite (.raise _) (onConnection_readMseedPayloadLoop fuel _)

theorem onConnection_recvFrameV3 : OnConnection recvFrameV3 :=
  .bind (onConnection_take _) fun _ => .bind (.liftExcept _) fun _ =>
    .bind (onConnection_readMseedPayloadLoop _ _) fun _ => .liftExcept _

theorem onConnection_recvEvent (ev : StreamEvent) : OnConnection (recvEvent ev) := by
  have hpacket : OnConnection (do
      let c ← get
      let frame ← if c.protocol = some .v4 then recvFrameV4 else recvFrameV3
      return Received.packet frame) :=
    .get_bind fun c => .ite (.bind onConnection_recvFrameV4 fun _ => .pure _)
      (.bind onConnection_recvFrameV3 fun _ => .pure _)
  cases ev with
  | endOfStream => exact .bind (onConnection_take 3) fun _ => .pure _
  | error => exact .bind onConnection_readLine fun _ => .pure _
  | packet | other => exact hpacket

theorem onConnection_recvFrame : OnConnection recvFrame :=
  .bind onConnection_classifyNext fun ev => .bind (onConnection_recvEvent ev) fun _ =>
    .bind (.modify fun _ => rfl) fun _ => .pure _

end frames

theorem onConnection_pollReadable : OnConnection pollReadable := by
  refine Leads.get_bind fun c hc => ?_
  have hpolled : ({ c with polls := c.polls + 1 } : Client).Connected := hc
  simp only [wp_ite, wp_pure, wp_bind, wp_set]
  split_ifs
  · exact hc
  · exact hpolled
  · exact hpolled
  · exact wp_mono (onConnection_ensure 1 _ hpolled) (fun _ _ h => h) fun _ _ h => h

theorem onConnection_awaitFrame [Externals] : OnConnection awaitFrame :=
  .bind onConnection_pollReadable fun _ => .ite (.bind onConnection_recvFrame fun _ => .pure _) (.pure _)

/-! ### Sending -/

theorem onConnection_awaitReply (parser : Option ReplyParser) : OnConnection (awaitReply parser) := by
  cases parser with
  | none => exact .pure _
  | some parser => exact .bind onConnection_readLine fun line => .bind (.liftExcept _) fun _ => .pure _

/-- Sending needs a connection, and leaves one when it returns. -/
theorem leads_sendCommand (cmd : Command) :
    Leads Client.Rested Client.Connected Client.Rested (sendCommand cmd) := fun c hc =>
  wp_sendCommand (fun _ => hc) (fun _ _ hsome => Client.Connected.rested hsome) (fun _ _ => rested_closed c)
    fun _ c' _ hs => onConnection_awaitReply cmd.parse c' hs.isSome

theorem onConnection_sendCommand (cmd : Command) : OnConnection (sendCommand cmd) :=
  (leads_sendCommand cmd).mono (fun _ h => h.rested) (fun _ h => h) fun _ h => h

theorem onConnection_doHello : OnConnection doHello :=
  .bind (onConnection_sendCommand _) fun _ => .bind onConnection_readLine fun _ =>
    .bind onConnection_readLine fun _ => .bind (.modify fun _ => rfl) fun _ => .get_bind fun _ =>
      .bind (.liftExcept _) fun _ => .modify fun _ => rfl

theorem onConnection_sendHandshake : ∀ commands, OnConnection (sendHandshake commands)
  | [] => .pure _
  | cmd :: rest => .bind (onConnection_sendCommand cmd) fun _ =>
    .ite (.bind (.modify fun _ => rfl) fun _ => onConnection_sendHandshake rest) (onConnection_sendHandshake rest)

/-- A handler that closes and raises. -/
theorem OnConnection.closing {α : Type} {x : ClientM α} {caught : Exn → Bool} (hx : OnConnection x) :
    OnConnection (tryExcept x caught fun e => do close; SeedLink.raise e) := by
  refine Leads.tryCatch hx fun stop => ?_
  cases stop with
  | raised e => exact .ite (fun c _ => rested_closed c) (.throw (fun _ h => h) _)
  | blocked => exact .throw (fun _ h => h) _

theorem onConnection_doHandshake : OnConnection doHandshake :=
  .closing <| .bind onConnection_doHello fun _ => .get_bind fun _ => .bind (.liftExcept _) fun commands =>
    onConnection_sendHandshake commands

theorem onConnection_sendPlan : ∀ plan walk, OnConnection (sendPlan plan walk)
  | [], _ => .pure _
  | cmd :: rest, walk => by
    unfold sendPlan
    exact .ite (.bind (onConnection_sendCommand cmd) fun _ => onConnection_sendPlan rest _)
      (onConnection_sendPlan rest _)

/-- A walk sends its first command, whatever it is. -/
theorem leads_sendPlan {plan : List Command} (hne : plan ≠ []) :
    Leads Client.Rested Client.Connected Client.Rested (sendPlan plan {}) := by
  cases plan with
  | nil => exact absurd rfl hne
  | cons cmd rest =>
    have hsend : (NegotiationWalk.shouldSend cmd {}).1 = true := by
      unfold NegotiationWalk.shouldSend
      split <;> rfl
    unfold sendPlan
    simp only [hsend, if_true]
    exact .bind (leads_sendCommand cmd) fun _ => onConnection_sendPlan rest _

/-! ### Scopes -/

theorem leads_timeoutScope {α : Type} {P Q : Client → Prop} {message : String} {x : ClientM α}
    (hP : ∀ c inScope, P c → P { c with inScope }) (hQ : ∀ c inScope, Q c → Q { c with inScope })
    (hx : Leads P Q Client.Rested x) : Leads P Q Client.Rested (timeoutScope message x) := by
  refine Leads.get_bind fun c hc => ?_
  rw [wp_ite]
  split
  · exact hx c hc
  · simp only [wp_bind, wp_modify, wp_tryCatch, wp_ite, wp_close, wp_raise, wp_throw, wp_pure]
    refine wp_mono (hx _ (hP c _ hc)) (fun _ c' h => hQ c' _ h) fun stop c' h => ?_
    split
    · exact rested_closed _
    · exact h.inScope _

theorem leads_connectSocket : Leads Client.Rested Client.Connected Client.Rested connectSocket := fun _ hc =>
  wp_connectSocket (fun _ => hc) (fun _ _ _ => rfl) fun _ _ _ _ => hc.congr rfl rfl rfl rfl

theorem leads_connect (handshake : Bool) :
    Leads Client.Rested Client.Connected Client.Rested (connect handshake) :=
  Leads.get_bind fun c hc => leads_timeoutScope (fun _ s h => h.inScope s) (fun _ _ h => h)
    (.bind leads_connectSocket fun _ => .ite onConnection_doHandshake (OnConnection.pure _)) c hc

/-! ### The calls -/

namespace Rests
variable {α β : Type} {x : ClientM α}

theorem of_leads (h : Leads Client.Rested Client.Connected Client.Rested x) : Rests x :=
  h.mono (fun _ h => h) (fun _ h => h.rested) fun _ h => h

theorem pure (a : α) : Rests (Pure.pure a) := Leads.pure (fun _ h => h) a

theorem raise (e : Exn) : Rests (raise e : ClientM α) := Leads.throw (fun _ h => h) _

theorem liftExcept (y : Except Exn α) : Rests (liftExcept y) := by
  cases y with
  | ok a => exact pure a
  | error e => exact raise e

theorem close : Rests close := Leads.modify fun c _ => rested_closed c

theorem modify {f : Client → Client} (hf : ∀ c, c.Rested → (f c).Rested) : Rests (modify f : ClientM PUnit) :=
  Leads.modify hf

theorem bind {f : α → ClientM β} (hx : Rests x) (hf : ∀ a, Rests (f a)) : Rests (x >>= f) := Leads.bind hx hf

theorem get_bind {f : Client → ClientM α} (hf : ∀ c, Rests (f c)) : Rests (get >>= f) :=
  Leads.get_bind fun c h => hf c c h

theorem ite {p : Prop} [Decidable p] {y : ClientM α} (hx : Rests x) (hy : Rests y) : Rests (if p then x else y) :=
  Leads.ite hx hy

theorem tryExcept {caught : Exn → Bool} {handler : Exn → ClientM α} (hx : Rests x) (hh : ∀ e, Rests (handler e)) :
    Rests (tryExcept x caught handler) := by
  refine Leads.tryCatch hx fun stop => ?_
  cases stop with
  | raised e => exact .ite (hh e) (.throw (fun _ h => h) _)
  | blocked => exact .throw (fun _ h => h) _

end Rests

theorem rests_monotonic : Rests monotonic := fun _ hc => hc.congr rfl rfl rfl rfl

theorem rests_ping : Rests ping := by
  have hhello : Leads Client.Connected Client.Connected Client.Rested (tryExcept doHello (fun _ => true) fun e => do
      close
      raise e) := OnConnection.closing onConnection_doHello
  refine .get_bind fun _ => .bind ?_ fun _ => .get_bind fun _ => .pure _
  exact leads_timeoutScope (fun _ s h => h.inScope s) (fun _ s h => h.inScope s)
    (.bind leads_connectSocket fun _ => .bind hhello fun _ => Leads.modify fun c _ => rested_closed c)

theorem rests_bye : Rests bye :=
  .get_bind fun _ => .ite (.bind (.of_leads (leads_sendCommand _)) fun _ => .pure _) (.pure _)

theorem rests_enterLoop : Rests enterLoop := by
  refine .bind rests_monotonic fun last => .get_bind fun c => ?_
  cases c.cfg.keepaliveInterval with
  | none => exact .pure _
  | some interval => exact .bind rests_monotonic fun _ => .pure _

theorem rests_closeAndRaise (reconnect : Bool) (e : Exn) (g : Collect) : Rests (closeAndRaise reconnect e g) :=
  .bind .close fun _ => .ite (.pure _) (.raise e)

theorem rests_keepalivePass (last : Int) (next : Option Int) : Rests (keepalivePass last next) := by
  refine .bind rests_monotonic fun now => .get_bind fun c => ?_
  split
  · refine .ite (.bind ?_ fun _ => .pure _) (.pure _)
    exact .tryExcept (.bind (.of_leads (leads_sendCommand _)) fun _ => .pure _) fun _ => .close
  · exact .pure _

section client
variable [Externals]

theorem planNegotiation_ne_nil {args : NegotiationArgs} {streams : List Stream} {plan : List Command}
    (h : (planNegotiation args streams).1 = .ok plan) : plan ≠ [] := by
  unfold planNegotiation at h
  split at h
  · cases h
  · cases h
  split at h
  · obtain ⟨cmds, -, rfl⟩ := exists_of_map_ok h
    exact List.append_ne_nil_of_right_ne_nil _ (List.cons_ne_nil _ _)
  · unfold planNegotiationV3 at h
    split at h
    · obtain ⟨cmds, -, rfl⟩ := exists_of_map_ok h
      exact List.append_ne_nil_of_right_ne_nil _ (List.cons_ne_nil _ _)
    · split at h
      · obtain ⟨data, -, rfl⟩ := exists_of_map_ok h
        exact List.append_ne_nil_of_right_ne_nil _ (List.cons_ne_nil _ _)
      · cases h

/-- Negotiating needs a connection too: no plan is empty. -/
theorem leads_negotiate : Leads Client.Rested Client.Connected Client.Rested negotiate := by
  refine leads_timeoutScope (fun _ s h => h.inScope s) (fun _ _ h => h) (Leads.get_bind fun c hc => ?_)
  have hset : ({ c with base := (c.base.prepareNegotiation c.negotiationArgs).2 } : Client).Rested :=
    hc.congr rfl rfl rfl rfl
  simp only [wp_bind, wp_set, wp_liftExcept]
  cases hplan : (c.base.prepareNegotiation c.negotiationArgs).1 with
  | error e => exact hset
  | ok plan =>
    have hrun : Leads Client.Rested Client.Connected Client.Rested (runPlan plan) :=
      .bind (leads_sendPlan (planNegotiation_ne_nil hplan)) fun _ => OnConnection.liftExcept _
    exact wp_mono (hrun _ hset) (fun _ _ h => h) fun _ _ h => h

theorem onConnection_infoLoop : ∀ fuel chunks, OnConnection (infoLoop fuel chunks)
  | 0, _ => .throw _
  | fuel + 1, chunks => by
    refine .bind onConnection_recvFrame fun received => ?_
    cases received with
    | endOfStream | reply => exact .raise _
    | packet frame => exact .ite (.ite (onConnection_infoLoop fuel _) (.pure _)) (.raise _)

theorem rests_info (level : Text) : Rests (Client.info level) :=
  .get_bind fun _ => .ite (.raise _) <|
    leads_timeoutScope (fun _ s h => h.inScope s) (fun _ s h => h.inScope s) <|
      Rests.of_leads <| .bind (leads_sendCommand _) fun _ => OnConnection.get_bind fun _ => onConnection_infoLoop _ _

theorem rests_infoDict (level : Text) : Rests (infoDict level) :=
  .bind (rests_info level) fun _ => .get_bind fun _ => .ite (.bind (.liftExcept _) fun _ => .pure _) (.liftExcept _)

theorem rests_reconnect : Rests reconnect :=
  .bind .close fun _ => .bind (.of_leads (leads_connect true)) fun _ => .get_bind fun _ =>
    .ite (.of_leads leads_negotiate) (.pure _)

theorem rests_handleFrame (reconnect : Bool) (last : Int) (next : Option Int) (received : Received) :
    Rests (handleFrame reconnect last next received) := by
  cases received with
  | endOfStream => exact .bind (.modify fun c h hsk => ⟨rfl, (h hsk).2⟩) fun _ => .pure _
  | reply resp => exact rests_closeAndRaise _ _ _
  | packet frame =>
    refine .ite (.bind (.liftExcept _) fun _ => rests_closeAndRaise _ _ _) (.ite (.pure _) ?_)
    exact .bind rests_monotonic fun _ => .bind (.modify fun _ h => h.congr rfl rfl rfl rfl) fun _ => .pure _

theorem rests_collectPass (reconnect : Bool) (last : Int) (next : Option Int) :
    Rests (collectPass reconnect last next) := by
  refine Leads.get_bind fun c hc => ?_
  rw [wp_ite]
  split
  · exact hc
  · rename_i hsk
    have hconn : c.Connected := Option.isSome_iff_ne_none.2 fun hnone => hsk (Option.isNone_iff_eq_none.2 hnone)
    have hawait : Leads Client.Connected Client.Rested Client.Rested (tryExcept (Sum.inl <$> awaitFrame)
        Exn.isSeedLinkError fun e => Sum.inr <$> closeAndRaise reconnect e (.looping last next)) := by
      refine Leads.tryCatch (.map (onConnection_awaitFrame.mono (fun _ h => h) (fun _ h => h.rested) fun _ h => h))
        fun stop => ?_
      cases stop with
      | raised e => exact .ite (.map (rests_closeAndRaise _ _ _)) (.throw (fun _ h => h) _)
      | blocked => exact .throw (fun _ h => h) _
    simp only [wp_bind, wp_monotonic, wp_ite]
    split
    · exact rests_closeAndRaise _ _ _ _ (hc.congr rfl rfl rfl rfl)
    · refine wp_mono (hawait _ hconn) (fun pass c' h => ?_) fun _ _ h => h
      rcases pass with (_ | received) | result
      · exact rests_keepalivePass last next c' h
      · exact rests_handleFrame reconnect last next received c' h
      · exact h

theorem rests_reconnectAttempt : Rests reconnectAttempt := by
  refine .get_bind fun c => .bind (.liftExcept _) fun _ => .tryExcept ?_ fun e => ?_
  · exact .bind (.of_leads (leads_connect true)) fun _ => .bind (.of_leads leads_negotiate) fun _ => rests_enterLoop
  · exact .ite (.raise e) (.bind .close fun _ => .pure _)

theorem rests_collectStep (reconnect : Bool) (g : Collect) : Rests (collectStep reconnect g) := by
  cases g with
  | start =>
    refine .get_bind fun c => .ite (.bind (.of_leads leads_negotiate) fun _ => ?_) ?_ <;>
      exact .bind rests_enterLoop fun _ => .pure _
  | looping last next => exact rests_collectPass reconnect last next
  | reconnecting => exact .bind rests_reconnectAttempt fun _ => .pure _
  | finished => exact .pure _

/-! ### Sequences of calls -/

/-- What a program can call. A step of `collect` starts where an earlier one left the generator. -/
inductive Method
  | connect (handshake : Bool)
  | ping
  | negotiate
  | info (level : Text)
  | infoDict (level : Text)
  | bye
  | reconnect
  | close
  | collect (again : Bool) (g : Collect)

/-- What a call returns. -/
inductive Returned
  | nothing
  | identity (serverId organization : Option Text)
  | text (text : Text)
  | dict (dict : InfoDict)
  | step (pkt : Option SeedLinkPacket) (g : Collect)

def Method.run : Method → ClientM Returned
  | .connect handshake => do
    SeedLink.connect handshake
    return .nothing
  | .ping => do
    let identity ← SeedLink.ping
    return .identity identity.1 identity.2
  | .negotiate => do
    SeedLink.negotiate
    return .nothing
  | .info level => do
    let text ← Client.info level
    return .text text
  | .infoDict level => do
    let dict ← SeedLink.infoDict level
    return .dict dict
  | .bye => do
    SeedLink.bye
    return .nothing
  | .reconnect => do
    SeedLink.reconnect
    return .nothing
  | .close => do
    SeedLink.close
    return .nothing
  | .collect again g => do
    let r ← collectStep again g
    return .step r.1 r.2

theorem rests_run (call : Method) : Rests call.run := by
  cases call with
  | connect handshake => exact .bind (.of_leads (leads_connect handshake)) fun _ => .pure _
  | ping => exact .bind rests_ping fun _ => .pure _
  | negotiate => exact .bind (.of_leads leads_negotiate) fun _ => .pure _
  | info level => exact .bind (rests_info level) fun _ => .pure _
  | infoDict level => exact .bind (rests_infoDict level) fun _ => .pure _
  | bye => exact .bind rests_bye fun _ => .pure _
  | reconnect => exact .bind rests_reconnect fun _ => .pure _
  | close => exact .bind .close fun _ => .pure _
  | collect again g => exact .bind (rests_collectStep again g) fun _ => .pure _

/-- What connecting, sending and reading keep, and editing the streams, every call keeps. -/
theorem keeps_run {R : Client → Client → Prop} [IsPreorder Client R] (h : Speaks (fun _ => True) R)
    (hbase : ∀ (c : Client) b, R c { c with base := b }) (call : Method) : Keeps R call.run := by
  have hhandshake : Keeps R doHandshake :=
    h.doHandshake trivial <| .bind .get fun _ => .bind (keeps_liftExcept _) fun commands =>
      h.sendHandshake commands fun _ _ => trivial
  have hconnect : ∀ handshake, Keeps R (connect handshake) := fun _ => h.connect hhandshake
  have hnegotiate : Keeps R negotiate := h.negotiate (fun _ => trivial) hbase
  cases call with
  | connect handshake => exact .bind (hconnect handshake) fun _ => .pure _
  | ping => exact .bind (h.ping trivial) fun _ => .pure _
  | negotiate => exact .bind hnegotiate fun _ => .pure _
  | info level => exact .bind (h.info trivial) fun _ => .pure _
  | infoDict level => exact .bind (h.infoDict trivial) fun _ => .pure _
  | bye => exact .bind (h.bye trivial) fun _ => .pure _
  | reconnect => exact .bind (h.reconnect (hconnect true) hnegotiate) fun _ => .pure _
  | close => exact .bind h.closing fun _ => .pure _
  | collect again g =>
    exact .bind (h.collectStep trivial (hconnect true) hnegotiate (fun c _ => hbase c _) again g) fun _ => .pure _

/-- The clients that programs get to see: new ones, those that a call leaves behind, however it ends, and
those whose streams are edited. A call that waits for ever stops at any of its reads. -/
inductive Client.Reachable : Client → Prop
  | new (cfg : Config) (env : Env) (base : Base) : Reachable { cfg, env, base }
  | call {c : Client} (h : c.Reachable) (call : Method) : Reachable (c.behind call.run)
  | edit {c : Client} (h : c.Reachable) (base : Base) : Reachable { c with base }

namespace Client.Reachable
variable {c : Client}

theorem rested (h : c.Reachable) : c.Rested := by
  induction h with
  | new => exact fun _ => ⟨rfl, rfl, rfl⟩
  | call _ call ih => exact behind_of_wp (rests_run call _ ih)
  | edit _ base ih => exact ih.congr rfl rfl rfl rfl

theorem usable (h : c.Reachable) : c.Usable := by
  induction h with
  | new => exact ⟨Nat.le_refl _, fun _ => RecvBuf.wf_fresh⟩
  | @call c _ call ih =>
    have hbase : ∀ (c : Client) b, c.KeepsUsable { c with base := b } := fun _ _ h => ⟨h.size, h.wf⟩
    refine behind_of_wp (P := Client.Usable) ?_
    exact wp_mono (keeps_run SeedLink.usable hbase call c) (fun _ _ h => h ih) fun _ _ h => h ih
  | edit _ base ih => exact ⟨ih.size, ih.wf⟩

theorem size_ge (h : c.Reachable) : recvBufSize ≤ c.rb.buf.size := h.usable.size

/-- To stream or to be in batch mode is to be connected. -/
theorem connected (h : c.Reachable) (hflag : c.streaming = true ∨ c.batchActive = true) : c.Connected := by
  cases hsk : c.sock with
  | none =>
    obtain ⟨hstream, hbatch, -⟩ := h.rested hsk
    rw [hstream, hbatch] at hflag
    rcases hflag with hflag | hflag <;> cases hflag
  | some sk => rw [Client.Connected, hsk]; rfl

/-- The buffer of a client without a connection. -/
theorem buffer (h : c.Reachable) (hsk : c.sock = none) : c.rb.unread = [] ∧ c.rb.buf.size = recvBufSize := by
  obtain ⟨-, -, hrb⟩ := h.rested hsk
  refine ⟨by rw [hrb, RecvBuf.unread_reset], ?_⟩
  rw [hrb]
  exact RecvBuf.size_reset h.size_ge

end Client.Reachable

end client

end SeedLink
