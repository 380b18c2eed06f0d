import SeedLink.Escapes
import SeedLink.Lib.Alike
import SeedLink.Resume

/-!
# Two clients in lockstep

A call does the same on two clients when what reaches their connections does and the rest of the clients
is the same (`Mirrors`). The functions of the client are followed side by side; what they raise of
their own is never a `CancelledError`, which a timeout scope would take for its deadline.
-/

namespace SeedLink

open StateExc Client

/-! ### Exceptions of one class -/

namespace Exn

def className : Exn → String
  | seedLinkError .. => "SeedLinkError"
  | seedLinkTimeout _ => "SeedLinkTimeout"
  | seedLinkAuthError .. => "SeedLinkAuthError"
  | unicodeDecodeError => "UnicodeDecodeError"
  | unicodeEncodeError => "UnicodeEncodeError"
  | valueError _ => "ValueError"
  | overflowError => "OverflowError"
  | attributeError => "AttributeError"
  | recursionError => "RecursionError"
  | osError => "OSError"
  | keyboardInterrupt => "KeyboardInterrupt"
  | generatorExit => "GeneratorExit"
  | cancelledError => "CancelledError"

variable {e e' : Exn}

theorem isSeedLinkError_iff : e.isSeedLinkError = true ↔
    e.className ∈ ["SeedLinkError", "SeedLinkTimeout", "SeedLinkAuthError"] := by
  cases e <;> simp [isSeedLinkError, className]

theorem isAuthError_iff : e.isAuthError = true ↔ e.className = "SeedLinkAuthError" := by
  cases e <;> simp [isAuthError, className]

theorem isSeedLinkError_congr (h : e.className = e'.className) : e.isSeedLinkError = e'.isSeedLinkError := by
  rw [Bool.eq_iff_iff, isSeedLinkError_iff, isSeedLinkError_iff, h]

theorem isAuthError_congr (h : e.className = e'.className) : e.isAuthError = e'.isAuthError := by
  rw [Bool.eq_iff_iff, isAuthError_iff, isAuthError_iff, h]

end Exn

/-! ### What pure code raises -/

section raises
variable {e : Exn}

theorem Exn.ne_of_isSeedLinkError (h : e.isSeedLinkError = true) : e ≠ .cancelledError := by
  rintro rfl
  cases h

theorem scanLine_error {buf : Bytearray} {start stop searchFrom : Nat}
    (h : scanLine buf start stop searchFrom = .error e) : e.isSeedLinkError = true := by
  unfold scanLine at h
  split at h
  · split at h <;> cases h
    rfl
  · split at h <;> cases h
    rfl

theorem ReplyParser.run_error {parser : ReplyParser} {line : Text} (h : parser.run line = .error e) :
    e.isSeedLinkError = true := by
  cases parser with
  | parseReply => cases h
  | expectOk =>
    change SeedLink.expectOk line = _ at h
    unfold SeedLink.expectOk at h
    simp only at h
    split at h <;> cases h
    rfl
  | expectAuthOk =>
    change SeedLink.expectAuthOk line = _ at h
    unfold SeedLink.expectAuthOk at h
    simp only at h
    split at h <;> cases h
    rfl

theorem selectProtocol_error {majors : List Text} {requested : Option Protocol}
    (h : selectProtocol majors requested = .error e) : e.isSeedLinkError = true := by
  unfold selectProtocol at h
  simp only at h
  split at h
  · split at h <;> cases h
    rfl
  · split at h <;> cases h
    rfl
  · split at h
    · cases h
    · split at h <;> cases h
      rfl

theorem authCommands_error {auth : Option Auth} (h : authCommands auth = .error e) : e.isSeedLinkError = true := by
  rcases auth with _ | ⟨username, password⟩ | token
  · cases h
  · rcases exists_of_bind_error h with h | ⟨cmd, -, h⟩
    · unfold Commands.authUserpass at h
      split at h <;> cases h
      rfl
    · cases h
  · cases h

theorem handshakePlan_error {c : Client} (h : handshakePlan c = .error e) : e.isSeedLinkError = true := by
  unfold handshakePlan planHandshake at h
  simp only at h
  split at h
  · rcases exists_of_bind_error h with h | ⟨auth, -, h⟩
    · exact authCommands_error h
    · cases h
  · cases h

theorem NegotiationWalk.finish_error {walk : NegotiationWalk} (h : walk.finish = .error e) :
    e.isSeedLinkError = true := by
  unfold NegotiationWalk.finish at h
  split at h <;> cases h
  rfl

theorem preparedPlan_error [Externals] {b : Base} {args : NegotiationArgs}
    (h : (b.prepareNegotiation args).1 = .error e) : e ≠ .cancelledError := by
  rcases planNegotiation_error h with h | ⟨h, -⟩
  · exact h.2
  · exact Exn.ne_of_isSeedLinkError h

end raises

/-! ### Clients alike but for their connections -/

/-- What a client has besides its connection, its buffer and its transport. -/
def Client.view (c : Client) : Client :=
  { c with cfg := { c.cfg with transport := .socket }, sock := none, rb := RecvBuf.fresh, inScope := false }

structure Client.SameConnection (c c' : Client) : Prop where
  cfg : c'.cfg = c.cfg
  env : c'.env = c.env
  sock : c'.sock = c.sock
  rb : c'.rb = c.rb
  inScope : c'.inScope = c.inScope

theorem Client.SameConnection.eq_of_view {c c' : Client} (h : c.SameConnection c') (hview : c'.view = c.view) :
    c' = c := by
  have hrest : ∀ d : Client,
      d = { d.view with cfg := d.cfg, env := d.env, sock := d.sock, rb := d.rb, inScope := d.inScope } := fun _ => rfl
  rw [hrest c', hview, h.cfg, h.env, h.sock, h.rb, h.inScope, ← hrest c]

/-- Related clients differ in their connections only, what reaches the connections keeps them related, and
related exceptions are of one class. -/
structure Mirrors (R : Client → Client → Prop) (E : Stop → Stop → Prop) : Prop where
  raised : ∀ {e : Exn}, e ≠ .cancelledError → E (.raised e) (.raised e)
  blocked : E .blocked .blocked
  stop : ∀ {stop stop' : Stop}, E stop stop' →
    (∃ e e' : Exn, stop = .raised e ∧ stop' = .raised e' ∧ e.className = e'.className) ∨
      (stop = .blocked ∧ stop' = .blocked)
  view : ∀ {c c' : Client}, R c c' → c'.view = c.view
  isSome : ∀ {c c' : Client}, R c c' → c'.sock.isSome = c.sock.isSome
  update : ∀ {c c' d d' : Client}, R c c' → c.SameConnection d → c'.SameConnection d' → d'.view = d.view → R d d'
  close : Lockstep R E close close
  readLine : Lockstep R E readLine readLine
  sendall : ∀ wire, Lockstep R E (sendall wire) (sendall wire)
  connectSocket : Lockstep R E connectSocket connectSocket
  timeoutScope : ∀ {α : Type} {message : String} {x y : ClientM α}, Lockstep R E x y →
    Lockstep R E (timeoutScope message x) (timeoutScope message y)

namespace Mirrors
variable {R : Client → Client → Prop} {E : Stop → Stop → Prop} (h : Mirrors R E) {α : Type} {c c' : Client}
include h

theorem raise {e : Exn} (he : e ≠ .cancelledError) : Lockstep R E (raise e : ClientM α) (SeedLink.raise e) :=
  .throw (h.raised he)

omit h in
/-- An exception that is raised again. -/
theorem reraise {e e' : Exn} (he : E (.raised e) (.raised e')) :
    Lockstep R E (SeedLink.raise e : ClientM α) (SeedLink.raise e') := .throw he

theorem liftExcept {x : Except Exn α} (hx : ∀ e, x = .error e → e ≠ .cancelledError) :
    Lockstep R E (liftExcept x) (SeedLink.liftExcept x) := by
  cases x with
  | ok a => exact .pure a
  | error e => exact h.raise (hx e rfl)

/-- What is read off the rest of the client is the same. -/
theorem get_bind {f : Client → ClientM α} (hview : ∀ c, f c.view = f c) (hf : ∀ c, Lockstep R E (f c) (f c)) :
    Lockstep R E (get >>= f) (get >>= f) := .get_bind fun s t hst => by
  rw [← hview t, h.view hst, hview]
  exact hf s

theorem modified {f : Client → Client} (hconn : ∀ c : Client, c.SameConnection (f c))
    (hview : ∀ c : Client, (f c).view = f c.view) : Lockstep R E (modify f : ClientM PUnit) (modify f) :=
  .modify fun s t hst => h.update hst (hconn s) (hconn t) (by rw [hview, hview, h.view hst])

theorem className {e e' : Exn} (he : E (.raised e) (.raised e')) : e.className = e'.className := by
  rcases h.stop he with ⟨e₁, e₂, ⟨⟩, ⟨⟩, hclass⟩ | ⟨⟨⟩, -⟩
  exact hclass

/-- A handler chosen by the class. -/
theorem alike_tryExcept {x y : ClientM α} {caught : Exn → Bool} {handler : Exn → ClientM α}
    (hx : Alike R E x y c c') (hcaught : ∀ e e' : Exn, e.className = e'.className → caught e = caught e')
    (hh : ∀ e e', E (.raised e) (.raised e') → Lockstep R E (handler e) (handler e')) :
    Alike R E (tryExcept x caught handler) (tryExcept y caught handler) c c' :=
  hx.tryCatch fun stop stop' s t hstop hst => by
    rcases h.stop hstop with ⟨e, e', rfl, rfl, hclass⟩ | ⟨rfl, rfl⟩
    · simp only [hcaught e e' hclass]
      exact .ite (fun _ => hh e e' hstop s t hst) fun _ => .throw hstop hst
    · exact .throw hstop hst

theorem tryExcept {x y : ClientM α} {caught : Exn → Bool} {handler : Exn → ClientM α} (hx : Lockstep R E x y)
    (hcaught : ∀ e e' : Exn, e.className = e'.className → caught e = caught e')
    (hh : ∀ e e', E (.raised e) (.raised e') → Lockstep R E (handler e) (handler e')) :
    Lockstep R E (tryExcept x caught handler) (SeedLink.tryExcept y caught handler) :=
  fun s t hst => h.alike_tryExcept (hx s t hst) hcaught hh

/-! ### Connecting and negotiating -/

theorem sendCommand (cmd : Command) : Lockstep R E (sendCommand cmd) (SeedLink.sendCommand cmd) := by
  have hreply : Lockstep R E (awaitReply cmd.parse) (awaitReply cmd.parse) := by
    cases cmd.parse with
    | none => exact .pure _
    | some parser =>
      exact .bind h.readLine fun line =>
        .bind (h.liftExcept fun e he => Exn.ne_of_isSeedLinkError (ReplyParser.run_error he)) fun _ => .pure _
  have hwire : Lockstep R E (SeedLink.liftExcept cmd.wire) (SeedLink.liftExcept cmd.wire) := h.liftExcept fun e he => by
    rcases Command.wire_error he with he | rfl
    · exact Exn.ne_of_isSeedLinkError he
    · exact nofun
  have hsend : Lockstep R E (do let wire ← SeedLink.liftExcept cmd.wire; SeedLink.sendall wire; awaitReply cmd.parse)
      (do let wire ← SeedLink.liftExcept cmd.wire; SeedLink.sendall wire; awaitReply cmd.parse) :=
    .bind hwire fun wire => .bind (h.sendall wire) fun _ => hreply
  rw [sendCommand_eq]
  refine .get_bind fun s t hst => ?_
  have hnone : t.sock.isNone = s.sock.isNone := by rw [← Option.not_isSome, h.isSome hst, Option.not_isSome]
  rw [hnone]
  exact .ite (.bind (h.raise nofun) fun _ => hsend) hsend

theorem clock (hst : R c c') : c'.env.clock c'.ticks = c.env.clock c.ticks :=
  (congrArg (fun c : Client => c.env.clock c.ticks) (h.view hst) :)

theorem ticked (hst : R c c') : R c.ticked c'.ticked :=
  h.update hst ⟨rfl, rfl, rfl, rfl, rfl⟩ ⟨rfl, rfl, rfl, rfl, rfl⟩ (congrArg Client.ticked (h.view hst) :)

theorem monotonic : Lockstep R E monotonic SeedLink.monotonic := fun _ _ hst => ⟨(h.clock hst).symm, h.ticked hst⟩

theorem doHello : Lockstep R E doHello SeedLink.doHello :=
  .bind (h.sendCommand _) fun _ => .bind h.readLine fun _ => .bind h.readLine fun _ =>
    .bind (h.modified (fun _ => ⟨rfl, rfl, rfl, rfl, rfl⟩) fun _ => rfl) fun _ => h.get_bind (fun _ => rfl) fun _ =>
      .bind (h.liftExcept fun _ he => Exn.ne_of_isSeedLinkError (selectProtocol_error he)) fun _ =>
        h.modified (fun _ => ⟨rfl, rfl, rfl, rfl, rfl⟩) fun _ => rfl

theorem sendHandshake : ∀ commands, Lockstep R E (sendHandshake commands) (SeedLink.sendHandshake commands)
  | [] => .pure _
  | cmd :: rest => .bind (h.sendCommand cmd) fun _ =>
    .ite (.bind (h.modified (fun _ => ⟨rfl, rfl, rfl, rfl, rfl⟩) fun _ => rfl) fun _ => sendHandshake rest)
      (sendHandshake rest)

theorem doHandshake : Lockstep R E doHandshake SeedLink.doHandshake := by
  refine h.tryExcept (.bind h.doHello fun _ => h.get_bind (fun _ => rfl) fun c => ?_)
    (fun _ _ => Exn.isSeedLinkError_congr) fun e e' he => .bind h.close fun _ => reraise he
  exact .bind (h.liftExcept fun _ he => Exn.ne_of_isSeedLinkError (handshakePlan_error he)) fun commands =>
    h.sendHandshake commands

theorem connect (handshake : Bool) : Lockstep R E (connect handshake) (SeedLink.connect handshake) :=
  h.get_bind (fun _ => rfl) fun _ => h.timeoutScope <|
    .bind h.connectSocket fun _ => .ite h.doHandshake (.pure _)

theorem ping : Lockstep R E ping SeedLink.ping := by
  refine h.get_bind (fun _ => rfl) fun _ => .bind (h.timeoutScope (.bind h.connectSocket fun _ => .bind ?_ fun _ => h.close))
    fun _ => h.get_bind (fun _ => rfl) fun _ => .pure _
  exact h.tryExcept h.doHello (fun _ _ _ => rfl) fun _ _ he => .bind h.close fun _ => reraise he

theorem bye : Lockstep R E bye SeedLink.bye := .get_bind fun s t hst => by
  rw [h.isSome hst]
  exact .ite (.bind (h.sendCommand _) fun _ => .pure _) (.pure _)

theorem sendPlan : ∀ plan walk, Lockstep R E (sendPlan plan walk) (SeedLink.sendPlan plan walk)
  | [], _ => .pure _
  | cmd :: rest, walk => by
    unfold SeedLink.sendPlan
    exact .ite (.bind (h.sendCommand cmd) fun resp => sendPlan rest _) (sendPlan rest _)

theorem runPlan (plan : List Command) : Lockstep R E (runPlan plan) (SeedLink.runPlan plan) :=
  .bind (h.sendPlan _ _) fun _ =>
    h.liftExcept fun _ he => Exn.ne_of_isSeedLinkError (NegotiationWalk.finish_error he)

theorem enterLoop : Lockstep R E enterLoop SeedLink.enterLoop := by
  refine .bind h.monotonic fun last => h.get_bind (fun _ => rfl) fun c => ?_
  cases c.cfg.keepaliveInterval with
  | none => exact .pure _
  | some interval => exact .bind h.monotonic fun now => .pure _

theorem closeAndRaise {reconnect : Bool} {e e' : Exn} {g : Collect} (he : E (.raised e) (.raised e')) :
    Lockstep R E (closeAndRaise reconnect e g) (SeedLink.closeAndRaise reconnect e' g) :=
  .bind h.close fun _ => .ite (.pure _) (reraise he)

theorem keepalivePass (last : Int) (next : Option Int) :
    Lockstep R E (keepalivePass last next) (SeedLink.keepalivePass last next) := by
  refine .bind h.monotonic fun now => h.get_bind (fun _ => rfl) fun c => ?_
  split
  · refine .ite (.bind ?_ fun _ => .pure _) (.pure _)
    exact h.tryExcept (.bind (h.sendCommand _) fun _ => .pure _) (fun _ _ => Exn.isSeedLinkError_congr)
      fun _ _ _ => h.close
  · exact .pure _

variable [Externals]

theorem negotiate : Lockstep R E negotiate SeedLink.negotiate := by
  refine h.timeoutScope (.get_bind fun s t hst => ?_)
  have hview := h.view hst
  have hargs : t.negotiationArgs = s.negotiationArgs := (congrArg Client.negotiationArgs hview :)
  have hbase : t.base = s.base := (congrArg Client.base hview :)
  have hset : R { s with base := (s.base.prepareNegotiation s.negotiationArgs).2 }
      { t with base := (s.base.prepareNegotiation s.negotiationArgs).2 } :=
    h.update hst ⟨rfl, rfl, rfl, rfl, rfl⟩ ⟨rfl, rfl, rfl, rfl, rfl⟩
      (congrArg (fun c : Client => { c with base := (s.base.prepareNegotiation s.negotiationArgs).2 }) hview :)
  have hrest : Lockstep R E (do
      let plan ← SeedLink.liftExcept (s.base.prepareNegotiation s.negotiationArgs).1
      SeedLink.runPlan plan
      modify fun c => { c with streaming := true }) (do
      let plan ← SeedLink.liftExcept (s.base.prepareNegotiation s.negotiationArgs).1
      SeedLink.runPlan plan
      modify fun c => { c with streaming := true }) :=
    .bind (h.liftExcept fun _ => preparedPlan_error) fun plan => .bind (h.runPlan plan) fun _ =>
      h.modified (fun _ => ⟨rfl, rfl, rfl, rfl, rfl⟩) fun _ => rfl
  rw [hargs, hbase]
  exact fun _ _ _ => .bind (.set hset) fun _ => hrest

theorem reconnect : Lockstep R E reconnect SeedLink.reconnect :=
  .bind h.close fun _ => .bind (h.connect true) fun _ => h.get_bind (fun _ => rfl) fun _ => .ite h.negotiate (.pure _)

/-- An attempt behind the same delay. -/
theorem reconnectAttempt (hst : R c c') (hsleep : c'.cfg.sleep = c.cfg.sleep) :
    Alike R E reconnectAttempt SeedLink.reconnectAttempt c c' := by
  have hattempt : Lockstep R E (do
      SeedLink.liftExcept c.cfg.sleep
      SeedLink.tryExcept (do SeedLink.connect true; SeedLink.negotiate; SeedLink.enterLoop) Exn.isSeedLinkError fun e =>
        if e.isAuthError then SeedLink.raise e else do SeedLink.close; return .reconnecting) (do
      SeedLink.liftExcept c.cfg.sleep
      SeedLink.tryExcept (do SeedLink.connect true; SeedLink.negotiate; SeedLink.enterLoop) Exn.isSeedLinkError fun e =>
        if e.isAuthError then SeedLink.raise e else do SeedLink.close; return .reconnecting) := by
    refine .bind (h.liftExcept fun e he => ?_) fun _ => ?_
    · rcases Config.sleep_error he with rfl | ⟨m, rfl⟩ <;> nofun
    refine h.tryExcept (.bind (h.connect true) fun _ => .bind h.negotiate fun _ => h.enterLoop)
      (fun _ _ => Exn.isSeedLinkError_congr) fun e e' he => ?_
    rw [Exn.isAuthError_congr (h.className he)]
    exact .ite (reraise he) (.bind h.close fun _ => .pure _)
  refine .get_bind ?_
  rw [hsleep]
  exact hattempt c c' hst

theorem handleFrame (reconnect : Bool) (last : Int) (next : Option Int) (received : Received) :
    Lockstep R E (handleFrame reconnect last next received) (SeedLink.handleFrame reconnect last next received) := by
  cases received with
  | endOfStream => exact .bind (h.modified (fun _ => ⟨rfl, rfl, rfl, rfl, rfl⟩) fun _ => rfl) fun _ => .pure _
  | reply resp => exact h.closeAndRaise (h.raised nofun)
  | packet frame =>
    refine .ite (.bind (h.liftExcept fun e he => (jsonErrorMessage_error he).2) fun message =>
      h.closeAndRaise (h.raised nofun)) (.ite (.pure _) ?_)
    exact .bind h.monotonic fun now => .bind (h.modified (fun _ => ⟨rfl, rfl, rfl, rfl, rfl⟩) fun _ => rfl) fun _ => .pure _

/-! ### Streaming -/

variable {reconnect : Bool} {g : Collect} {last : Int} {next : Option Int}

/-- A pass does the same when it awaits its frame alike. -/
theorem collectPass (hst : R c c') (hawait : Alike R E awaitFrame awaitFrame c.ticked c'.ticked) :
    Alike R E (collectPass reconnect last next) (SeedLink.collectPass reconnect last next) c c' := by
  have hnone : c'.sock.isNone = c.sock.isNone := by rw [← Option.not_isSome, h.isSome hst, Option.not_isSome]
  have hlimit : c'.cfg.idleTimeout = c.cfg.idleTimeout :=
    (congrArg (fun c : Client => c.cfg.idleTimeout) (h.view hst) :)
  refine .get_bind ?_
  rw [hnone, hlimit]
  refine .ite (fun _ => .pure _ hst) fun _ => ?_
  refine .bind_ok (show SeedLink.monotonic c = .ok (c.env.clock c.ticks) c.ticked from rfl)
    (show SeedLink.monotonic c' = .ok (c.env.clock c.ticks) c'.ticked by rw [← h.clock hst]; rfl) ?_
  have hidle : ∀ message, Lockstep R E
      (SeedLink.closeAndRaise reconnect (.seedLinkTimeout message) (.looping last next))
      (SeedLink.closeAndRaise reconnect (.seedLinkTimeout message) (.looping last next)) :=
    fun message => h.closeAndRaise (h.raised nofun)
  refine .ite (fun _ => hidle _ _ _ (h.ticked hst)) fun _ => ?_
  refine .bind (h.alike_tryExcept (.map hawait) (fun _ _ => Exn.isSeedLinkError_congr) fun e e' he => ?_)
    fun pass s t hst => ?_
  · exact .map (h.closeAndRaise he)
  · rcases pass with (_ | received) | result
    · exact h.keepalivePass last next s t hst
    · exact h.handleFrame reconnect last next received s t hst
    · exact .pure _ hst

/-- The step lemma. -/
theorem collectStep (hst : R c c') (hsleep : g = .reconnecting → c'.cfg.sleep = c.cfg.sleep)
    (hawait : Alike R E awaitFrame awaitFrame c.ticked c'.ticked) :
    Alike R E (collectStep reconnect g) (SeedLink.collectStep reconnect g) c c' := by
  cases g with
  | start =>
    have hstart : Lockstep R E (SeedLink.collectStep reconnect .start) (SeedLink.collectStep reconnect .start) := by
      refine h.get_bind (fun _ => rfl) fun c => .ite (.bind h.negotiate fun _ => ?_) ?_ <;>
        exact .bind h.enterLoop fun _ => .pure _
    exact hstart c c' hst
  | looping last next => exact h.collectPass hst hawait
  | reconnecting =>
    exact (h.reconnectAttempt hst (hsleep rfl)).bind fun _ _ _ hst => .pure _ hst
  | finished => exact .pure _ hst

end Mirrors

end SeedLink
