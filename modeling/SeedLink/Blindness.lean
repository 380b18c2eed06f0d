import SeedLink.Calls
import SeedLink.Lib.Blind

/-!
# What is blind to the selection

Reading, sending, connecting and waiting neither look at a client's selection nor change it: the selection has
its say in the plan of a negotiation and in the packets' arrival, and nowhere else.
-/

namespace SeedLink

open StateExc Client

/-- The selection of a client. -/
def selection : Portion Client Base where
  get c := c.base
  put b c := { c with base := b }
  put_get _ := rfl
  get_put _ _ := rfl

section rules
variable {α : Type} {x : ClientM α}

theorem blind_raise (e : Exn) : Blind selection (raise e : ClientM α) := .throw _

theorem blind_liftExcept (r : Except Exn α) : Blind selection (liftExcept r) := by
  cases r with
  | ok a => exact .pure a
  | error e => exact .throw _

theorem blind_tryExcept {caught : Exn → Bool} {handler : Exn → ClientM α} (hx : Blind selection x)
    (hh : ∀ e, Blind selection (handler e)) : Blind selection (tryExcept x caught handler) := by
  refine .tryCatch hx fun stop => ?_
  cases stop with
  | raised e => exact .ite (hh e) (.throw _)
  | blocked => exact .throw _

theorem blind_close : Blind selection close := .modify fun _ _ => rfl

theorem blind_timeoutScope {message : String} (hx : Blind selection x) : Blind selection (timeoutScope message x) := by
  refine .get_bind (fun c => .ite hx ?_) fun _ _ => rfl
  refine .bind (.modify fun _ _ => rfl) fun _ => .bind (.tryCatch hx fun stop => ?_) fun _ =>
    .bind (.modify fun _ _ => rfl) fun _ => .pure _
  exact .bind (.modify fun _ _ => rfl) fun _ => .ite (.bind blind_close fun _ => blind_raise _) (.throw _)

end rules

/-! ### Reading -/

theorem blind_ensure (n : Nat) : Blind selection (ensure n) := by
  intro b c
  simp only [ensure, selection]
  split
  · rfl
  split
  · rfl
  rename_i sk hsk _ rb hprep
  have hdeadline : ({ c with base := b } : Client).deadline = c.deadline := rfl
  rw [hdeadline]
  rcases fillLoop c.deadline n sk.incoming rb with ⟨stop, rb', incoming⟩
  cases stop with
  | timeout =>
    simp only [onTimeout]
    split
    · rfl
    · split <;> rfl
  | filled | oserror | eof | blocked => rfl

theorem blind_buffered (i j : Nat) : Blind selection (buffered i j) := .get_bind (fun _ => .pure _) fun _ _ => rfl

theorem blind_consume (n : Nat) : Blind selection (consume n) := .modify fun _ _ => rfl

theorem blind_peek (n : Nat) : Blind selection (peek n) := .bind (blind_ensure n) fun _ => blind_buffered 0 n

theorem blind_take (n : Nat) : Blind selection (take n) :=
  .bind (blind_ensure n) fun _ => .bind (blind_buffered 0 n) fun _ => .bind (blind_consume n) fun _ => .pure _

theorem blind_readLineLoop (fuel : Nat) : ∀ searchFrom, Blind selection (readLineLoop fuel searchFrom) := by
  induction fuel with
  | zero => exact fun _ => .throw _
  | succ fuel ih =>
    intro searchFrom
    refine .get_bind (fun c => ?_) fun _ _ => rfl
    split
    · exact .bind blind_close fun _ => blind_raise _
    · exact .bind (.modify fun _ _ => rfl) fun _ => .pure _
    · exact .bind (blind_ensure _) fun _ => ih _

theorem blind_readLine : Blind selection readLine := blind_readLineLoop _ _

theorem blind_unexpectedData : Blind selection unexpectedData := .bind (blind_buffered 0 2) fun _ => blind_raise _

theorem blind_classifyNext : Blind selection classifyNext := by
  refine .bind (blind_ensure 2) fun _ => .get_bind (fun c => .ite (.pure _) (.ite ?_ blind_unexpectedData)) fun _ _ => rfl
  refine .bind (blind_peek 3) fun three => .ite (.pure _) (.ite ?_ (.ite (.pure _) blind_unexpectedData))
  exact .bind (blind_peek 5) fun five => .ite (.pure _) blind_unexpectedData

theorem blind_recvFrameV4 : Blind selection recvFrameV4 := by
  refine .bind (blind_ensure _) fun _ => .bind (blind_buffered _ _) fun _ => .bind (blind_liftExcept _) fun header =>
    .bind (blind_ensure _) fun _ => .get_bind (fun c => ?_) fun _ _ => rfl
  exact .bind (blind_liftExcept _) fun _ => .bind (blind_consume _) fun _ => .pure _

section frames
variable [Pymseed]

theorem blind_readMseedPayloadLoop (fuel : Nat) : ∀ size, Blind selection (readMseedPayloadLoop fuel size) := by
  induction fuel with
  | zero => exact fun _ => .throw _
  | succ fuel ih =>
    intro size
    refine .bind (blind_peek size) fun start => ?_
    split
    · exact blind_raise _
    · exact blind_take _
    · exact .ite (blind_raise _) (ih _)

theorem blind_recvFrameV3 : Blind selection recvFrameV3 :=
  .bind (blind_take _) fun _ => .bind (blind_liftExcept _) fun _ => .bind (blind_readMseedPayloadLoop _ _) fun _ =>
    blind_liftExcept _

theorem blind_recvEvent (event : StreamEvent) : Blind selection (recvEvent event) := by
  have hframe : Blind selection (do
      let c ← get
      let frame ← if c.protocol = some .v4 then recvFrameV4 else recvFrameV3
      return Received.packet frame) := by
    refine .get_bind (fun c => .ite ?_ ?_) fun _ _ => rfl
    · exact .bind blind_recvFrameV4 fun _ => .pure _
    · exact .bind blind_recvFrameV3 fun _ => .pure _
  cases event with
  | endOfStream => exact .bind (blind_take 3) fun _ => .pure _
  | error => exact .bind blind_readLine fun _ => .pure _
  | packet | other => exact hframe

theorem blind_recvFrame : Blind selection recvFrame :=
  .bind blind_classifyNext fun event => .bind (blind_recvEvent event) fun _ => .bind (.modify fun _ _ => rfl) fun _ =>
    .pure _

end frames

/-! ### Sending and connecting -/

theorem blind_monotonic : Blind selection monotonic := fun _ _ => rfl

theorem blind_sendall (wire : Bytes) : Blind selection (sendall wire) := by
  intro b c
  simp only [sendall, selection]
  split
  · rfl
  split <;> rfl

theorem blind_sendCommand (cmd : Command) : Blind selection (sendCommand cmd) := by
  have hreply : Blind selection (awaitReply cmd.parse) := by
    cases cmd.parse with
    | none => exact .pure _
    | some parser => exact .bind blind_readLine fun line => .bind (blind_liftExcept _) fun _ => .pure _
  have hsend : Blind selection (do let wire ← liftExcept cmd.wire; sendall wire; awaitReply cmd.parse) :=
    .bind (blind_liftExcept _) fun wire => .bind (blind_sendall wire) fun _ => hreply
  rw [sendCommand_eq]
  exact .get_bind (fun c => .ite (.bind (blind_raise _) fun _ => hsend) hsend) fun _ _ => rfl

theorem blind_connectSocket : Blind selection connectSocket := by
  intro b c
  cases hsk : c.sock with
  | some sk => simp [connectSocket, selection, hsk, endIn]
  | none =>
    simp only [connectSocket, selection, hsk, Option.isSome_none, Bool.false_eq_true, if_false]
    cases c.env.dial c.dials <;> rfl

theorem blind_doHello : Blind selection doHello := by
  refine .bind (blind_sendCommand _) fun _ => .bind blind_readLine fun _ => .bind blind_readLine fun _ =>
    .bind (.modify fun _ _ => rfl) fun _ => .get_bind (fun c => ?_) fun _ _ => rfl
  exact .bind (blind_liftExcept _) fun _ => .modify fun _ _ => rfl

theorem blind_sendHandshake (commands : List Command) : Blind selection (sendHandshake commands) := by
  induction commands with
  | nil => exact .pure _
  | cons cmd rest ih =>
    refine .bind (blind_sendCommand cmd) fun resp => .ite ?_ ih
    exact .bind (.modify fun _ _ => rfl) fun _ => ih

theorem blind_doHandshake : Blind selection doHandshake := by
  refine blind_tryExcept (.bind blind_doHello fun _ => .get_bind (fun c => ?_) fun _ _ => rfl) fun e =>
    .bind blind_close fun _ => blind_raise e
  exact .bind (blind_liftExcept _) fun commands => blind_sendHandshake commands

theorem blind_connect (handshake : Bool) : Blind selection (connect handshake) := by
  refine .get_bind (fun _ => blind_timeoutScope ?_) fun _ _ => rfl
  exact .bind blind_connectSocket fun _ => .ite blind_doHandshake (.pure _)

theorem blind_ping : Blind selection ping := by
  refine .get_bind (fun c => .bind (blind_timeoutScope ?_) fun _ => .get_bind (fun _ => .pure _) fun _ _ => rfl)
    fun _ _ => rfl
  refine .bind blind_connectSocket fun _ => .bind ?_ fun _ => blind_close
  exact blind_tryExcept blind_doHello fun e => .bind blind_close fun _ => blind_raise e

theorem blind_bye : Blind selection bye :=
  .get_bind (fun _ => .ite (.bind (blind_sendCommand _) fun _ => .pure _) (.pure _)) fun _ _ => rfl

theorem blind_sendPlan (plan : List Command) : ∀ walk, Blind selection (sendPlan plan walk) := by
  induction plan with
  | nil => exact fun _ => .pure _
  | cons cmd rest ih =>
    intro walk
    unfold sendPlan
    exact .ite (.bind (blind_sendCommand cmd) fun resp => ih _) (ih _)

theorem blind_runPlan (plan : List Command) : Blind selection (runPlan plan) :=
  .bind (blind_sendPlan _ _) fun _ => blind_liftExcept _

/-! ### Waiting -/

theorem blind_enterLoop : Blind selection enterLoop := by
  refine .bind blind_monotonic fun last => .get_bind (fun c => ?_) fun _ _ => rfl
  split
  · exact .pure _
  · exact .bind blind_monotonic fun _ => .pure _

theorem blind_closeAndRaise (reconnect : Bool) (e : Exn) (g : Collect) :
    Blind selection (closeAndRaise reconnect e g) :=
  .bind blind_close fun _ => .ite (.pure _) (blind_raise e)

theorem blind_keepalivePass (last : Int) (next : Option Int) : Blind selection (keepalivePass last next) := by
  refine .bind blind_monotonic fun now => .get_bind (fun c => ?_) fun _ _ => rfl
  split
  · refine .ite (.bind ?_ fun _ => .pure _) (.pure _)
    exact blind_tryExcept (.bind (blind_sendCommand _) fun _ => .pure _) fun _ => blind_close
  · exact .pure _

theorem blind_pollReadable : Blind selection pollReadable := by
  have hrest : ∀ c : Client, Blind selection (if !c.env.readable c.polls then pure false
      else if c.cfg.transport = .socket then pure true else do ensure 1; return true : ClientM Bool) := by
    intro c
    exact .ite (.pure _) (.ite (.pure _) (.bind (blind_ensure 1) fun _ => .pure _))
  intro b c
  by_cases hbuf : c.rb.start < c.rb.stop
  · have hpoll : ∀ c : Client, c.rb.start < c.rb.stop → pollReadable c = .ok true c := by
      intro c h
      show (if c.rb.start < c.rb.stop then pure true else _ : ClientM Bool) c = _
      rw [if_pos h]
      rfl
    rw [hpoll c hbuf, hpoll (selection.put b c) hbuf]
    rfl
  · have hpoll : ∀ c : Client, ¬ c.rb.start < c.rb.stop → pollReadable c = (if !c.env.readable c.polls then pure false
        else if c.cfg.transport = .socket then pure true else do ensure 1; return true : ClientM Bool)
          { c with polls := c.polls + 1 } := by
      intro c h
      show (if c.rb.start < c.rb.stop then pure true else _ : ClientM Bool) c = _
      rw [if_neg h]
      rfl
    rw [hpoll c hbuf, hpoll (selection.put b c) hbuf]
    exact hrest c b { c with polls := c.polls + 1 }

section queries
variable [Externals]

theorem blind_awaitFrame : Blind selection awaitFrame :=
  .bind blind_pollReadable fun _ => .ite (.bind blind_recvFrame fun _ => .pure _) (.pure _)

/-! ### Queries -/

theorem blind_infoLoop (fuel : Nat) : ∀ chunks, Blind selection (infoLoop fuel chunks) := by
  induction fuel with
  | zero => exact fun _ => .throw _
  | succ fuel ih =>
    intro chunks
    refine .bind blind_recvFrame fun received => ?_
    cases received with
    | endOfStream | reply => exact blind_raise _
    | packet frame => exact .ite (.ite (ih _) (.pure _)) (blind_raise _)

theorem blind_info (level : Text) : Blind selection (Client.info level) := by
  refine .get_bind (fun c => .ite (blind_raise _) (blind_timeoutScope ?_)) fun _ _ => rfl
  exact .bind (blind_sendCommand _) fun _ => .get_bind (fun c => blind_infoLoop _ _) fun _ _ => rfl

theorem blind_infoDict (level : Text) : Blind selection (infoDict level) := by
  refine .bind (blind_info level) fun text => .get_bind (fun c => .ite ?_ (blind_liftExcept _)) fun _ _ => rfl
  exact .bind (blind_liftExcept _) fun _ => .pure _

end queries

end SeedLink
