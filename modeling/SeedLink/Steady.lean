import SeedLink.Reads

/-!
# What the connection leaves alone

Connecting, sending and receiving change neither the configuration nor the selection state of a
client, however they end (`Steady`). So the selection state of a streaming client moves in two ways
only: negotiating prepares it, and a packet updates it (`wp_collectStep_base`).
-/

namespace SeedLink

open StateExc

theorem wp_connectSocket {Q : Unit → Client → Prop} {E : Stop → Client → Prop} {c : Client}
    (hopen : c.sock.isSome = true → E (.raised (seedLinkError "Already connected")) c)
    (hopened : ∀ sk, c.sock = none → c.env.dial c.dials = .opened sk →
      Q ⟨⟩ { c with dials := c.dials + 1, sock := some sk, rb := c.rb.reset })
    (hfailed : ∀ d, c.sock = none → c.env.dial c.dials = d → (∀ sk, d ≠ .opened sk) →
      E (dialError c.cfg d) { c with dials := c.dials + 1 }) : wp connectSocket Q E c := by
  by_cases hsk : c.sock.isSome = true
  · have hrun : connectSocket c = .error (.raised (seedLinkError "Already connected")) c := if_pos hsk
    exact (wp_iff_of_error hrun).2 (hopen hsk)
  · have hnone : c.sock = none := by simpa using hsk
    unfold wp connectSocket
    rw [if_neg hsk]
    simp only
    cases hd : c.env.dial c.dials with
    | opened sk => exact hopened sk hnone hd
    | certificateError | unresolved | refused | timeout => exact hfailed _ hnone hd nofun

/-- A relation that dialling and a connection with a reset buffer keep. -/
theorem keeps_connectSocket {R : Client → Client → Prop} (hrefl : ∀ c : Client, R c c)
    (hopened : ∀ (c : Client) sk, R c { c with dials := c.dials + 1, sock := some sk, rb := c.rb.reset })
    (hfailed : ∀ c : Client, R c { c with dials := c.dials + 1 }) : Keeps R connectSocket := fun c =>
  wp_connectSocket (fun _ => hrefl c) (fun sk _ _ => hopened c sk) fun _ _ _ _ => hfailed c

/-- A relation that connecting, sending the commands of `P` and reading keep. -/
structure Speaks (P : Command → Prop) (R : Client → Client → Prop) : Prop extends Reading R where
  sendCommand : ∀ cmd, P cmd → Keeps R (sendCommand cmd)
  connectSocket : Keeps R connectSocket
  rest : ∀ c c' : Client, c'.cfg = c.cfg → c'.env = c.env → c'.base = c.base → c'.sock = c.sock →
    c'.rb = c.rb → c'.sent = c.sent → R c c'

namespace Speaks
variable {P : Command → Prop} {R : Client → Client → Prop} {α : Type} (h : Speaks P R)
include h

theorem closing : Keeps R SeedLink.close := .modify h.close

theorem monotonic : Keeps R monotonic := fun c => h.rest c _ rfl rfl rfl rfl rfl rfl

variable [IsPreorder Client R]

theorem timeoutScope {message : String} {x : ClientM α} (hx : Keeps R x) :
    Keeps R (timeoutScope message x) := by
  have hscope : ∀ f : Client → Client, (∀ c, (f c).cfg = c.cfg ∧ (f c).env = c.env ∧ (f c).base = c.base ∧
      (f c).sock = c.sock ∧ (f c).rb = c.rb ∧ (f c).sent = c.sent) → Keeps R (modify f : ClientM PUnit) :=
    fun f hf => .modify fun c => h.rest c _ (hf c).1 (hf c).2.1 (hf c).2.2.1 (hf c).2.2.2.1
      (hf c).2.2.2.2.1 (hf c).2.2.2.2.2
  refine .bind .get fun c => .ite hx (.bind (hscope _ fun _ => ⟨rfl, rfl, rfl, rfl, rfl, rfl⟩) fun _ =>
    .bind ?_ fun _ => .bind (hscope _ fun _ => ⟨rfl, rfl, rfl, rfl, rfl, rfl⟩) fun _ => .pure _)
  exact .tryCatch hx fun stop => .bind (hscope _ fun _ => ⟨rfl, rfl, rfl, rfl, rfl, rfl⟩) fun _ =>
    .ite (.bind h.closing fun _ => keeps_raise _) (.throw _)

theorem doHello (hhello : P Commands.hello) : Keeps R doHello :=
  .bind (h.sendCommand _ hhello) fun _ => .bind h.readLine fun _ => .bind h.readLine fun _ =>
    .bind (.modify fun c => h.rest c _ rfl rfl rfl rfl rfl rfl) fun _ => .bind .get fun _ =>
      .bind (keeps_liftExcept _) fun _ => .modify fun c => h.rest c _ rfl rfl rfl rfl rfl rfl

theorem sendHandshake : ∀ commands, (∀ cmd ∈ commands, P cmd) → Keeps R (sendHandshake commands)
  | [], _ => .pure _
  | cmd :: rest, hP =>
    .bind (h.sendCommand cmd (hP cmd List.mem_cons_self)) fun _ =>
      have hrest := sendHandshake rest fun cmd hcmd => hP cmd (List.mem_cons_of_mem _ hcmd)
      .ite (.bind (.modify fun c => h.rest c _ rfl rfl rfl rfl rfl rfl) fun _ => hrest) hrest

/-- The commands behind HELLO depend on its answer. -/
theorem doHandshake (hhello : P Commands.hello)
    (hplan : Keeps R (do let c ← get; let commands ← liftExcept (handshakePlan c); SeedLink.sendHandshake commands)) :
    Keeps R doHandshake :=
  keeps_tryExcept (.bind (h.doHello hhello) fun _ => hplan) fun _ => .bind h.closing fun _ => keeps_raise _

theorem connect {handshake : Bool} (hdo : Keeps R SeedLink.doHandshake) : Keeps R (connect handshake) :=
  .bind .get fun _ => h.timeoutScope <|
    .bind h.connectSocket fun _ => .ite hdo (.pure _)

theorem ping (hhello : P Commands.hello) : Keeps R ping := by
  have hdial : Keeps R (do
      SeedLink.connectSocket
      tryExcept SeedLink.doHello (fun _ => true) fun e => do
        SeedLink.close
        raise e
      SeedLink.close) :=
    .bind h.connectSocket fun _ => .bind (keeps_tryExcept (h.doHello hhello) fun e =>
      .bind h.closing fun _ => keeps_raise e) fun _ => h.closing
  exact .bind .get fun c => .bind (h.timeoutScope hdial) fun _ => .bind .get fun _ => .pure _

theorem bye (hbye : P Commands.bye) : Keeps R bye :=
  .bind .get fun _ => .ite (.bind (h.sendCommand _ hbye) fun _ => .pure _) (.pure _)

theorem sendPlan : ∀ plan walk, (∀ cmd ∈ plan, P cmd) → Keeps R (sendPlan plan walk)
  | [], _, _ => .pure _
  | cmd :: rest, walk, hP => by
    have hrest := fun walk => sendPlan rest walk fun cmd hcmd => hP cmd (List.mem_cons_of_mem _ hcmd)
    unfold SeedLink.sendPlan
    exact .ite (.bind (h.sendCommand cmd (hP cmd List.mem_cons_self)) fun _ => hrest _) (hrest _)

theorem runPlan {plan : List Command} (hP : ∀ cmd ∈ plan, P cmd) : Keeps R (runPlan plan) :=
  .bind (h.sendPlan _ _ hP) fun _ => keeps_liftExcept _

theorem enterLoop : Keeps R enterLoop := by
  refine .bind h.monotonic fun last => .bind .get fun c => ?_
  cases c.cfg.keepaliveInterval with
  | none => exact .pure _
  | some interval => exact .bind h.monotonic fun _ => .pure _

theorem closeAndRaise (reconnect : Bool) (e : Exn) (g : Collect) : Keeps R (closeAndRaise reconnect e g) :=
  .bind h.closing fun _ => .ite (.pure _) (keeps_raise _)

theorem keepalivePass (hinfo : P (Commands.info "ID".toList)) (last : Int) (next : Option Int) :
    Keeps R (keepalivePass last next) := by
  refine .bind h.monotonic fun now => .bind .get fun c => ?_
  split
  · refine .ite (.bind ?_ fun _ => .pure _) (.pure _)
    exact keeps_tryExcept (.bind (h.sendCommand _ hinfo) fun _ => .pure _) fun _ => h.closing
  · exact .pure _

section collecting
variable [Externals]

theorem negotiate (hP : ∀ cmd, P cmd) (hbase : ∀ (c : Client) b, R c { c with base := b }) : Keeps R negotiate := by
  refine h.timeoutScope fun c => ?_
  have hrest : Keeps R (do
      let plan ← liftExcept (c.base.prepareNegotiation c.negotiationArgs).1
      SeedLink.runPlan plan
      modify fun c => { c with streaming := true }) :=
    .bind (keeps_liftExcept _) fun _ => .bind (h.runPlan fun cmd _ => hP cmd) fun _ =>
      .modify fun c => h.rest c _ rfl rfl rfl rfl rfl rfl
  simp only [negotiateInner, wp_bind, wp_get, wp_set]
  simp only [← wp_bind]
  exact wp_mono (hrest _) (fun _ _ hr => IsTrans.trans _ _ _ (hbase c _) hr)
    fun _ _ hr => IsTrans.trans _ _ _ (hbase c _) hr

theorem info {level : Text} (hP : P (Commands.info level)) : Keeps R (Client.info level) := by
  have hask : Keeps R (do
      let _ ← SeedLink.sendCommand (Commands.info level)
      let c ← get
      SeedLink.infoLoop (c.bytesAhead + 1) []) :=
    .bind (h.sendCommand _ hP) fun _ => .bind .get fun c => h.infoLoop _ _
  exact .bind .get fun c => .ite (keeps_raise _) (h.timeoutScope hask)

theorem infoDict {level : Text} (hP : P (Commands.info level)) : Keeps R (infoDict level) :=
  .bind (h.info hP) fun _ => .bind .get fun _ => .ite (.bind (keeps_liftExcept _) fun _ => .pure _) (keeps_liftExcept _)

theorem reconnect (hconnect : Keeps R (SeedLink.connect true)) (hnegotiate : Keeps R SeedLink.negotiate) :
    Keeps R reconnect :=
  .bind h.closing fun _ => .bind hconnect fun _ => .bind .get fun _ => .ite hnegotiate (.pure _)

theorem handleFrame (hbase : ∀ (c : Client) pkt, R c { c with base := c.base.updateStreamState pkt })
    (reconnect : Bool) (last : Int) (next : Option Int) (received : Received) :
    Keeps R (handleFrame reconnect last next received) := by
  cases received with
  | endOfStream => exact .bind (.modify fun c => h.rest c _ rfl rfl rfl rfl rfl rfl) fun _ => .pure _
  | reply resp => exact h.closeAndRaise _ _ _
  | packet frame =>
    refine .ite (.bind (keeps_liftExcept _) fun _ => h.closeAndRaise _ _ _) (.ite (.pure _) ?_)
    exact .bind h.monotonic fun _ => .bind (.modify fun c => hbase c _) fun _ => .pure _

theorem collectStep (hinfo : P (Commands.info "ID".toList)) (hconnect : Keeps R (SeedLink.connect true))
    (hnegotiate : Keeps R SeedLink.negotiate)
    (hbase : ∀ (c : Client) pkt, R c { c with base := c.base.updateStreamState pkt })
    (reconnect : Bool) (g : Collect) : Keeps R (collectStep reconnect g) := by
  cases g with
  | start =>
    refine .bind .get fun c => .ite (.bind hnegotiate fun _ => ?_) ?_ <;>
      exact .bind h.enterLoop fun _ => .pure _
  | looping last next =>
    refine .bind .get fun c => .ite (.pure _) (.bind h.monotonic fun now => .ite ?_ ?_)
    · exact h.closeAndRaise _ _ _
    · refine .bind (keeps_tryExcept (.map h.awaitFrame) fun e => .map (h.closeAndRaise _ _ _)) fun pass => ?_
      split
      · exact h.keepalivePass hinfo last next
      · exact h.handleFrame hbase reconnect last next _
      · exact .pure _
  | reconnecting =>
    refine .bind (.bind .get fun c => .bind (keeps_liftExcept _) fun _ => keeps_tryExcept ?_ fun e => ?_) fun _ => .pure _
    · exact .bind hconnect fun _ => .bind hnegotiate fun _ => h.enterLoop
    · exact .ite (keeps_raise _) (.bind h.closing fun _ => .pure _)
  | finished => exact .pure _

end collecting

end Speaks

/-- A relation that connecting, sending and reading keep. -/
structure Handles (R : Client → Client → Prop) : Prop extends Reads R where
  sendall : ∀ wire, Keeps R (sendall wire)
  connectSocket : Keeps R connectSocket
  rest : ∀ c c' : Client, c'.cfg = c.cfg → c'.env = c.env → c'.base = c.base → c'.sock = c.sock →
    c'.rb = c.rb → R c c'

namespace Handles
variable {R : Client → Client → Prop} [IsPreorder Client R] {α : Type} (h : Handles R)
include h

theorem sendCommand (cmd : Command) : Keeps R (sendCommand cmd) := by
  have hsend : Keeps R (do
      let wire ← liftExcept cmd.wire
      SeedLink.sendall wire
      SeedLink.awaitReply cmd.parse) :=
    .bind (keeps_liftExcept _) fun wire => .bind (h.sendall wire) fun _ => h.reading.awaitReply _
  rw [sendCommand_eq]
  exact .bind .get fun c => .ite (.bind (keeps_raise _) fun _ => hsend) hsend

/-- Whatever is sent. -/
theorem speaks : Speaks (fun _ => True) R where
  toReading := h.reading
  sendCommand cmd _ := h.sendCommand cmd
  connectSocket := h.connectSocket
  rest c c' hcfg henv hbase hsock hrb _ := h.rest c c' hcfg henv hbase hsock hrb

omit [IsPreorder Client R] in
theorem closing : Keeps R SeedLink.close := .modify h.close

theorem doHandshake : Keeps R doHandshake :=
  h.speaks.doHandshake trivial <| .bind .get fun _ => .bind (keeps_liftExcept _) fun commands =>
    h.speaks.sendHandshake commands fun _ _ => trivial

theorem connect (handshake : Bool) : Keeps R (connect handshake) := h.speaks.connect h.doHandshake

theorem runPlan (plan : List Command) : Keeps R (runPlan plan) := h.speaks.runPlan fun _ _ => trivial

theorem keepalivePass (last : Int) (next : Option Int) : Keeps R (keepalivePass last next) :=
  h.speaks.keepalivePass trivial last next

end Handles

/-! ### The selection state -/

structure Client.SameSelection (c c' : Client) : Prop where
  cfg : c'.cfg = c.cfg
  env : c'.env = c.env
  base : c'.base = c.base

instance : IsPreorder Client Client.SameSelection where
  refl _ := ⟨rfl, rfl, rfl⟩
  trans _ _ _ h h' := ⟨h'.cfg.trans h.cfg, h'.env.trans h.env, h'.base.trans h.base⟩

/-- The configuration and the selection state are kept. -/
abbrev Steady {α : Type} (x : ClientM α) : Prop := Keeps Client.SameSelection x

theorem steady_ensure (n : Nat) : Steady (ensure n) := by
  refine keeps_ensure fun c c' h => ?_
  cases h <;> exact ⟨rfl, rfl, rfl⟩

theorem steady_sendall (wire : Bytes) : Steady (sendall wire) := by
  intro c
  unfold wp sendall
  cases c.sock with
  | none => exact ⟨rfl, rfl, rfl⟩
  | some sk =>
    simp only
    cases sk.peer sk.sent sk.incoming wire <;> exact ⟨rfl, rfl, rfl⟩

theorem steady_connectSocket : Steady connectSocket :=
  keeps_connectSocket (fun _ => ⟨rfl, rfl, rfl⟩) (fun _ _ => ⟨rfl, rfl, rfl⟩) fun _ => ⟨rfl, rfl, rfl⟩

theorem steady : Handles Client.SameSelection where
  ensure := steady_ensure
  close _ := ⟨rfl, rfl, rfl⟩
  rb _ _ _ := ⟨rfl, rfl, rfl⟩
  polls _ _ := ⟨rfl, rfl, rfl⟩
  sendall := steady_sendall
  connectSocket := steady_connectSocket
  rest _ _ hcfg henv hbase _ _ := ⟨hcfg, henv, hbase⟩

theorem steady_ping : Steady ping := steady.speaks.ping trivial

theorem steady_infoDict [Externals] (level : Text) : Steady (infoDict level) := steady.speaks.infoDict trivial

/-! ### Connecting does not begin to stream -/

def Client.StaysIdle (c c' : Client) : Prop := c.streaming = false → c'.streaming = false

instance : IsPreorder Client Client.StaysIdle where
  refl _ := id
  trans _ _ _ h h' := h' ∘ h

theorem idle : Reading Client.StaysIdle :=
  Reads.reading
    { ensure := fun n => keeps_ensure fun c c' h => by
        cases h with
        | closed => exact fun _ => rfl
        | _ => exact id
      close := fun _ _ => rfl
      rb := fun _ _ _ => id
      polls := fun _ _ => id }

theorem idle_sendCommand (cmd : Command) : Keeps Client.StaysIdle (sendCommand cmd) := by
  have hsendall : ∀ wire, Keeps Client.StaysIdle (sendall wire) := by
    intro wire c
    unfold wp sendall
    cases c.sock with
    | none => exact id
    | some sk =>
      simp only
      cases sk.peer sk.sent sk.incoming wire
      · exact fun _ => rfl
      · exact id
  have hsend : Keeps Client.StaysIdle (do
      let wire ← liftExcept cmd.wire
      sendall wire
      awaitReply cmd.parse) :=
    .bind (keeps_liftExcept _) fun wire => .bind (hsendall wire) fun _ => idle.awaitReply _
  rw [sendCommand_eq]
  exact .bind .get fun c => .ite (.bind (keeps_raise _) fun _ => hsend) hsend

theorem idle_sendHandshake : ∀ commands, Keeps Client.StaysIdle (sendHandshake commands)
  | [] => .pure _
  | cmd :: rest => .bind (idle_sendCommand cmd) fun _ =>
      .ite (.bind (.modify fun _ => id) fun _ => idle_sendHandshake rest) (idle_sendHandshake rest)

theorem idle_connect (handshake : Bool) : Keeps Client.StaysIdle (connect handshake) := by
  have hclose : Keeps Client.StaysIdle close := .modify fun _ _ => rfl
  have hhello : Keeps Client.StaysIdle doHello :=
    .bind (idle_sendCommand _) fun _ => .bind idle.readLine fun _ => .bind idle.readLine fun _ =>
      .bind (.modify fun _ => id) fun _ => .bind .get fun _ => .bind (keeps_liftExcept _) fun _ => .modify fun _ => id
  have hhandshake : Keeps Client.StaysIdle doHandshake :=
    keeps_tryExcept (.bind hhello fun _ => .bind .get fun _ => .bind (keeps_liftExcept _) fun commands =>
      idle_sendHandshake commands) fun _ => .bind hclose fun _ => keeps_raise _
  have hdial : Keeps Client.StaysIdle (do connectSocket; if handshake then doHandshake) :=
    .bind (keeps_connectSocket (fun _ => id) (fun _ _ => id) fun _ => id) fun _ => .ite hhandshake (.pure _)
  refine .bind .get fun c => .bind .get fun _ => .ite hdial (.bind (.modify fun _ => id) fun _ => .bind ?_ fun _ =>
    .bind (.modify fun _ => id) fun _ => .pure _)
  exact .tryCatch hdial fun _ => .bind (.modify fun _ => id) fun _ => .ite (.bind hclose fun _ => keeps_raise _) (.throw _)

/-! ### The size of the buffer -/

/-- The buffer keeps its least size. -/
def Client.KeepsBuffer (c c' : Client) : Prop :=
  recvBufSize ≤ c.rb.buf.size → recvBufSize ≤ c'.rb.buf.size

instance : IsPreorder Client Client.KeepsBuffer where
  refl _ h := h
  trans _ _ _ h h' hc := h' (h hc)

theorem RecvBuf.size_reset {rb : RecvBuf} (h : recvBufSize ≤ rb.buf.size) :
    rb.reset.buf.size = recvBufSize := by
  unfold RecvBuf.reset
  split
  · exact Bytearray.size_zeros
  · rename_i hle
    exact Nat.le_antisymm (Nat.le_of_not_gt hle) h

theorem RecvBuf.size_reset_ge {rb : RecvBuf} (h : recvBufSize ≤ rb.buf.size) :
    recvBufSize ≤ rb.reset.buf.size := Nat.le_of_eq (size_reset h).symm

theorem RecvBuf.size_prepareRoom {rb : RecvBuf} {n : Nat} (h : recvBufSize ≤ rb.buf.size) :
    recvBufSize ≤ (rb.prepareRoom n).2.buf.size := by
  have hmake : ∀ rb : RecvBuf, recvBufSize ≤ rb.buf.size → recvBufSize ≤ (rb.makeRoom n).buf.size := by
    intro rb h
    unfold RecvBuf.makeRoom
    simp only
    split
    · simp only [Bytearray.size_write, Bytearray.size_zeros]; omega
    split
    · simp only [Bytearray.size_write]; exact h
    · exact h
  unfold RecvBuf.prepareRoom
  split
  · exact h
  split
  · exact hmake _ (RecvBuf.size_reset_ge h)
  · exact hmake _ h

theorem size_fillLoop (deadline : Bool) (n : Nat) : ∀ (incoming : List Recv) (rb : RecvBuf),
    (fillLoop deadline n incoming rb).2.1.buf.size = rb.buf.size
  | [], rb => rfl
  | ev :: later, rb => by
    have hfill : ∀ data, (rb.fill data).buf.size = rb.buf.size := fun data => Bytearray.size_write
    unfold fillLoop
    split
    · rfl
    cases ev with
    | timeout =>
      simp only
      split
      · rfl
      · exact size_fillLoop deadline n later rb
    | oserror detail => rfl
    | data chunk =>
      simp only
      split
      · rfl
      split
      · exact (size_fillLoop deadline n later _).trans (hfill _)
      split <;> exact hfill _

theorem Client.Ensured.size {n : Nat} {c c' : Client} (h : c.Ensured n c') :
    c'.rb.buf.size = c.rb.buf.size ∨ c'.rb.buf.size = (c.rb.prepareRoom n).2.buf.size ∨
      ∃ rb : RecvBuf, rb.buf.size = (c.rb.prepareRoom n).2.buf.size ∧ c'.rb = rb.reset := by
  cases h with
  | kept => exact .inl rfl
  | enough h => exact .inr (.inl (by rw [h]))
  | @filled sk _ rb _ _ _ hprep hfill =>
    have hsize := size_fillLoop c.deadline n sk.incoming rb
    rw [hfill] at hsize
    exact .inr (.inl (by rw [hprep]; exact hsize))
  | @closed sk _ rb rb' _ _ hprep hfill =>
    have hsize := size_fillLoop c.deadline n sk.incoming rb
    rw [hfill] at hsize
    exact .inr (.inr ⟨rb', by rw [hprep]; exact hsize, rfl⟩)

theorem keepsBuffer_ensure (n : Nat) : Keeps Client.KeepsBuffer (ensure n) := by
  refine keeps_ensure fun c c' h hc => ?_
  have hroom := @RecvBuf.size_prepareRoom c.rb n hc
  rcases h.size with h | h | ⟨rb, hrb, h⟩
  · rw [h]; exact hc
  · rw [h]; exact hroom
  · rw [h]; exact RecvBuf.size_reset_ge (hrb ▸ hroom)

theorem keepsBuffer : Handles Client.KeepsBuffer where
  ensure := keepsBuffer_ensure
  close _ h := RecvBuf.size_reset_ge h
  rb c rb hrb h := by
    rcases hrb with hrb | rfl
    · exact hrb ▸ h
    · exact RecvBuf.size_reset_ge h
  polls _ _ h := h
  sendall wire := by
    intro c
    unfold wp sendall
    cases c.sock with
    | none => exact fun h => h
    | some sk =>
      simp only
      cases sk.peer sk.sent sk.incoming wire with
      | error => exact fun h => RecvBuf.size_reset_ge h
      | ok => exact fun h => h
  connectSocket := keeps_connectSocket (fun _ h => h) (fun _ _ h => RecvBuf.size_reset_ge h) fun _ h => h
  rest _ _ _ _ _ _ hrb h := hrb ▸ h

theorem keepsBuffer_negotiate [Externals] : Keeps Client.KeepsBuffer negotiate :=
  keepsBuffer.speaks.negotiate (fun _ => trivial) fun _ _ h => h

theorem keepsBuffer_collectStep [Externals] (reconnect : Bool) (g : Collect) :
    Keeps Client.KeepsBuffer (collectStep reconnect g) :=
  keepsBuffer.speaks.collectStep trivial (keepsBuffer.connect true) keepsBuffer_negotiate
    (fun _ _ h => h) reconnect g

/-! ### A buffer to read from -/

/-- A client whose buffer has its least size and is well formed while there is a connection. -/
structure Client.Usable (c : Client) : Prop where
  size : recvBufSize ≤ c.rb.buf.size
  wf : c.sock.isSome = true → c.rb.WF

def Client.KeepsUsable (c c' : Client) : Prop := c.Usable → c'.Usable

instance : IsPreorder Client Client.KeepsUsable where
  refl _ h := h
  trans _ _ _ h h' hc := h' (h hc)

theorem keepsUsable_of_reads {α : Type} {x : ClientM α} (hsize : Keeps Client.KeepsBuffer x)
    (hreads : Keeps Client.OnlyReads x) (hwf : ∀ (c : Client) s later, c.Feeds s later → Stalls c.deadline later →
      wp x (fun _ c' => c'.rb.WF) (fun _ c' => c'.rb.WF) c) : Keeps Client.KeepsUsable x := by
  intro c
  cases hsk : c.sock with
  | none =>
    -- without a connection there is none afterwards
    have hnone : ∀ c' : Client, c.OnlyReads c' → ¬ c'.sock.isSome = true := by
      intro c' h hs
      obtain ⟨sk', hsk'⟩ := Option.isSome_iff_exists.1 hs
      obtain ⟨sk, hsk₀, -⟩ := h sk' hsk'
      rw [hsk] at hsk₀
      cases hsk₀
    exact wp_mono (wp_and (hsize c) (hreads c)) (fun _ c' h hc => ⟨h.1 hc.size, fun hs => absurd hs (hnone c' h.2)⟩)
      fun _ c' h hc => ⟨h.1 hc.size, fun hs => absurd hs (hnone c' h.2)⟩
  | some sk =>
    have hsome : c.sock.isSome = true := by rw [hsk]; rfl
    by_cases hc : c.Usable
    · obtain ⟨s, later, h, hstall⟩ := Client.exists_feeds (hc.wf hsome) hsome
      exact wp_mono (wp_and (hsize c) (hwf c s later h hstall)) (fun _ _ h _ => ⟨h.1 hc.size, fun _ => h.2⟩)
        fun _ _ h _ => ⟨h.1 hc.size, fun _ => h.2⟩
    · exact wp_mono (hsize c) (fun _ _ _ h => absurd h hc) fun _ _ _ h => absurd h hc

theorem reading_usable : Reading Client.KeepsUsable where
  readLine := keepsUsable_of_reads keepsBuffer.reading.readLine onlyReads.reading.readLine fun c s later h hstall =>
    wp_readLine h hstall (fun _ _ _ _ _ h' _ => h'.wf) fun _ _ hf => hf.wf
  recvFrame := keepsUsable_of_reads keepsBuffer.reading.recvFrame onlyReads.reading.recvFrame fun c s later h hstall =>
    wp_mono (wp_recvFrame_total h hstall) (fun _ _ ⟨_, _, h', _⟩ => h'.wf) fun _ _ hf => hf.wf
  pollReadable := by
    refine keepsUsable_of_reads keepsBuffer.reading.pollReadable onlyReads.reading.pollReadable
      fun c s later h hstall => ?_
    simp only [pollReadable, wp_bind, wp_get, wp_ite, wp_pure, wp_set]
    have hpoll : ({ c with polls := c.polls + 1 } : Client).Feeds s later := by
      obtain ⟨u, now, hat, hnow, hs⟩ := h
      exact ⟨u, now, ⟨hat.wf, hat.unread, hat.conn⟩, hnow, hs⟩
    split
    · exact h.wf
    split
    · exact h.wf
    split
    · exact h.wf
    · exact wp_ensure hpoll hstall (fun _ h' _ _ => h'.wf) fun _ _ hf _ => hf.wf
  close _ h := ⟨RecvBuf.size_reset_ge h.size, nofun⟩

theorem usable : Speaks (fun _ => True) Client.KeepsUsable where
  toReading := reading_usable
  sendCommand cmd _ c := by
    refine wp_sendCommand (fun _ => refl c) (fun _ _ _ => refl c) (fun _ _ => reading_usable.close c)
      fun wire c' hw hs => ?_
    have hsends : c.KeepsUsable c' := by
      obtain ⟨sk, incoming, hsk, -, rfl⟩ := hs
      exact fun h => ⟨h.size, fun _ => h.wf (by rw [hsk]; rfl)⟩
    exact wp_mono (reading_usable.awaitReply cmd.parse c') (fun _ _ h => IsTrans.trans _ _ _ hsends h)
      fun _ _ h => IsTrans.trans _ _ _ hsends h
  connectSocket := keeps_connectSocket (fun c => refl c)
    (fun _ _ h => have hsize := RecvBuf.size_reset_ge h.size
      ⟨hsize, fun _ => ⟨Nat.le_refl _, Nat.zero_le _, hsize⟩⟩) fun _ h => ⟨h.size, h.wf⟩
  rest _ _ _ _ _ hsock hrb _ h := ⟨hrb ▸ h.size, fun hs => hrb ▸ h.wf (hsock ▸ hs)⟩

theorem usable_connect (handshake : Bool) : Keeps Client.KeepsUsable (connect handshake) :=
  usable.connect <| usable.doHandshake trivial <| .bind .get fun _ => .bind (keeps_liftExcept _) fun commands =>
    usable.sendHandshake commands fun _ _ => trivial

theorem usable_collectStep [Externals] (reconnect : Bool) (g : Collect) :
    Keeps Client.KeepsUsable (collectStep reconnect g) :=
  usable.collectStep trivial (usable_connect true) (usable.negotiate (fun _ => trivial) fun _ _ h => ⟨h.size, h.wf⟩)
    (fun _ _ h => ⟨h.size, h.wf⟩) reconnect g

/-! ### Steps of the generator -/

section streaming
variable [Externals] {c : Client}

/-- The plan of a negotiation and the selection state it leaves. -/
def Client.prepared (c : Client) : Except Exn (List Command) × Base :=
  c.base.prepareNegotiation c.negotiationArgs

/-- Negotiating leaves the selection state as it was prepared, also when it fails. -/
theorem wp_negotiate_base :
    wp negotiate (fun _ => ({ c with base := c.prepared.2 } : Client).SameSelection)
      (fun _ => ({ c with base := c.prepared.2 } : Client).SameSelection) c := by
  have hrest : Steady (do
      let plan ← liftExcept c.prepared.1
      runPlan plan
      modify fun c => { c with streaming := true }) :=
    .bind (keeps_liftExcept _) fun _ => .bind (steady.runPlan _) fun _ => .modify fun _ => ⟨rfl, rfl, rfl⟩
  have hun : ∀ c₁ c' : Client, c₁.SameSelection c' → c₁.SameSelection c'.unscoped := by
    intro c₁ c' h
    unfold Client.unscoped
    split
    · exact h
    · exact ⟨h.cfg, h.env, h.base⟩
  have hprep : c.scoped.base.prepareNegotiation c.scoped.negotiationArgs = c.prepared := by
    unfold Client.scoped Client.prepared
    split <;> rfl
  have hscoped : ∀ c', ({ c.scoped with base := c.prepared.2 } : Client).SameSelection c' →
      ({ c with base := c.prepared.2 } : Client).SameSelection c' := by
    intro c' h
    unfold Client.scoped at h
    split at h
    · exact h
    · exact ⟨h.cfg, h.env, h.base⟩
  refine wp_timeoutScope ?_
  simp only [negotiateInner, wp_bind, wp_get, wp_set, hprep]
  simp only [← wp_bind]
  refine wp_mono (hrest _) (fun _ c' h => ?_) fun stop c' h => ?_
  · have h' := hscoped c' h
    exact ⟨h'.cfg, hun _ _ h'⟩
  · have h' := hscoped c' h
    refine ⟨h'.cfg, ?_⟩
    split
    · exact ⟨(hun _ _ h').cfg, (hun _ _ h').env, (hun _ _ h').base⟩
    · exact hun _ _ h'

/-- How one step of the generator moves the selection state, and the packet it yields. -/
inductive Client.Evolves (c : Client) : Option SeedLinkPacket → Client → Prop
  | kept {c' : Client} (h : c.SameSelection c') : Evolves c none c'
  | negotiated {c₁ c' : Client} (h₁ : c.SameSelection c₁)
      (h : ({ c₁ with base := c₁.prepared.2 } : Client).SameSelection c') : Evolves c none c'
  | received {pkt : SeedLinkPacket} {c' : Client}
      (h : ({ c with base := c.base.updateStreamState pkt } : Client).SameSelection c') :
      Evolves c (some pkt) c'

theorem Client.Evolves.same {c₁ c' : Client} (h : c.Evolves none c₁) (h' : c₁.SameSelection c') :
    c.Evolves none c' := by
  cases h with
  | kept h => exact .kept (IsTrans.trans _ _ _ h h')
  | negotiated h₁ h => exact .negotiated h₁ (IsTrans.trans _ _ _ h h')

variable {c₁ : Client} {reconnect : Bool} {last : Int} {next : Option Int}

theorem wp_closeAndRaise_base {e : Exn} {g : Collect} (h₁ : c.SameSelection c₁) :
    wp (closeAndRaise reconnect e g) (fun r => c.Evolves r.1) (fun _ => c.Evolves none) c₁ := by
  simp only [closeAndRaise, wp_bind, wp_close, wp_ite, wp_pure, wp_raise]
  split <;> exact .kept ⟨h₁.cfg, h₁.env, h₁.base⟩

theorem wp_keepalivePass_base (h₁ : c.SameSelection c₁) :
    wp (keepalivePass last next) (fun r => c.Evolves r.1) (fun _ => c.Evolves none) c₁ := by
  have hsend : Steady (tryExcept (do let _ ← sendCommand (Commands.info "ID".toList))
      Exn.isSeedLinkError fun _ => close) :=
    keeps_tryExcept (.bind (steady.sendCommand _) fun _ => .pure _) fun _ => steady.closing
  have h₂ : c.SameSelection { c₁ with ticks := c₁.ticks + 1 } := ⟨h₁.cfg, h₁.env, h₁.base⟩
  rw [keepalivePass, wp_bind, wp_monotonic, wp_bind, wp_get]
  split
  · rw [wp_ite]
    split
    · rw [wp_bind]
      exact wp_mono (hsend _) (fun _ c' h => .kept (IsTrans.trans _ _ _ h₂ h))
        fun _ c' h => .kept (IsTrans.trans _ _ _ h₂ h)
    · exact .kept h₂
  · exact .kept h₂

theorem wp_handleFrame_base (x : Received) (h₁ : c.SameSelection c₁) :
    wp (handleFrame reconnect last next x) (fun r => c.Evolves r.1) (fun _ => c.Evolves none) c₁ := by
  cases x with
  | endOfStream => exact .kept ⟨h₁.cfg, h₁.env, h₁.base⟩
  | reply resp => exact wp_closeAndRaise_base h₁
  | packet frame =>
    simp only [handleFrame, wp_ite, wp_bind, wp_liftExcept, wp_monotonic, wp_modify, wp_pure]
    split
    · cases jsonErrorMessage frame.payload with
      | ok message => exact wp_closeAndRaise_base h₁
      | error e => exact .kept h₁
    · split
      · exact .kept h₁
      · exact .received ⟨h₁.cfg, h₁.env, by show Base.updateStreamState _ _ = _; rw [h₁.base]⟩

/-- The delay may be refused; an attempt that fails with another `SeedLinkError` than `SeedLinkAuthError` is to be
repeated. -/
theorem wp_reconnectAttempt {Q : Collect → Client → Prop} {E F : Stop → Client → Prop}
    (hsleep : ∀ e, c.cfg.sleep = .error e → E (.raised e) c)
    (hrun : wp (do connect true; negotiate; enterLoop : ClientM Collect) Q F c)
    (hagain : ∀ stop c', F stop c' → Q .reconnecting c'.closed) (hpass : ∀ stop c', F stop c' → E stop c') :
    wp reconnectAttempt Q E c := by
  simp only [reconnectAttempt, wp_bind, wp_get, wp_liftExcept]
  split
  on_goal 2 => exact hsleep _ ‹_›
  refine wp_tryExcept_of hrun (fun e c' h _ => ?_) fun stop c' h _ => hpass stop c' h
  simp only [wp_ite, wp_raise, wp_bind, wp_close, wp_pure]
  split
  · exact hpass _ _ h
  · exact hagain _ _ h

/-- A step of the generator yields a packet when it has updated the selection state with it, and
otherwise at most prepares a negotiation. -/
theorem wp_collectStep_base (reconnect : Bool) (g : Collect) :
    wp (collectStep reconnect g) (fun r => c.Evolves r.1) (fun _ => c.Evolves none) c := by
  cases g with
  | start =>
    simp only [collectStep, wp_bind, wp_get, wp_ite, wp_pure]
    have henter : ∀ c₁, c.Evolves none c₁ →
        wp enterLoop (fun _ => c.Evolves none) (fun _ => c.Evolves none) c₁ := fun c₁ h₁ =>
      wp_mono (steady.speaks.enterLoop c₁) (fun _ _ h => h₁.same h) fun _ _ h => h₁.same h
    split
    · exact wp_mono wp_negotiate_base (fun _ c₁ h => henter c₁ (.negotiated (refl c) h))
        fun _ _ h => .negotiated (refl c) h
    · exact henter c (.kept (refl c))
  | looping last next =>
    have htick : c.SameSelection { c with ticks := c.ticks + 1 } := ⟨rfl, rfl, rfl⟩
    simp only [collectStep, collectPass, wp_bind, wp_get, wp_ite, wp_pure, wp_monotonic, wp_tryExcept,
      wp_map]
    split
    · exact .kept (refl c)
    split
    · exact wp_closeAndRaise_base htick
    refine wp_mono (steady.reading.awaitFrame _) (fun received c' h => ?_) fun stop c' h => ?_
    · have h' := IsTrans.trans _ _ _ htick h
      cases received with
      | none => exact wp_keepalivePass_base h'
      | some x => exact wp_handleFrame_base x h'
    · have h' := IsTrans.trans _ _ _ htick h
      cases stop with
      | blocked => exact .kept h'
      | raised e =>
        show if _ then _ else _
        split
        · exact wp_closeAndRaise_base h'
        · exact .kept h'
  | reconnecting =>
    simp only [collectStep, wp_bind, wp_pure]
    have hrun : wp (do connect true; negotiate; enterLoop : ClientM Collect) (fun _ => c.Evolves none)
        (fun _ => c.Evolves none) c := by
      simp only [wp_bind]
      refine wp_mono (steady.connect true c) (fun _ c₁ h₁ => ?_) fun _ _ h₁ => .kept h₁
      refine wp_mono wp_negotiate_base (fun _ c₂ h₂ => ?_) fun _ _ h₂ => .negotiated h₁ h₂
      exact wp_mono (steady.speaks.enterLoop c₂) (fun _ c₃ h₃ => .negotiated h₁ (IsTrans.trans _ _ _ h₂ h₃))
        fun _ c₃ h₃ => .negotiated h₁ (IsTrans.trans _ _ _ h₂ h₃)
    exact wp_reconnectAttempt (fun _ _ => .kept (refl c)) hrun (fun _ _ h => h.same ⟨rfl, rfl, rfl⟩) fun _ _ h => h
  | finished => exact .kept (refl c)

end streaming

end SeedLink
