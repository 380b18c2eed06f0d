import SeedLink.Calls
import SeedLink.Lockstep

/-!
# When connecting fails

`connect` closes what it has opened when a `SeedLinkError` is raised during the handshake, or when the
deadline of its scope passes. A command that is not ASCII raises `UnicodeEncodeError` instead, and the
connection stays: this is how, and the only way how, `connect` raises and leaves a client that is not what
it was (`restores_iff`).
-/

namespace SeedLink

open StateExc Client

/-! ### What is to hold when `connect` raises -/

/-- `c'` has the connection that `c` has, or none and neither streams nor is in batch mode. -/
structure Client.Restored (c c' : Client) : Prop where
  disconnected : c.sock = none → c'.sock = none ∧ c'.streaming = false ∧ c'.batchActive = false
  connected : c.sock.isSome = true → c' = { c with inScope := c'.inScope }

def Client.Restores (handshake : Bool) (c : Client) : Prop :=
  ∀ e c', connect handshake c = .error (.raised e) c' → c.Restored c'

/-! ### What the server has to do with it -/

def Command.Unencodable (cmd : Command) : Prop := ∃ ch ∈ cmd.text, 128 ≤ ch.toNat

/-- The client inside the scope of `connect`, with a connection opened. -/
def Client.opened (c : Client) (sk : Sock) : Client :=
  { c.scoped with dials := c.dials + 1, sock := some sk, rb := c.rb.reset }

/-- HELLO is sent and answered by the two lines. -/
def Client.Greeted (c : Client) (line1 line2 : Text) (c' : Client) : Prop :=
  ∃ c₁ c₂, Exchanges c Commands.hello none c₁ ∧ readLine c₁ = .ok line1 c₂ ∧ readLine c₂ = .ok line2 c'

/-- The client that has taken over what HELLO says. -/
def Client.agreed (c : Client) (line1 line2 : Text) (protocol : Protocol) : Client :=
  { storeIdentity line1 line2 c with protocol := some protocol }

/-- The client that has taken over what BATCH is answered. -/
def Client.noted (c : Client) (cmd : Command) (reply : Option Text) : Client :=
  if cmd.text = "BATCH".toList then { c with batchActive := (reply.map parseReply).any (·.ok) } else c

/-- The commands are sent one after another, and their replies are accepted. -/
inductive Accepts : Client → List Command → Client → Prop
  | nil {c : Client} : Accepts c [] c
  | cons {c c₁ c' : Client} {cmd : Command} {reply : Option Text} {cmds : List Command}
      (h : Exchanges c cmd reply c₁) (hrest : Accepts (c₁.noted cmd reply) cmds c') : Accepts c (cmd :: cmds) c'

/-- The server takes the handshake as far as `cmd`: its greeting lets the client select a protocol, and it
accepts all that comes before `cmd`. -/
def Client.Reaches (c : Client) (cmd : Command) : Prop :=
  ∃ line1 line2 c₁ protocol before after c₂, c.Greeted line1 line2 c₁ ∧
    selectProtocol (parseHello line1 line2).2.2.2 c₁.cfg.requestedProtocol = .ok protocol ∧
    handshakePlan (c₁.agreed line1 line2 protocol) = .ok (before ++ cmd :: after) ∧
    Accepts (c₁.agreed line1 line2 protocol) before c₂

/-! ### Exchanges -/

section exchanges
variable {c c' : Client} {cmd : Command} {reply : Option Text}

theorem Command.wire_unencodable_iff : cmd.wire = .error .unicodeEncodeError ↔ cmd.Unencodable := by
  unfold Command.wire Command.Unencodable
  cases htext : Bytes.encodeAscii cmd.text with
  | none =>
    refine ⟨fun _ => ?_, fun _ => rfl⟩
    by_contra hno
    have hascii : ∀ ch ∈ cmd.text, ch.toNat < 128 := fun ch hch => by
      by_contra hlarge
      exact hno ⟨ch, hch, Nat.le_of_not_lt hlarge⟩
    rw [Bytes.encodeAscii_eq_some.2 ⟨hascii, rfl⟩] at htext
    cases htext
  | some text =>
    have hascii := (Bytes.encodeAscii_eq_some.1 htext).1
    refine ⟨fun h => ?_, fun ⟨ch, hch, hlarge⟩ => absurd (hascii ch hch) (Nat.not_lt.2 hlarge)⟩
    simp only at h
    split at h <;> cases h

theorem Command.not_unencodable (h : cmd.text.all (fun ch => ch.toNat < 128) = true) : ¬ cmd.Unencodable := by
  rintro ⟨ch, hch, hlarge⟩
  exact absurd (of_decide_eq_true (List.all_eq_true.1 h ch hch)) (Nat.not_lt.2 hlarge)

theorem sendCommand_of_exchanges (h : Exchanges c cmd reply c') :
    sendCommand cmd c = .ok (reply.map parseReply) c' := by
  cases h with
  | silent hp hw hs => rw [sendCommand_of_sends hw hs, hp]; rfl
  | @replied parser wire line resp c₁ _ hp hw hs hread hok =>
    rw [sendCommand_of_sends hw hs, hp]
    show (readLine >>= fun line => liftExcept (parser.run line) >>= fun resp => pure (some resp)) c₁ = _
    rw [seq_ok hread, hok, parseReply_of_run hok]
    rfl

theorem exchanges_of_sendCommand {resp : Option SeedLinkResponse} (h : sendCommand cmd c = .ok resp c') :
    ∃ reply, Exchanges c cmd reply c' ∧ resp = reply.map parseReply := by
  rcases sendCommand_cases c cmd with ⟨reply, c₁, hx, hrun⟩ | ⟨stop, c₁, hrun⟩
  · rw [hrun] at h
    cases h
    exact ⟨reply, hx, rfl⟩
  · rw [hrun] at h
    cases h

theorem Exchanges.connected (h : Exchanges c cmd reply c') (hc : c.Connected) : c'.Connected :=
  wp_ok (Q := fun _ => Client.Connected) (onConnection_sendCommand cmd c hc) (sendCommand_of_exchanges h)

theorem noted_sock : (c.noted cmd reply).sock = c.sock := by
  unfold Client.noted
  split <;> rfl

theorem Accepts.connected {cmds : List Command} (h : Accepts c cmds c') (hc : c.Connected) : c'.Connected := by
  induction h with
  | nil => exact hc
  | cons hx _ ih =>
    refine ih ?_
    rw [Client.Connected, noted_sock]
    exact hx.connected hc

theorem Client.Greeted.connected {line1 line2 : Text} (h : c.Greeted line1 line2 c') (hc : c.Connected) :
    c'.Connected := by
  obtain ⟨c₁, c₂, hx, hread₁, hread₂⟩ := h
  have hline : ∀ {c c' line}, readLine c = .ok line c' → c.Connected → c'.Connected := fun hread hc =>
    wp_ok (Q := fun _ => Client.Connected) (onConnection_readLine _ hc) hread
  exact hline hread₂ (hline hread₁ (hx.connected hc))

/-- The command is not sent, and nothing is closed. -/
theorem sendCommand_unencodable (hc : c.Connected) (h : cmd.Unencodable) :
    sendCommand cmd c = .error (.raised .unicodeEncodeError) c := by
  rw [sendCommand_connected hc, Command.wire_unencodable_iff.2 h]
  rfl

theorem doHello_of_greeted {line1 line2 : Text} {protocol : Protocol} (h : c.Greeted line1 line2 c')
    (hselect : selectProtocol (parseHello line1 line2).2.2.2 c'.cfg.requestedProtocol = .ok protocol) :
    doHello c = .ok ⟨⟩ (c'.agreed line1 line2 protocol) := by
  obtain ⟨c₁, c₂, hx, hread₁, hread₂⟩ := h
  unfold doHello
  rw [seq_ok (sendCommand_of_exchanges hx), seq_ok hread₁, seq_ok hread₂]
  show EStateM.bind (liftExcept (selectProtocol (parseHello line1 line2).2.2.2 c'.cfg.requestedProtocol)) _
    (storeIdentity line1 line2 c') = _
  rw [hselect]
  rfl

theorem sendHandshake_of_accepts {cmds : List Command} (h : Accepts c cmds c') (rest : List Command) :
    sendHandshake (cmds ++ rest) c = sendHandshake rest c' := by
  induction h with
  | nil => rfl
  | @cons c c₁ c' cmd reply cmds hx _ ih =>
    rw [← ih, List.cons_append, sendHandshake, seq_ok (sendCommand_of_exchanges hx)]
    unfold Client.noted
    split <;> rfl

end exchanges

/-! ### What is raised on the way -/

/-- What `connect` sees to: a `SeedLinkError` is caught by the handshake, a passed deadline by the scope. -/
def Handled (stop : Stop) (c : Client) : Prop :=
  stop = .blocked ∨ (∃ e : Exn, stop = .raised e ∧ e.isSeedLinkError = true) ∨
    (stop = .raised .cancelledError ∧ c.cfg.transport = .asyncio)

theorem Handled.seedLinkError {e : Exn} (h : e.isSeedLinkError = true) (c : Client) : Handled (.raised e) c :=
  .inr (.inl ⟨e, rfl, h⟩)

/-- Nothing else is raised. -/
def OnlyHandled {α : Type} (x : ClientM α) : Prop := ∀ c, wp x (fun _ _ => True) Handled c

namespace OnlyHandled
variable {α β : Type} {x : ClientM α}

theorem pure (a : α) : OnlyHandled (Pure.pure a) := fun _ => trivial

theorem blocked : OnlyHandled (throw .blocked : ClientM α) := fun _ => .inl rfl

theorem raise {e : Exn} (h : e.isSeedLinkError = true) : OnlyHandled (raise e : ClientM α) :=
  fun c => .seedLinkError h c

theorem liftExcept {y : Except Exn α} (h : ∀ e, y = .error e → e.isSeedLinkError = true) : OnlyHandled (liftExcept y) := by
  cases y with
  | ok a => exact pure a
  | error e => exact raise (h e rfl)

theorem modify (f : Client → Client) : OnlyHandled (modify f : ClientM PUnit) := fun _ => trivial

theorem bind {f : α → ClientM β} (hx : OnlyHandled x) (hf : ∀ a, OnlyHandled (f a)) : OnlyHandled (x >>= f) := by
  intro c
  rw [wp_bind]
  exact wp_mono (hx c) (fun a c' _ => hf a c') fun _ _ h => h

theorem get_bind {f : Client → ClientM α} (hf : ∀ c, OnlyHandled (f c)) : OnlyHandled (get >>= f) := fun c => hf c c

end OnlyHandled

theorem onlyHandled_ensure (n : Nat) : OnlyHandled (ensure n) := by
  intro c
  unfold wp ensure
  cases hsk : c.sock with
  | none => exact .seedLinkError rfl _
  | some sk =>
    rcases c.rb.prepareRoom n with ⟨_ | _, rb⟩
    · simp only
      rcases fillLoop c.deadline n sk.incoming rb with ⟨stop, rb', incoming⟩
      cases stop with
      | filled => trivial
      | blocked => exact .inl rfl
      | oserror | eof => exact .seedLinkError rfl _
      | timeout =>
        simp only [onTimeout]
        split_ifs with hk
        · exact .inr (.inr ⟨rfl, hk⟩)
        · exact .seedLinkError rfl _
        · exact .seedLinkError rfl _
    · trivial

theorem onlyHandled_readLineLoop : ∀ fuel searchFrom, OnlyHandled (readLineLoop fuel searchFrom)
  | 0, _ => .blocked
  | fuel + 1, searchFrom => by
    refine .get_bind fun c => ?_
    cases hscan : scanLine c.rb.buf c.rb.start c.rb.stop searchFrom with
    | error e => exact .bind (.modify _) fun _ => .raise (scanLine_error hscan)
    | ok found =>
      cases found with
      | none => exact .bind (onlyHandled_ensure _) fun _ => onlyHandled_readLineLoop fuel _
      | some found => exact .bind (.modify _) fun _ => .pure _

theorem onlyHandled_readLine : OnlyHandled readLine := onlyHandled_readLineLoop _ _

theorem onlyHandled_awaitReply (parser : Option ReplyParser) : OnlyHandled (awaitReply parser) := by
  cases parser with
  | none => exact .pure _
  | some parser =>
    exact .bind onlyHandled_readLine fun line => .bind (.liftExcept fun _ h => ReplyParser.run_error h) fun _ => .pure _

theorem wp_sendCommand_handled (cmd : Command) (c : Client) :
    wp (sendCommand cmd) (fun _ _ => True)
      (fun stop c' => Handled stop c' ∨ (stop = .raised .unicodeEncodeError ∧ cmd.Unencodable)) c := by
  refine wp_sendCommand (fun _ => .inl (.seedLinkError rfl _)) (fun e hw _ => ?_)
    (fun _ _ => .inl (.seedLinkError rfl _)) fun _ c' _ _ =>
      wp_mono (onlyHandled_awaitReply cmd.parse c') (fun _ _ h => h) fun _ _ h => .inl h
  rcases Command.wire_error hw with he | rfl
  · exact .inl (.seedLinkError he _)
  · exact .inr ⟨rfl, Command.wire_unencodable_iff.1 hw⟩

theorem onlyHandled_doHello : OnlyHandled doHello := by
  have hhello : OnlyHandled (sendCommand Commands.hello) := fun c =>
    wp_mono (wp_sendCommand_handled Commands.hello c) (fun _ _ h => h) fun _ _ h => h.resolve_right fun ⟨_, hun⟩ =>
      Command.not_unencodable (by decide) hun
  exact .bind hhello fun _ => .bind onlyHandled_readLine fun _ => .bind onlyHandled_readLine fun _ =>
    .bind (.modify _) fun _ => .get_bind fun _ => .bind (.liftExcept fun _ h => selectProtocol_error h) fun _ => .modify _

section handshake
variable {c c' : Client}

theorem greeted_of_doHello (h : doHello c = .ok ⟨⟩ c') :
    ∃ line1 line2 c₁ protocol, c.Greeted line1 line2 c₁ ∧
      selectProtocol (parseHello line1 line2).2.2.2 c₁.cfg.requestedProtocol = .ok protocol ∧
        c' = c₁.agreed line1 line2 protocol := by
  unfold doHello at h
  obtain ⟨resp, c₁, hsend, h⟩ := exists_of_seq h
  obtain ⟨line1, c₂, hread₁, h⟩ := exists_of_seq h
  obtain ⟨line2, c₃, hread₂, h⟩ := exists_of_seq h
  obtain ⟨reply, hx, -⟩ := exchanges_of_sendCommand hsend
  obtain rfl : reply = none := Option.isNone_iff_eq_none.1 (by rw [← Option.not_isSome, hx.isSome]; rfl)
  change EStateM.bind (liftExcept (selectProtocol (parseHello line1 line2).2.2.2 c₃.cfg.requestedProtocol)) _
    (storeIdentity line1 line2 c₃) = _ at h
  cases hselect : selectProtocol (parseHello line1 line2).2.2.2 c₃.cfg.requestedProtocol with
  | error e => rw [hselect] at h; cases h
  | ok protocol =>
    rw [hselect] at h
    cases h
    exact ⟨line1, line2, c₃, protocol, ⟨c₁, c₂, hx, hread₁, hread₂⟩, hselect, rfl⟩

/-- The handshake stops at a command that is not ASCII, or at something that `connect` sees to. -/
theorem wp_sendHandshake_handled : ∀ (cmds : List Command) (c : Client),
    wp (sendHandshake cmds) (fun _ _ => True) (fun stop c' => Handled stop c' ∨
      ∃ before cmd after c₂, cmds = before ++ cmd :: after ∧ Accepts c before c₂ ∧ cmd.Unencodable) c
  | [], _ => trivial
  | cmd :: rest, c => by
    unfold sendHandshake
    rw [wp_bind]
    cases hrun : sendCommand cmd c with
    | error stop c' =>
      refine (wp_iff_of_error hrun).2 ((wp_error (wp_sendCommand_handled cmd c) hrun).imp_right ?_)
      rintro ⟨-, hun⟩
      exact ⟨[], cmd, rest, c, rfl, .nil, hun⟩
    | ok resp c₁ =>
      obtain ⟨reply, hx, rfl⟩ := exchanges_of_sendCommand hrun
      have hrest : wp (sendHandshake rest) (fun _ _ => True) (fun stop c' => Handled stop c' ∨
          ∃ before cmd' after c₂, cmd :: rest = before ++ cmd' :: after ∧ Accepts c before c₂ ∧ cmd'.Unencodable)
          (c₁.noted cmd reply) := by
        refine wp_mono (wp_sendHandshake_handled rest (c₁.noted cmd reply)) (fun _ _ h => h) fun stop c' h => ?_
        refine h.imp_right ?_
        rintro ⟨before, cmd', after, c₂, rfl, haccepts, hun⟩
        exact ⟨cmd :: before, cmd', after, c₂, rfl, .cons hx haccepts, hun⟩
      refine (wp_iff_of_ok hrun).2 ?_
      rw [wp_ite]
      unfold Client.noted at hrest
      split
      · rename_i hbatch
        rwa [if_pos hbatch] at hrest
      · rename_i hbatch
        rwa [if_neg hbatch] at hrest

theorem wp_doHandshake_handled (c : Client) :
    wp doHandshake (fun _ _ => True) (fun stop c' =>
      (∃ c₁ : Client, c' = c₁.closed) ∨ stop = .blocked ∨ (stop = .raised .cancelledError ∧ c'.cfg.transport = .asyncio) ∨
        ∃ cmd, c.Reaches cmd ∧ cmd.Unencodable) c := by
  have hbody : wp (do
      doHello
      let c ← get
      let commands ← liftExcept (handshakePlan c)
      sendHandshake commands) (fun _ _ => True)
      (fun stop c' => Handled stop c' ∨ ∃ cmd, c.Reaches cmd ∧ cmd.Unencodable) c := by
    rw [wp_bind]
    cases hrun : doHello c with
    | error stop c' => exact (wp_iff_of_error hrun).2 (.inl (wp_error (onlyHandled_doHello c) hrun))
    | ok _ c₁ =>
      obtain ⟨line1, line2, c₂, protocol, hgreet, hselect, rfl⟩ := greeted_of_doHello hrun
      refine (wp_iff_of_ok hrun).2 ?_
      rw [wp_bind, wp_get, wp_bind, wp_liftExcept]
      cases hplan : handshakePlan (c₂.agreed line1 line2 protocol) with
      | error e => exact .inl (.seedLinkError (handshakePlan_error hplan) _)
      | ok cmds =>
        refine wp_mono (wp_sendHandshake_handled cmds _) (fun _ _ h => h) fun stop c' h => h.imp_right ?_
        rintro ⟨before, cmd, after, c₃, rfl, haccepts, hun⟩
        exact ⟨cmd, ⟨line1, line2, c₂, protocol, before, after, c₃, hgreet, hselect, hplan, haccepts⟩, hun⟩
  refine wp_tryExcept_of hbody (fun e c' _ _ => .inl ⟨c', rfl⟩) fun stop c' h hpass => ?_
  rcases h with (rfl | ⟨e, rfl, he⟩ | hcancel) | hreach
  · exact .inr (.inl rfl)
  · rw [hpass e rfl] at he
    cases he
  · exact .inr (.inr (.inl hcancel))
  · exact .inr (.inr (.inr hreach))

end handshake

/-! ### Connecting -/

section connecting
variable {c : Client}

theorem scoped_sock : c.scoped.sock = c.sock := by unfold Client.scoped; split <;> rfl

theorem scoped_dial : c.scoped.env.dial c.scoped.dials = c.env.dial c.dials := by
  unfold Client.scoped
  split <;> rfl

theorem opened_eq (sk : Sock) : ({ c.scoped with dials := c.scoped.dials + 1, sock := some sk, rb := c.scoped.rb.reset } :
    Client) = c.opened sk := by
  unfold Client.opened Client.scoped
  split <;> rfl

/-- Where the body of `connect` raises. -/
inductive Client.Fails (c : Client) (handshake : Bool) : Stop → Client → Prop
  | connected (hsk : c.sock.isSome = true) {e : Exn} (he : e ≠ .cancelledError) :
      Fails c handshake (.raised e) c.scoped
  | disconnected (hsk : c.sock = none) {stop : Stop} {c' : Client}
      (h : c'.sock = none ∧ c'.streaming = false ∧ c'.batchActive = false) : Fails c handshake stop c'
  | blocked {c' : Client} (hsk : c.sock = none) : Fails c handshake .blocked c'
  | cancelled {c' : Client} (hsk : c.sock = none) (hk : c'.cfg.transport = .asyncio) :
      Fails c handshake (.raised .cancelledError) c'
  | reached {stop : Stop} {c' : Client} {sk : Sock} {cmd : Command} (hhandshake : handshake = true)
      (hsk : c.sock = none) (hdial : c.env.dial c.dials = .opened sk) (hreach : (c.opened sk).Reaches cmd)
      (hun : cmd.Unencodable) : Fails c handshake stop c'

theorem wp_connect_body (hc : c.Rested) (handshake : Bool) :
    wp (do connectSocket; if handshake then doHandshake) (fun _ _ => True) (c.Fails handshake) c.scoped := by
  have hstream : c.scoped.streaming = c.streaming := by unfold Client.scoped; split <;> rfl
  have hbatch : c.scoped.batchActive = c.batchActive := by unfold Client.scoped; split <;> rfl
  rw [wp_bind]
  refine wp_connectSocket (fun hsome => ?_) (fun sk hsk hdial => ?_) fun d hsk _ _ => ?_
  · exact .connected (scoped_sock ▸ hsome) nofun
  · rw [scoped_sock] at hsk
    rw [scoped_dial] at hdial
    rw [opened_eq, wp_ite]
    split
    · rename_i hhandshake
      refine wp_mono (wp_doHandshake_handled (c.opened sk)) (fun _ _ h => h) fun stop c' h => ?_
      rcases h with ⟨c₁, rfl⟩ | rfl | ⟨rfl, hk⟩ | ⟨cmd, hreach, hun⟩
      · exact .disconnected hsk ⟨rfl, rfl, rfl⟩
      · exact .blocked hsk
      · exact .cancelled hsk hk
      · exact .reached hhandshake hsk hdial hreach hun
    · trivial
  · rw [scoped_sock] at hsk
    obtain ⟨hs, hb, -⟩ := hc hsk
    exact .disconnected hsk ⟨scoped_sock.trans hsk, hstream.trans hs, hbatch.trans hb⟩

theorem wp_connect (hc : c.Rested) (handshake : Bool) :
    wp (connect handshake) (fun _ _ => True) (fun stop c' => (∀ e, stop = .raised e → c.Restored c') ∨
      (handshake = true ∧ c.sock = none ∧ ∃ sk cmd, c.env.dial c.dials = .opened sk ∧ (c.opened sk).Reaches cmd ∧
        cmd.Unencodable)) c := by
  have hsteady : Steady (do connectSocket; if handshake then doHandshake) :=
    .bind steady_connectSocket fun _ => .ite steady.doHandshake (.pure _)
  have hclosed : ∀ (hsk : c.sock = none) (c' : Client), c.Restored c'.closed := fun hsk c' =>
    ⟨fun _ => ⟨rfl, rfl, rfl⟩, fun hsome => by rw [hsk] at hsome; cases hsome⟩
  rw [connect, wp_bind, wp_get]
  refine wp_timeoutScope (wp_mono (wp_and (hsteady c.scoped) (wp_connect_body hc handshake)) ?_ ?_)
  · exact fun _ c' ⟨hsame, _⟩ => ⟨hsame.cfg.trans scoped_cfg, trivial⟩
  · intro stop c' ⟨hsame, hfails⟩
    have hcfg : c'.cfg = c.cfg := hsame.cfg.trans scoped_cfg
    refine ⟨hcfg, ?_⟩
    cases hfails with
    | @connected hsk e he =>
      rw [if_neg fun h => he (Stop.raised.inj h.2)]
      refine .inl fun _ _ => ⟨fun hnone => ?_, fun _ => ?_⟩
      · rw [hnone] at hsk
        cases hsk
      · unfold Client.unscoped Client.scoped
        split_ifs <;> rfl
    | disconnected hsk h =>
      split
      · exact .inl fun _ _ => hclosed hsk _
      · refine .inl fun _ _ => ⟨fun _ => ?_, fun hsome => by rw [hsk] at hsome; cases hsome⟩
        unfold Client.unscoped
        split_ifs <;> exact h
    | blocked hsk =>
      rw [if_neg fun h => Stop.noConfusion h.2]
      exact .inl fun _ he => by cases he
    | cancelled hsk hk =>
      rw [if_pos ⟨hcfg ▸ hk, rfl⟩]
      exact .inl fun _ _ => hclosed hsk _
    | reached hhandshake hsk hdial hreach hun =>
      split <;> exact .inr ⟨hhandshake, hsk, _, _, hdial, hreach, hun⟩

/-- At a command that is not ASCII the handshake stops, and the connection is still open. -/
theorem doHandshake_of_reaches {cmd : Command} (hc : c.Connected) (hreach : c.Reaches cmd) (hun : cmd.Unencodable) :
    ∃ c', doHandshake c = .error (.raised .unicodeEncodeError) c' ∧ c'.Connected := by
  obtain ⟨line1, line2, c₁, protocol, before, after, c₂, hgreet, hselect, hplan, haccepts⟩ := hreach
  have hc₂ : c₂.Connected := haccepts.connected (hgreet.connected hc)
  have hrun : (do
      doHello
      let c ← get
      let commands ← liftExcept (handshakePlan c)
      sendHandshake commands) c = .error (.raised .unicodeEncodeError) c₂ := by
    rw [seq_ok (doHello_of_greeted hgreet hselect)]
    show (liftExcept (handshakePlan (c₁.agreed line1 line2 protocol)) >>= sendHandshake) (c₁.agreed line1 line2 protocol) = _
    rw [hplan]
    show sendHandshake (before ++ cmd :: after) (c₁.agreed line1 line2 protocol) = _
    rw [sendHandshake_of_accepts haccepts, sendHandshake, seq_error (sendCommand_unencodable hc₂ hun)]
  have hwp : wp doHandshake (fun _ _ => False) (fun stop c' => stop = .raised .unicodeEncodeError ∧ c' = c₂) c := by
    unfold doHandshake
    rw [wp_tryExcept]
    exact (wp_iff_of_error hrun).2 ⟨rfl, rfl⟩
  obtain ⟨_, _, hrun', rfl, rfl⟩ := wp_exists_error hwp
  exact ⟨_, hrun', hc₂⟩

theorem connect_of_reaches {sk : Sock} {cmd : Command} (hsk : c.sock = none) (hdial : c.env.dial c.dials = .opened sk)
    (hreach : (c.opened sk).Reaches cmd) (hun : cmd.Unencodable) :
    ∃ c', connect true c = .error (.raised .unicodeEncodeError) c' ∧ c'.Connected := by
  obtain ⟨c₁, hrun, hc₁⟩ := doHandshake_of_reaches (show (c.opened sk).Connected from rfl) hreach hun
  have hbody : (do connectSocket; if (true : Bool) then doHandshake) c.scoped =
      .error (.raised .unicodeEncodeError) c₁ := by
    have hopen : wp connectSocket (fun _ c' => c' = c.opened sk) (fun _ _ => False) c.scoped := by
      refine wp_connectSocket (fun hsome => ?_) (fun sk' _ hdial' => ?_) fun d _ hdial' hno => ?_
      · rw [scoped_sock, hsk] at hsome
        cases hsome
      · rw [scoped_dial, hdial] at hdial'
        cases hdial'
        exact opened_eq sk
      · rw [scoped_dial, hdial] at hdial'
        exact hno sk hdial'.symm
    obtain ⟨_, _, hopened, rfl⟩ := wp_exists hopen
    rw [seq_ok hopened]
    exact hrun
  have hcfg : c₁.cfg = c.cfg := by
    have hsteady : Steady (do connectSocket; if (true : Bool) then doHandshake) :=
      .bind steady_connectSocket fun _ => .ite steady.doHandshake (.pure _)
    exact (hsteady.error hbody).cfg.trans scoped_cfg
  have hwp : wp (connect true) (fun _ _ => False)
      (fun stop c' => stop = .raised .unicodeEncodeError ∧ c'.Connected) c := by
    rw [connect, wp_bind, wp_get]
    refine wp_timeoutScope ((wp_iff_of_error hbody).2 ⟨hcfg, ?_⟩)
    rw [if_neg fun h => by cases h.2]
    refine ⟨rfl, ?_⟩
    unfold Client.unscoped
    split_ifs <;> exact hc₁
  obtain ⟨_, c', hrun', rfl, hc'⟩ := wp_exists_error hwp
  exact ⟨c', hrun', hc'⟩

end connecting

/-- When `connect` raises, a client is what it was before, unless the handshake came to a command that is not
ASCII: then its connection stays open. -/
theorem restores_iff {c : Client} [Externals] (h : c.Reachable) (handshake : Bool) :
    c.Restores handshake ↔ ¬ (handshake = true ∧ c.sock = none ∧ ∃ sk cmd, c.env.dial c.dials = .opened sk ∧
      (c.opened sk).Reaches cmd ∧ cmd.Unencodable) := by
  constructor
  · rintro hrestores ⟨rfl, hsk, sk, cmd, hdial, hreach, hun⟩
    obtain ⟨c', hrun, hc'⟩ := connect_of_reaches hsk hdial hreach hun
    have hnone := ((hrestores _ _ hrun).disconnected hsk).1
    rw [Client.Connected, hnone] at hc'
    cases hc'
  · exact fun hno e c' hrun => (wp_error (wp_connect h.rested handshake) hrun).resolve_right hno e rfl

theorem Client.Greeted.cfg {c c' : Client} {line1 line2 : Text} (h : c.Greeted line1 line2 c') : c'.cfg = c.cfg := by
  obtain ⟨c₁, c₂, hx, hread₁, hread₂⟩ := h
  have hline : ∀ {c c' line}, readLine c = .ok line c' → c'.cfg = c.cfg := fun hread => (steady.reading.readLine.ok hread).cfg
  rw [hline hread₂, hline hread₁]
  exact ((steady.sendCommand Commands.hello).ok (sendCommand_of_exchanges hx)).cfg

/-- Such a command names the client or carries its credentials. -/
theorem Client.Reaches.command {c : Client} {cmd : Command} (h : c.Reaches cmd) (hun : cmd.Unencodable) :
    cmd = Commands.useragent c.cfg.clientname c.cfg.clientversion c.cfg.clientId ∨
      ∃ auth, authCommands c.cfg.auth = .ok auth ∧ cmd ∈ auth := by
  obtain ⟨line1, line2, c₁, protocol, before, after, c₂, hgreet, -, hplan, -⟩ := h
  have hmem : cmd ∈ before ++ cmd :: after := List.mem_append_right _ List.mem_cons_self
  have hbatch : ∀ {p : Bool}, cmd ∈ (if p = true then [Commands.batch] else []) → False := by
    intro p hmem
    split at hmem
    · obtain rfl := List.mem_singleton.1 hmem
      exact Command.not_unencodable (by decide) hun
    · cases hmem
  change planHandshake (some protocol) _ c₁.cfg.clientname c₁.cfg.clientversion c₁.cfg.clientId c₁.cfg.auth
    c₁.cfg.wantBatch = _ at hplan
  rw [hgreet.cfg] at hplan
  generalize before ++ cmd :: after = commands at hmem hplan
  unfold planHandshake at hplan
  simp only at hplan
  split at hplan
  · obtain ⟨auth, hauth, hrest⟩ := exists_of_bind_ok hplan
    cases hrest
    rcases List.mem_append.1 hmem with hmem | hmem
    · rcases List.mem_cons.1 hmem with rfl | hmem
      · exact absurd hun (Command.not_unencodable (by decide))
      rcases List.mem_cons.1 hmem with rfl | hmem
      · exact .inl rfl
      · exact .inr ⟨auth, hauth, hmem⟩
    · exact (hbatch hmem).elim
  · cases hplan
    rcases List.mem_append.1 hmem with hmem | hmem
    · split at hmem
      · obtain rfl := List.mem_singleton.1 hmem
        exact absurd hun (Command.not_unencodable (by decide))
      · cases hmem
    · exact (hbatch hmem).elim

/-! ### A client with an accent in its name -/

/-- Its server speaks v4 and accepts SLPROTO. -/
def accented : Client :=
  { cfg := { clientname := some "Zo\u00e9".toList },
    env := ⟨fun _ => .opened
      { incoming := [.data (Bytes.lit "SeedLink v4.0 :: SLPROTO:4.0" ++ crlf ++ Bytes.lit "ORG" ++ crlf ++
          Bytes.lit "OK" ++ crlf)],
        peer := fun _ pending _ => .ok pending }, fun _ => 0, fun _ => true⟩ }

/-- `connect` raises `UnicodeEncodeError` and leaves its connection. -/
def leaks (c : Client) : Bool :=
  match connect true c with
  | .error (.raised .unicodeEncodeError) c' => c'.sock.isSome
  | _ => false

theorem exists_of_leaks {c : Client} (h : leaks c = true) :
    ∃ c', connect true c = .error (.raised .unicodeEncodeError) c' ∧ c'.sock.isSome = true := by
  unfold leaks at h
  split at h
  · exact ⟨_, ‹_›, h⟩
  · cases h

theorem not_restores_accented : ¬ accented.Restores true := by
  intro h
  obtain ⟨c', hrun, hsome⟩ := exists_of_leaks (c := accented) (by decide +kernel)
  rw [((h _ _ hrun).disconnected rfl).1] at hsome
  cases hsome

/-- The client is new, not connected, and raises with a connection. -/
theorem connect_leaks : ¬ ∀ c : Client, @Client.Reachable Externals.bare c → ∀ handshake, c.Restores handshake :=
  fun h => not_restores_accented (h accented (@Client.Reachable.new Externals.bare accented.cfg accented.env {}) true)

/-- Without a handshake nothing is sent; with it the server takes this client to its name. -/
theorem restores_iff_accented : accented.Restores false ∧
    ∃ sk cmd, accented.env.dial accented.dials = .opened sk ∧ (accented.opened sk).Reaches cmd ∧ cmd.Unencodable := by
  have hreach : @Client.Reachable Externals.bare accented :=
    @Client.Reachable.new Externals.bare accented.cfg accented.env {}
  refine ⟨(@restores_iff accented Externals.bare hreach false).2 fun h => Bool.noConfusion h.1, ?_⟩
  by_contra hno
  exact not_restores_accented ((@restores_iff accented Externals.bare hreach true).2 fun h => hno h.2.2)

end SeedLink
