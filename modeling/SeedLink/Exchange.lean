import SeedLink.Frames

/-!
# Commands and their answers

What sending a command and reading its answer do, as rules for `sendCommand`, for timeout scopes and
for the loop that collects an INFO reply. The text of such a reply is a function of the bytes on the
stream (`InfoText`).
-/

namespace SeedLink

open StateExc Client

/-! ### Sending -/

theorem wire_eq {cmd : Command} {wire : Bytes} (h : cmd.wire = .ok wire) :
    ∃ text, Bytes.encodeAscii cmd.text = some text ∧ wire = text ++ cmd.terminator ∧
      wire.length ≤ maxCommandLen := by
  unfold Command.wire at h
  split at h
  · cases h
  · rename_i text htext
    simp only at h
    split at h
    · cases h
    · rename_i hlen
      cases h
      exact ⟨text, htext, rfl, Nat.le_of_not_gt hlen⟩

/-- The client once the peer has been handed `wire` and made `incoming` of the reads to come. -/
def Client.answered (c : Client) (sk : Sock) (wire : Bytes) (incoming : List Recv) : Client :=
  { c with sock := some { sk with incoming, sent := sk.sent ++ [wire] }, sent := c.sent ++ [wire] }

/-- `c'` is `c` after sending `wire`. -/
def Client.Sends (c : Client) (wire : Bytes) (c' : Client) : Prop :=
  ∃ sk incoming, c.sock = some sk ∧ sk.peer sk.sent sk.incoming wire = .ok incoming ∧
    c' = c.answered sk wire incoming

/-- The part of `_send_command` behind the sending. -/
def awaitReply : Option ReplyParser → ClientM (Option SeedLinkResponse)
  | none => return none
  | some parser => do
    let line ← readLine
    return some (← liftExcept (parser.run line))

theorem sendCommand_eq (cmd : Command) : sendCommand cmd = (do
    if (← get).sock.isNone then raise (seedLinkError "Not connected")
    let wire ← liftExcept cmd.wire
    sendall wire
    awaitReply cmd.parse) := by
  unfold sendCommand awaitReply
  cases cmd.parse <;> rfl

section sending
variable {c : Client} {cmd : Command} {E : Stop → Client → Prop}

theorem Client.Sends.connected {wire : Bytes} {c' : Client} (h : c.Sends wire c') : c.sock.isSome = true := by
  obtain ⟨sk, incoming, hsk, -, -⟩ := h
  rw [hsk]
  rfl

theorem sendall_of_sends {wire : Bytes} {c' : Client} (h : c.Sends wire c') : sendall wire c = .ok ⟨⟩ c' := by
  obtain ⟨sk, incoming, hsk, hpeer, rfl⟩ := h
  simp [sendall, hsk, hpeer, Client.answered]

theorem sendall_error {wire : Bytes} {sk : Sock} {detail : String} (hsk : c.sock = some sk)
    (hpeer : sk.peer sk.sent sk.incoming wire = .error detail) :
    sendall wire c = .error (.raised (seedLinkError s!"send failed: {detail}")) c.closed := by
  simp [sendall, hsk, hpeer]

/-- A command is refused, cannot be sent, or is sent and its reply awaited. -/
theorem wp_sendCommand {Q : Option SeedLinkResponse → Client → Prop}
    (hclosed : c.sock = none → E (.raised (seedLinkError "Not connected")) c)
    (hrefused : ∀ e, cmd.wire = .error e → c.sock.isSome = true → E (.raised e) c)
    (hfailed : ∀ detail : String, c.sock.isSome = true →
      E (.raised (seedLinkError s!"send failed: {detail}")) c.closed)
    (hsent : ∀ wire c', cmd.wire = .ok wire → c.Sends wire c' → wp (awaitReply cmd.parse) Q E c') :
    wp (sendCommand cmd) Q E c := by
  rw [sendCommand_eq]
  cases hsk : c.sock with
  | none => simpa [hsk] using hclosed hsk
  | some sk =>
    have hsome : c.sock.isSome = true := by rw [hsk]; rfl
    simp only [wp_bind, wp_get, hsk, Option.isNone_some, Bool.false_eq_true, if_false]
    cases hw : cmd.wire with
    | error e => simpa using hrefused e hw hsome
    | ok wire =>
      simp only [liftExcept, wp_pure]
      cases hpeer : sk.peer sk.sent sk.incoming wire with
      | error detail => exact (wp_iff_of_error (sendall_error hsk hpeer)).2 (hfailed detail hsome)
      | ok incoming =>
        have hsends : c.Sends wire (c.answered sk wire incoming) := ⟨sk, incoming, hsk, hpeer, rfl⟩
        exact (wp_iff_of_ok (sendall_of_sends hsends)).2 (hsent wire _ hw hsends)

/-- With a connection it is encoded and sent. -/
theorem sendCommand_connected (hc : c.sock.isSome = true) : sendCommand cmd c = (do
    let wire ← liftExcept cmd.wire
    sendall wire
    awaitReply cmd.parse) c := by
  have hnone : ¬ c.sock.isNone = true := by
    rw [← Option.not_isSome, hc]
    exact Bool.false_ne_true
  rw [sendCommand_eq, seq_ok (get_run c), if_neg hnone]

theorem sendCommand_of_sends {wire : Bytes} {c' : Client} (hw : cmd.wire = .ok wire)
    (h : c.Sends wire c') : sendCommand cmd c = awaitReply cmd.parse c' := by
  rw [sendCommand_connected h.connected, hw]
  exact seq_ok (sendall_of_sends h)

/-- The peer's end of the connection does not take `wire`. -/
def Client.Refuses (c : Client) (wire : Bytes) : Prop :=
  ∃ sk detail, c.sock = some sk ∧ sk.peer sk.sent sk.incoming wire = .error detail

theorem Client.sends_or_refuses (h : c.sock.isSome = true) (wire : Bytes) :
    (∃ c', c.Sends wire c') ∨ c.Refuses wire := by
  obtain ⟨sk, hsk⟩ := Option.isSome_iff_exists.1 h
  cases hpeer : sk.peer sk.sent sk.incoming wire with
  | ok incoming => exact .inl ⟨_, sk, incoming, hsk, hpeer, rfl⟩
  | error detail => exact .inr ⟨sk, detail, hsk, hpeer⟩

theorem sendCommand_of_refuses {wire : Bytes} (hw : cmd.wire = .ok wire) (h : c.Refuses wire) :
    ∃ e, e.isSeedLinkError = true ∧ sendCommand cmd c = .error (.raised e) c.closed := by
  obtain ⟨sk, detail, hsk, hpeer⟩ := h
  refine ⟨seedLinkError s!"send failed: {detail}", rfl, ?_⟩
  rw [sendCommand_connected (by rw [hsk]; rfl), hw]
  exact seq_error (x := sendall wire) (sendall_error hsk hpeer)

end sending

/-! ### What a command leaves as it is -/

/-- Everything of a client but its connection, its buffer and what it has sent. -/
def Client.frame (c : Client) : Client :=
  { c with sock := none, rb := RecvBuf.fresh, sent := [] }

section frame
variable {c c' : Client} {wire : Bytes}

theorem Client.Sends.frame (h : c.Sends wire c') : c'.frame = c.frame := by
  obtain ⟨sk, incoming, -, -, rfl⟩ := h
  rfl

theorem Client.Sends.rb (h : c.Sends wire c') : c'.rb = c.rb := by
  obtain ⟨sk, incoming, -, -, rfl⟩ := h
  rfl

theorem Client.Sends.isSome (h : c.Sends wire c') : c'.sock.isSome = true := by
  obtain ⟨sk, incoming, -, -, rfl⟩ := h
  rfl

theorem Client.frame_of_core (h : c'.core = c.core) : c'.frame = c.frame :=
  (congrArg Client.frame h :)

section
variable (h : c'.frame = c.frame)
include h

theorem Client.cfg_of_frame : c'.cfg = c.cfg := (congrArg Client.cfg h :)

theorem Client.protocol_of_frame : c'.protocol = c.protocol := (congrArg Client.protocol h :)

theorem Client.inScope_of_frame : c'.inScope = c.inScope := (congrArg Client.inScope h :)

end

end frame

theorem Client.ReadFails.cfg {c c' : Client} {s : Bytes} {later : List Recv} {stop : Stop}
    (h : ReadFails c s later stop c') : c'.cfg = c.cfg := by
  cases h with
  | closed _ _ hc => exact cfg_of_core (c := c.closed) hc
  | timedOut _ _ _ _ hc => exact cfg_of_core hc
  | cancelled _ _ _ _ hc => exact cfg_of_core hc
  | blocked _ _ hc => exact cfg_of_core hc

theorem Client.ReadFails.wf {c c' : Client} {s : Bytes} {later : List Recv} {stop : Stop}
    (h : ReadFails c s later stop c') : c'.rb.WF := by
  cases h with
  | closed _ _ _ hwf => exact hwf
  | timedOut _ _ _ hat => exact hat.wf
  | cancelled _ _ _ hat => exact hat.wf
  | blocked _ hat => exact hat.wf

theorem RecvFails.wf [Pymseed] {c c' : Client} {s : Bytes} {later : List Recv} {stop : Stop}
    (h : RecvFails c s later stop c') : c'.rb.WF := by
  cases h with
  | read h => exact h.wf
  | unexpected _ h => exact h.wf
  | rejected _ _ _ h => exact h.wf
  | lost _ _ _ h => exact h.wf
  | awaiting _ _ _ h => exact h.wf

theorem RecvFails.cfg [Pymseed] {c c' : Client} {s : Bytes} {later : List Recv} {stop : Stop}
    (h : RecvFails c s later stop c') : c'.cfg = c.cfg := by
  cases h with
  | read h => exact h.cfg
  | unexpected _ _ hc => exact cfg_of_core hc
  | rejected _ _ _ _ hc => exact cfg_of_core hc
  | lost _ _ _ _ hc => exact cfg_of_core hc
  | awaiting _ _ _ h => exact h.cfg

/-- Every connected client with a well-formed buffer has something to read, be it nothing. -/
theorem Client.exists_feeds {c : Client} (hwf : c.rb.WF) (h : c.sock.isSome = true) :
    ∃ s later, c.Feeds s later ∧ Stalls c.deadline later := by
  obtain ⟨sk, hsk⟩ := Option.isSome_iff_exists.1 h
  obtain ⟨s, later, hf, hstall, -⟩ := Feeds.exists_of_at (c := c) ⟨hwf, rfl, sk, hsk, rfl⟩
  exact ⟨s, later, hf, hstall⟩

/-! ### Timeout scopes -/

/-- The client inside a timeout scope. -/
def Client.scoped (c : Client) : Client :=
  if c.cfg.transport = .socket then c else { c with inScope := c.cfg.timeout.isSome }

/-- The client behind a timeout scope. -/
def Client.unscoped (c : Client) : Client :=
  if c.cfg.transport = .socket then c else { c with inScope := false }

section scopes
variable {c : Client}

@[simp] theorem scoped_cfg : c.scoped.cfg = c.cfg := by unfold Client.scoped; split <;> rfl

@[simp] theorem scoped_protocol : c.scoped.protocol = c.protocol := by
  unfold Client.scoped; split <;> rfl

@[simp] theorem scoped_rb : c.scoped.rb = c.rb := by unfold Client.scoped; split <;> rfl

@[simp] theorem unscoped_protocol : c.unscoped.protocol = c.protocol := by
  unfold Client.unscoped; split <;> rfl

end scopes

@[simp] theorem wp_monotonic {Q : Int → Client → Prop} {E : Stop → Client → Prop} {c : Client} :
    wp monotonic Q E c = Q (c.env.clock c.ticks) { c with ticks := c.ticks + 1 } := rfl

theorem wp_timeoutScope {α : Type} {Q : α → Client → Prop} {E : Stop → Client → Prop} {c : Client}
    {message : String} {x : ClientM α}
    (h : wp x (fun a c' => c'.cfg = c.cfg ∧ Q a c'.unscoped)
      (fun stop c' => c'.cfg = c.cfg ∧
        if c.cfg.transport = .asyncio ∧ stop = .raised .cancelledError then
          E (.raised (.seedLinkTimeout message)) c'.unscoped.closed
        else E stop c'.unscoped) c.scoped) :
    wp (timeoutScope message x) Q E c := by
  unfold timeoutScope
  simp only [wp_bind, wp_get, wp_ite]
  by_cases hk : c.cfg.transport = .socket
  · have hk' : ¬ c.cfg.transport = .asyncio := by rw [hk]; exact Transport.noConfusion
    rw [if_pos hk]
    rw [Client.scoped, if_pos hk] at h
    refine wp_mono h (fun a c' ⟨hc, hQ⟩ => ?_) (fun stop c' ⟨hc, hE⟩ => ?_)
    · rwa [Client.unscoped, if_pos (hc ▸ hk)] at hQ
    · rw [if_neg fun h => hk' h.1] at hE
      rwa [Client.unscoped, if_pos (hc ▸ hk)] at hE
  · have hk' : c.cfg.transport = .asyncio := by
      cases ht : c.cfg.transport with
      | socket => exact absurd ht hk
      | asyncio => rfl
    rw [if_neg hk]
    rw [Client.scoped, if_neg hk] at h
    simp only [wp_modify, wp_tryCatch, wp_ite, wp_bind, wp_close, wp_raise, wp_throw, wp_pure]
    refine wp_mono h (fun a c' ⟨hc, hQ⟩ => ?_) (fun stop c' ⟨hc, hE⟩ => ?_)
    · rwa [Client.unscoped, if_neg (hc ▸ hk)] at hQ
    · have hu : c'.unscoped = { c' with inScope := false } := if_neg (hc ▸ hk)
      simpa only [hk', true_and, hu] using hE

/-! ### INFO replies -/

/-- `s` is what can be read up to the next failure once the INFO command has been sent. -/
def Client.Answers (level : Text) (c : Client) (s : Bytes) : Prop :=
  c.streaming = false ∧ ∃ wire c₁ later, (Commands.info level).wire = .ok wire ∧
    c.scoped.Sends wire c₁ ∧ c₁.Feeds s later ∧ Stalls c₁.deadline later

theorem Client.Feeds.length_le_bytesAhead {c : Client} {s : Bytes} {later : List Recv}
    (h : c.Feeds s later) : s.length ≤ c.bytesAhead := by
  have hs : c.stream.length = c.bytesAhead := by
    rw [Client.stream, List.length_append, h.wf.length_unread, Client.bytesAhead]
    cases c.sock <;> rfl
  rw [← hs, h.stream, List.length_append]
  exact Nat.le_add_right _ _

def isInfoPayload (frame : RawFrame) : Prop :=
  frame.payloadFormat = formatJson ∨ frame.payloadFormat = formatXml

section info
variable [Pymseed] {p : Option Protocol} {s : Bytes} {later : List Recv} {c : Client} {x : Received}
  {frame : RawFrame} {n : Nat} {text : Text}

/-- The reply at the front of the stream: the text of its frames up to the first that does not
continue. -/
inductive InfoText (p : Option Protocol) : Bytes → Text → Prop
  | last {s : Bytes} {frame : RawFrame} {n : Nat} (h : Takes p s (.packet frame) n)
      (hf : isInfoPayload frame) (hc : frame.infoContinues = false) :
      InfoText p s (Bytes.decodeUtf8 frame.payload)
  | more {s : Bytes} {frame : RawFrame} {n : Nat} {text : Text} (h : Takes p s (.packet frame) n)
      (hf : isInfoPayload frame) (hc : frame.infoContinues = true)
      (hrest : InfoText p (s.drop n) text) : InfoText p s (Bytes.decodeUtf8 frame.payload ++ text)

theorem Takes.bounds (h : Takes p s (.packet frame) n) : 0 < n ∧ n ≤ s.length := by
  cases h with
  | packetV4 _ _ h =>
    obtain ⟨header, -, rfl, hn, -⟩ := h.body
    have h17 : headsizeV4 = 17 := rfl
    exact ⟨by unfold HeaderV4.total; omega, hn⟩
  | packetV3 _ _ h =>
    obtain ⟨header, m, -, -, hm, -, rfl⟩ := h.body
    have h8 : headsizeV3 = 8 := rfl
    have := h.header_le
    rw [List.length_drop] at hm
    omega

/-- An INFO reply continues in v3 mode only. -/
theorem Takes.infoContinues (h : Takes p s (.packet frame) n) (hp : p = some .v4) :
    frame.infoContinues = false := by
  cases h with
  | packetV3 hp' => exact absurd hp hp'
  | packetV4 _ _ h =>
    obtain ⟨header, -, -, -, hf⟩ := h.body
    unfold frameV4 at hf
    split at hf <;> cases hf
    rfl

/-- What is at the front is received, whatever comes behind it. -/
theorem recvFrame_of_takes (h : c.Feeds s later) (ht : Takes c.protocol s x n) (hs : x.Short n) :
    ∃ c', recvFrame c = .ok x c' ∧ c'.Feeds (s.drop n) later ∧ c'.core = c.core := by
  obtain ⟨x', c', hrun, n', ht', hf, hc⟩ := wp_exists <|
    wp_recvFrame (E := fun _ _ => False)
      (Q := fun x c' => ∃ n, Takes c.protocol s x n ∧ c'.Feeds (s.drop n) later ∧ c'.core = c.core)
      h (.inl ⟨x, n, ht, hs⟩) fun x n c' ht hf hc => ⟨n, ht, hf, hc⟩
  obtain ⟨rfl, rfl⟩ := ht'.unique ht
  exact ⟨c', hrun, hf, hc⟩

end info

section infoLoop
variable [Externals] {s : Bytes} {later : List Recv} {c : Client} {text : Text}

theorem infoLoop_of_infoText (h : InfoText c.protocol s text) {fuel : Nat} (hfuel : s.length < fuel)
    (chunks : List Text) (hf : c.Feeds s later) :
    ∃ c', infoLoop fuel chunks c = .ok (chunks.flatten ++ text) c' ∧ c'.core = c.core := by
  generalize hp : c.protocol = p at h
  induction h generalizing c fuel chunks with
  | @last s frame n ht hi hc =>
    subst hp
    obtain ⟨c', hrun, -, hcore⟩ := recvFrame_of_takes hf ht trivial
    cases fuel with
    | zero => omega
    | succ fuel =>
      refine ⟨c', ?_, hcore⟩
      unfold isInfoPayload at hi
      rw [infoLoop, seq_ok hrun]
      simp only [if_pos hi, hc, Bool.false_eq_true, if_false, List.flatten_append, List.flatten_singleton]
      rfl
  | @more s frame n text ht hi hc _ ih =>
    subst hp
    obtain ⟨c₁, hrun, hf₁, hcore⟩ := recvFrame_of_takes hf ht trivial
    cases fuel with
    | zero => omega
    | succ fuel =>
      have hb := ht.bounds
      obtain ⟨c', hrun', hcore'⟩ := ih (show (s.drop n).length < fuel by rw [List.length_drop]; omega)
        (chunks ++ [Bytes.decodeUtf8 frame.payload]) hf₁ (protocol_of_core hcore)
      refine ⟨c', ?_, hcore'.trans hcore⟩
      unfold isInfoPayload at hi
      rw [infoLoop, seq_ok hrun]
      simp only [if_pos hi, hc, if_true, hrun', List.flatten_append, List.flatten_singleton, List.append_assoc]

/-- The loop returns the text of the reply; it fails as receiving a frame does, or on an item that
is no INFO frame. `P` holds of what is next on the stream whenever a frame is received. -/
theorem wp_infoLoop {E : Stop → Client → Prop} (c₀ : Client) (hstall : Stalls c₀.deadline later)
    (P : Bytes → Prop) (hP : ∀ s frame n, P s → Takes c₀.protocol s (.packet frame) n →
      frame.infoContinues = true → P (s.drop n))
    (hE : ∀ s c stop c', P s → c.core = c₀.core → RecvFails c s later stop c' → E stop c')
    (hreply : ∀ c', c'.core = c₀.core → E (.raised (seedLinkError "Expected an INFO reply")) c') :
    ∀ (fuel : Nat) (chunks : List Text) (s : Bytes) (c : Client), P s → c.Feeds s later →
      c.core = c₀.core → s.length < fuel →
      wp (infoLoop fuel chunks) (fun text c' => c'.core = c₀.core ∧
        ∃ t, InfoText c₀.protocol s t ∧ text = chunks.flatten ++ t) E c
  | 0, _, _, _, _, _, _, hfuel => by omega
  | fuel + 1, chunks, s, c, hs, hf, hc, hfuel => by
    have hp : c.protocol = c₀.protocol := protocol_of_core hc
    have hstall' : Stalls c.deadline later := deadline_of_core hc ▸ hstall
    rw [infoLoop, wp_bind]
    refine wp_recvFrame hf (.inr ⟨hstall', fun stop c' hr => hE s c stop c' hs hc hr⟩)
      fun x n c' ht hf' hc' => ?_
    cases x with
    | reply resp => exact hreply c' (hc'.trans hc)
    | endOfStream => exact hreply c' (hc'.trans hc)
    | packet frame =>
      simp only [wp_ite, wp_pure, wp_raise]
      rw [hp] at ht
      by_cases hi : frame.payloadFormat = formatJson ∨ frame.payloadFormat = formatXml
      · rw [if_pos hi]
        cases hcont : frame.infoContinues with
        | false => exact ⟨hc'.trans hc, _, .last ht hi hcont, by simp⟩
        | true =>
          have hb := ht.bounds
          refine wp_mono (wp_infoLoop c₀ hstall P hP hE hreply fuel _ _ c' (hP s frame n hs ht hcont) hf' (hc'.trans hc) (by
            rw [List.length_drop]; omega)) ?_ fun _ _ h => h
          rintro text c'' ⟨hc'', t, ht', rfl⟩
          exact ⟨hc'', _, .more ht hi hcont ht', by simp⟩
      · rw [if_neg hi]
        exact hreply c' (hc'.trans hc)

end infoLoop

end SeedLink
