import SeedLink.Connecting

/-!
# What is said on a connection

A connection that begins with the handshake has been told HELLO and then the commands that the answer to
HELLO asks for; whatever is sent behind them is in the protocol agreed then (`Client.Conversed`). Reading,
sending within the protocol, closing and connecting anew keep that, so it holds after any sequence of calls
(`handshaken_conversed`). A handshake that the program itself cannot write out, because a command is not
ASCII, stays where it stopped.
-/

namespace SeedLink

open StateExc Client Commands

/-! ### The commands of a protocol -/

/-- The words that begin a line behind the handshake, and how such a line ends. -/
def Protocol.vocabulary : Protocol → List (Text × Bytes)
  | .v3 => ["STATION", "SELECT", "DATA", "FETCH", "TIME", "END", "INFO", "BYE"].map fun word => (word.toList, crlf)
  | .v4 => (["STATION", "SELECT", "DATA"].map fun word => (word.toList, cr)) ++
      ["END", "ENDFETCH", "INFO", "BYE"].map fun word => (word.toList, crlf)

/-- A word of the protocol, alone or with arguments behind a blank. -/
def Command.SpokenIn (protocol : Protocol) (cmd : Command) : Prop :=
  ∃ word args, (word, cmd.terminator) ∈ protocol.vocabulary ∧ cmd.text = word ++ args ∧
    (args = [] ∨ args.head? = some ' ')

section vocabulary
variable {protocol : Protocol} {cmd : Command}

theorem spokenIn_word (h : (cmd.text, cmd.terminator) ∈ protocol.vocabulary) : cmd.SpokenIn protocol :=
  ⟨_, [], h, (List.append_nil _).symm, .inl rfl⟩

theorem spokenIn_words (word args : Text) (h : (word, cmd.terminator) ∈ protocol.vocabulary)
    (htext : cmd.text = word ++ ' ' :: args) : cmd.SpokenIn protocol := ⟨word, _, h, htext, .inr rfl⟩

theorem spokenIn_info (level : Text) : (Commands.info level).SpokenIn protocol := by
  have hmem : ("INFO".toList, crlf) ∈ protocol.vocabulary := by cases protocol <;> decide
  exact spokenIn_words "INFO".toList level hmem rfl

theorem spokenIn_bye : Commands.bye.SpokenIn protocol := by
  cases protocol <;> exact spokenIn_word (by decide)

theorem exists_joinWords (word : Text) (words : List Text) :
    ∃ args, joinWords (word :: words) = word ++ args ∧ (args = [] ∨ args.head? = some ' ') := by
  cases words with
  | nil => exact ⟨[], by simp [joinWords, List.intercalate], .inl rfl⟩
  | cons w ws =>
    refine ⟨' ' :: joinWords (w :: ws), ?_, .inr rfl⟩
    rw [joinWords, List.intercalate_cons_cons, List.append_assoc]
    rfl

theorem spokenIn_dataV4 {stationId : Text} {seqnum : Option Int} {allData : Bool} {start stop : Option DateTime}
    {data : Command} (h : dataV4 stationId seqnum allData start stop = .ok data) : data.SpokenIn .v4 := by
  obtain ⟨position, window, -, -, rfl⟩ := exists_of_dataV4_ok h
  obtain ⟨args, hargs, hblank⟩ := exists_joinWords "DATA".toList (position ++ window)
  exact ⟨"DATA".toList, args, show ("DATA".toList, cr) ∈ _ by decide, hargs, hblank⟩

section plans
variable [Externals] {args : NegotiationArgs} {s : Stream}

theorem spokenIn_planStreamV4 {cmds : List Command} (h : planStreamV4 args s = .ok cmds) :
    ∀ cmd ∈ cmds, cmd.SpokenIn .v4 := by
  unfold planStreamV4 at h
  obtain ⟨data, hdata, h⟩ := exists_of_bind_ok h
  cases h
  simp only [List.cons_append, List.mem_cons, List.mem_append, List.mem_map, List.not_mem_nil, or_false]
  rintro cmd (rfl | ⟨sel, -, rfl⟩ | rfl)
  · exact spokenIn_words "STATION".toList _ (show ("STATION".toList, cr) ∈ _ by decide) rfl
  · exact spokenIn_words "SELECT".toList _ (show ("SELECT".toList, cr) ∈ _ by decide) rfl
  · exact spokenIn_dataV4 hdata

theorem spokenIn_requestV3 {startStr endStr : Option Text} {expectReply : Bool}
    (h : (requestV3 args startStr endStr expectReply s).1 = .ok cmd) : cmd.SpokenIn .v3 := by
  have hname : (args.cmdName, crlf) ∈ Protocol.v3.vocabulary := by
    unfold NegotiationArgs.cmdName
    split <;> decide
  unfold requestV3 at h
  split at h
  · cases h
    exact spokenIn_words "TIME".toList _ (show ("TIME".toList, crlf) ∈ _ by decide)
      (List.append_assoc "TIME ".toList _ _)
  simp only at h
  split at h
  · rename_i timestamp s' hts
    cases h
    unfold dataV3 dataV3Text
    cases args.resumeSeqnum s with
    | none => exact spokenIn_word hname
    | some n => exact spokenIn_words args.cmdName _ hname (List.append_assoc _ (' ' :: _) _)
  · cases h

theorem spokenIn_selectsV3 : ∀ cmd ∈ selectsV3 args s, cmd.SpokenIn .v3 := by
  intro cmd hmem
  obtain ⟨sel, -, rfl⟩ := List.mem_map.1 hmem
  exact spokenIn_words "SELECT".toList _ (show ("SELECT".toList, crlf) ∈ _ by decide) rfl

theorem spokenIn_planStreamV3 {startStr endStr : Option Text} {cmds : List Command}
    (h : (planStreamV3 args startStr endStr s).1 = .ok cmds) : ∀ cmd ∈ cmds, cmd.SpokenIn .v3 := by
  obtain ⟨data, hdata, rfl⟩ := exists_of_map_ok h
  intro cmd hmem
  rcases List.mem_append.1 hmem with hmem | hmem
  · rcases List.mem_cons.1 hmem with rfl | hmem
    · exact spokenIn_words "STATION".toList _ (show ("STATION".toList, crlf) ∈ _ by decide)
        (List.append_assoc "STATION ".toList _ _)
    · exact spokenIn_selectsV3 cmd hmem
  · obtain rfl := List.mem_singleton.1 hmem
    exact spokenIn_requestV3 hdata

/-- A plan is in the protocol that it is made for. -/
theorem spokenIn_planNegotiation (hp : args.protocol = some protocol) {streams : List Stream} {plan : List Command}
    (h : (planNegotiation args streams).1 = .ok plan) : ∀ cmd ∈ plan, cmd.SpokenIn protocol := by
  cases protocol with
  | v4 =>
    obtain ⟨cmds, hcmds, rfl⟩ := planNegotiation_v4 hp h
    intro cmd hmem
    rcases List.mem_append.1 hmem with hmem | hmem
    · exact forall_planStreams (fun s _ cmds hs => spokenIn_planStreamV4 hs) hcmds cmd hmem
    · obtain rfl := List.mem_singleton.1 hmem
      unfold endV4
      cases args.dialup <;> exact spokenIn_word (by decide)
  | v3 =>
    unfold planNegotiation at h
    split at h
    · cases h
    · cases h
    rw [if_neg (by rw [hp]; rintro ⟨⟩)] at h
    unfold planNegotiationV3 at h
    split at h
    · obtain ⟨cmds, hcmds, rfl⟩ := exists_of_map_ok h
      intro cmd hmem
      rcases List.mem_append.1 hmem with hmem | hmem
      · exact forall_planStreams (fun s _ cmds hs => spokenIn_planStreamV3 hs) hcmds cmd hmem
      · obtain rfl := List.mem_singleton.1 hmem
        exact spokenIn_word (by decide)
    split at h
    · obtain ⟨data, hdata, rfl⟩ := exists_of_map_ok h
      intro cmd hmem
      rcases List.mem_append.1 hmem with hmem | hmem
      · exact spokenIn_selectsV3 cmd hmem
      · obtain rfl := List.mem_singleton.1 hmem
        exact spokenIn_requestV3 hdata
    · cases h

end plans

end vocabulary

/-! ### What has been said -/

/-- The protocol that the answer to HELLO settled, and the lines of the handshake: HELLO and the commands
planned for it, all of them or those before the first that is not ASCII. -/
structure Client.Introduced (c : Client) (protocol : Protocol) (greeting : List Bytes) : Prop where
  agreed : c.protocol = some protocol
  selected : selectProtocol c.serverProtocolMajors c.cfg.requestedProtocol = .ok protocol
  commands : ∃ before after, handshakePlan c = .ok (before ++ after) ∧ (∀ cmd ∈ after.head?, cmd.Unencodable) ∧
    List.Forall₂ (fun cmd line => cmd.wire = .ok line) (Commands.hello :: before) greeting ∧
    (c.batchActive = true → Commands.batch ∈ before)

/-- The lines sent on a connection: a handshake, and then commands of the protocol it settled. -/
def Client.Conversed (c : Client) (lines : List Bytes) : Prop :=
  ∃ n sk protocol greeting rest, c.env.dial n = .opened sk ∧ lines = sk.sent ++ greeting ++ rest ∧
    c.Introduced protocol greeting ∧ ∀ line ∈ rest, ∃ cmd : Command, cmd.SpokenIn protocol ∧ cmd.wire = .ok line

structure Client.Attuned (c : Client) : Prop where
  disconnected : c.sock = none → c.batchActive = false
  connected : ∀ sk, c.sock = some sk → c.Conversed sk.sent

/-- What that depends on besides the connection. -/
def Client.said (c : Client) : Client :=
  { cfg := c.cfg, env := c.env, protocol := c.protocol, serverCapabilities := c.serverCapabilities,
    serverProtocolMajors := c.serverProtocolMajors, batchActive := c.batchActive }

section agreeing
variable {c c' : Client}

theorem Client.Conversed.congr {lines : List Bytes} (h : c.Conversed lines) (hsaid : c'.said = c.said) :
    c'.Conversed lines := by
  obtain ⟨n, sk, protocol, greeting, rest, hdial, hlines, hintro, hrest⟩ := h
  have hintro' : c.said.Introduced protocol greeting := ⟨hintro.agreed, hintro.selected, hintro.commands⟩
  have henv : c'.env = c.env := (congrArg Client.env hsaid :)
  rw [← hsaid] at hintro'
  exact ⟨n, sk, protocol, greeting, rest, henv ▸ hdial, hlines,
    ⟨hintro'.agreed, hintro'.selected, hintro'.commands⟩, hrest⟩

theorem Client.Attuned.congr (h : c.Attuned) (hsaid : c'.said = c.said)
    (hsock : c'.sock.map Sock.sent = c.sock.map Sock.sent) : c'.Attuned := by
  have hbatch : c'.batchActive = c.batchActive := (congrArg Client.batchActive hsaid :)
  refine ⟨fun hnone => hbatch.trans (h.disconnected ?_), fun sk' hsk' => ?_⟩
  · rw [hnone] at hsock
    exact Option.map_eq_none_iff.1 hsock.symm
  · rw [hsk'] at hsock
    obtain ⟨sk, hsk, hsent⟩ := Option.map_eq_some_iff.1 hsock.symm
    exact hsent ▸ (h.connected sk hsk).congr hsaid

theorem attuned_closed (c : Client) : c.closed.Attuned := ⟨fun _ => rfl, nofun⟩

theorem Client.Attuned.inScope (h : c.Attuned) (inScope : Bool) : ({ c with inScope } : Client).Attuned :=
  h.congr rfl rfl

end agreeing

/-- The connection is closed, or it is as far as it was. -/
def Client.StaysOn (c c' : Client) : Prop :=
  (c'.sock = none ∧ c'.batchActive = false ∧ c'.protocol = c.protocol) ∨
    (c'.said = c.said ∧ c'.sock.map Sock.sent = c.sock.map Sock.sent)

instance : IsPreorder Client Client.StaysOn where
  refl _ := .inr ⟨rfl, rfl⟩
  trans c c₁ c₂ h h' := by
    rcases h' with ⟨hsk', hbatch', hp'⟩ | ⟨hsaid', hsock'⟩
    · rcases h with ⟨-, -, hp⟩ | ⟨hsaid, -⟩
      · exact .inl ⟨hsk', hbatch', hp'.trans hp⟩
      · exact .inl ⟨hsk', hbatch', hp'.trans (congrArg Client.protocol hsaid :)⟩
    · rcases h with ⟨hsk, hbatch, hp⟩ | ⟨hsaid, hsock⟩
      · rw [hsk] at hsock'
        exact .inl ⟨Option.map_eq_none_iff.1 hsock', (congrArg Client.batchActive hsaid' :).trans hbatch,
          (congrArg Client.protocol hsaid' :).trans hp⟩
      · exact .inr ⟨hsaid'.trans hsaid, hsock'.trans hsock⟩

theorem staysOn : Reading Client.StaysOn :=
  Reads.reading
    { ensure := fun n => keeps_ensure fun c c' h => by
        cases h with
        | kept => exact .inr ⟨rfl, rfl⟩
        | enough => exact .inr ⟨rfl, rfl⟩
        | filled hsk => exact .inr ⟨rfl, by rw [hsk]; rfl⟩
        | closed => exact .inl ⟨rfl, rfl, rfl⟩
      close := fun _ => .inl ⟨rfl, rfl, rfl⟩
      rb := fun _ _ _ => .inr ⟨rfl, rfl⟩
      polls := fun _ _ => .inr ⟨rfl, rfl⟩ }

/-! ### On one connection -/

/-- The client is attuned, and to this protocol. -/
def Client.AttunedTo (protocol : Option Protocol) (c : Client) : Prop := c.protocol = protocol ∧ c.Attuned

def Client.KeepsAgreement (protocol : Option Protocol) (c c' : Client) : Prop :=
  c.AttunedTo protocol → c'.AttunedTo protocol

instance (protocol : Option Protocol) : IsPreorder Client (Client.KeepsAgreement protocol) where
  refl _ := id
  trans _ _ _ h h' := h' ∘ h

section connection
variable {protocol : Option Protocol} {c c' : Client} {cmd : Command}

theorem keepsAgreement_of_said (hsaid : c'.said = c.said) (hsock : c'.sock.map Sock.sent = c.sock.map Sock.sent) :
    c.KeepsAgreement protocol c' :=
  fun h => ⟨(congrArg Client.protocol hsaid :).trans h.1, h.2.congr hsaid hsock⟩

theorem keepsAgreement_closed (hp : c'.protocol = c.protocol) : c.KeepsAgreement protocol c'.closed :=
  fun h => ⟨hp.trans h.1, attuned_closed _⟩

theorem Client.StaysOn.keepsAgreement (h : c.StaysOn c') : c.KeepsAgreement protocol c' := by
  rcases h with ⟨hsk, hbatch, hp⟩ | ⟨hsaid, hsock⟩
  · exact fun hc => ⟨hp.trans hc.1, fun _ => hbatch, fun sk hsome => by rw [hsk] at hsome; cases hsome⟩
  · exact keepsAgreement_of_said hsaid hsock

theorem reading_agreement : Reading (Client.KeepsAgreement protocol) := by
  have hkeeps : ∀ {α : Type} {x : ClientM α}, Keeps Client.StaysOn x → Keeps (Client.KeepsAgreement protocol) x :=
    fun hx c => wp_mono (hx c) (fun _ _ h => h.keepsAgreement) fun _ _ h => h.keepsAgreement
  exact ⟨hkeeps staysOn.readLine, hkeeps staysOn.recvFrame, hkeeps staysOn.pollReadable,
    fun _ => keepsAgreement_closed rfl⟩

/-- A command of the protocol is sent. -/
theorem Client.Sends.keepsAgreement {wire : Bytes} (hs : c.Sends wire c') (hw : cmd.wire = .ok wire)
    (hcmd : ∀ p, protocol = some p → cmd.SpokenIn p) : c.KeepsAgreement protocol c' := by
  rintro ⟨hp, hc⟩
  obtain ⟨sk, incoming, hsk, -, rfl⟩ := hs
  obtain ⟨n, sk₀, p, greeting, rest, hdial, hlines, hintro, hrest⟩ := hc.connected sk hsk
  refine ⟨hp, nofun, ?_⟩
  rintro _ ⟨⟩
  refine ⟨n, sk₀, p, greeting, rest ++ [wire], hdial, ?_, ⟨hintro.agreed, hintro.selected, hintro.commands⟩, ?_⟩
  · show sk.sent ++ [wire] = _
    rw [hlines, List.append_assoc _ rest]
  · intro line hline
    rcases List.mem_append.1 hline with hline | hline
    · exact hrest line hline
    · obtain rfl := List.mem_singleton.1 hline
      exact ⟨cmd, hcmd p (hp.symm.trans hintro.agreed), hw⟩

/-- However it ends, the client stays attuned to the protocol. -/
abbrev Speaking {α : Type} (protocol : Option Protocol) (x : ClientM α) : Prop :=
  Leads (Client.AttunedTo protocol) (Client.AttunedTo protocol) (Client.AttunedTo protocol) x

namespace Speaking
variable {α β : Type} {x : ClientM α}

theorem of_keeps (h : Keeps (Client.KeepsAgreement protocol) x) : Speaking protocol x :=
  fun c hc => wp_mono (h c) (fun _ _ hk => hk hc) fun _ _ hk => hk hc

theorem pure (a : α) : Speaking protocol (Pure.pure a) := Leads.pure (fun _ h => h) a

theorem raise (e : Exn) : Speaking protocol (raise e : ClientM α) := Leads.throw (fun _ h => h) _

theorem liftExcept (y : Except Exn α) : Speaking protocol (liftExcept y) := .of_keeps (keeps_liftExcept y)

theorem edit {f : Client → Client} (hf : ∀ c : Client, c.KeepsAgreement protocol (f c)) :
    Speaking protocol (modify f : ClientM PUnit) := Leads.modify hf

theorem bind {f : α → ClientM β} (hx : Speaking protocol x) (hf : ∀ a, Speaking protocol (f a)) :
    Speaking protocol (x >>= f) := Leads.bind hx hf

theorem get_bind {f : Client → ClientM α} (hf : ∀ c, Speaking protocol (f c)) : Speaking protocol (get >>= f) :=
  Leads.get_bind fun c h => hf c c h

theorem ite {p : Prop} [Decidable p] {y : ClientM α} (hx : Speaking protocol x) (hy : Speaking protocol y) :
    Speaking protocol (if p then x else y) := Leads.ite hx hy

theorem tryExcept {caught : Exn → Bool} {handler : Exn → ClientM α} (hx : Speaking protocol x)
    (hh : ∀ e, Speaking protocol (handler e)) : Speaking protocol (tryExcept x caught handler) := by
  refine Leads.tryCatch hx fun stop => ?_
  cases stop with
  | raised e => exact .ite (hh e) (.throw (fun _ h => h) _)
  | blocked => exact .throw (fun _ h => h) _

theorem close : Speaking protocol close := .edit fun _ => keepsAgreement_closed rfl

theorem timeoutScope {message : String} (hx : Speaking protocol x) : Speaking protocol (timeoutScope message x) := by
  have hscope : ∀ inScope : Client → Bool,
      Speaking protocol (modify fun c => { c with inScope := inScope c } : ClientM PUnit) :=
    fun _ => .edit fun _ => keepsAgreement_of_said rfl rfl
  refine .get_bind fun c => .ite hx (.bind (hscope _) fun _ => .bind ?_ fun _ => .bind (hscope _) fun _ => .pure _)
  exact Leads.tryCatch hx fun stop => .bind (hscope _) fun _ => .ite (.bind close fun _ => raise _)
    (.throw (fun _ h => h) _)

end Speaking

theorem speaking_sendCommand (hcmd : ∀ p, protocol = some p → cmd.SpokenIn p) :
    Speaking protocol (sendCommand cmd) := by
  refine .of_keeps fun c => wp_sendCommand (fun _ => id) (fun _ _ _ => id) (fun _ _ => keepsAgreement_closed rfl) ?_
  intro wire c' hw hs
  have hsent : c.KeepsAgreement protocol c' := hs.keepsAgreement hw hcmd
  exact wp_mono (reading_agreement.awaitReply cmd.parse c') (fun _ _ hr => hr ∘ hsent) fun _ _ hr => hr ∘ hsent

theorem speaking_sendPlan : ∀ {plan : List Command} {walk : NegotiationWalk},
    (∀ cmd ∈ plan, ∀ p, protocol = some p → cmd.SpokenIn p) → Speaking protocol (sendPlan plan walk)
  | [], _, _ => .pure _
  | cmd :: rest, walk, hplan => by
    have hrest : ∀ walk, Speaking protocol (sendPlan rest walk) :=
      fun walk => speaking_sendPlan fun cmd hmem => hplan cmd (List.mem_cons_of_mem _ hmem)
    unfold sendPlan
    exact .ite (.bind (speaking_sendCommand (hplan cmd List.mem_cons_self)) fun _ => hrest _) (hrest _)

theorem speaking_monotonic : Speaking protocol monotonic :=
  .of_keeps fun _ => keepsAgreement_of_said rfl rfl

theorem speaking_bye : Speaking protocol bye :=
  .get_bind fun _ => .ite (.bind (speaking_sendCommand fun _ _ => spokenIn_bye) fun _ => .pure _) (.pure _)

theorem speaking_enterLoop : Speaking protocol enterLoop := by
  refine .bind speaking_monotonic fun last => .get_bind fun c => ?_
  cases c.cfg.keepaliveInterval with
  | none => exact .pure _
  | some interval => exact .bind speaking_monotonic fun _ => .pure _

theorem speaking_closeAndRaise (reconnect : Bool) (e : Exn) (g : Collect) :
    Speaking protocol (closeAndRaise reconnect e g) :=
  .bind .close fun _ => .ite (.pure _) (.raise _)

theorem speaking_keepalivePass (last : Int) (next : Option Int) : Speaking protocol (keepalivePass last next) := by
  refine .bind speaking_monotonic fun now => .get_bind fun c => ?_
  split
  · refine .ite (.bind ?_ fun _ => .pure _) (.pure _)
    exact .tryExcept (.bind (speaking_sendCommand fun _ _ => spokenIn_info _) fun _ => .pure _) fun _ => .close
  · exact .pure _

section calls
variable [Externals]

theorem speaking_negotiate : Speaking protocol negotiate := by
  refine .timeoutScope fun c hc => ?_
  have hprep : c.KeepsAgreement protocol { c with base := c.prepared.2 } := keepsAgreement_of_said rfl rfl
  simp only [negotiateInner, wp_bind, wp_get, wp_set, wp_liftExcept]
  cases hplan : (c.base.prepareNegotiation c.negotiationArgs).1 with
  | error e => exact hprep hc
  | ok plan =>
    have hcmds : ∀ cmd ∈ plan, ∀ p, protocol = some p → cmd.SpokenIn p := fun cmd hmem p hp =>
      spokenIn_planNegotiation (hc.1.trans hp) hplan cmd hmem
    have hrun : Speaking protocol (runPlan plan) := .bind (speaking_sendPlan hcmds) fun _ => .liftExcept _
    refine wp_mono (hrun _ (hprep hc)) (fun _ c' h => ?_) fun _ _ h => h
    have hstreaming : c'.KeepsAgreement protocol { c' with streaming := true } := keepsAgreement_of_said rfl rfl
    exact hstreaming h

theorem speaking_info (level : Text) : Speaking protocol (Client.info level) := by
  refine .get_bind fun _ => .ite (.raise _) (.timeoutScope ?_)
  exact .bind (speaking_sendCommand fun _ _ => spokenIn_info level) fun _ => .get_bind fun _ =>
    .of_keeps (reading_agreement.infoLoop _ _)

theorem speaking_infoDict (level : Text) : Speaking protocol (infoDict level) :=
  .bind (speaking_info level) fun _ => .get_bind fun _ => .ite (.bind (.liftExcept _) fun _ => .pure _) (.liftExcept _)

theorem speaking_handleFrame (reconnect : Bool) (last : Int) (next : Option Int) (received : Received) :
    Speaking protocol (handleFrame reconnect last next received) := by
  cases received with
  | endOfStream => exact .bind (.edit fun _ => keepsAgreement_of_said rfl rfl) fun _ => .pure _
  | reply resp => exact speaking_closeAndRaise _ _ _
  | packet frame =>
    refine .ite (.bind (.liftExcept _) fun _ => speaking_closeAndRaise _ _ _) (.ite (.pure _) ?_)
    exact .bind speaking_monotonic fun _ => .bind (.edit fun _ => keepsAgreement_of_said rfl rfl) fun _ => .pure _

theorem speaking_collectPass (reconnect : Bool) (last : Int) (next : Option Int) :
    Speaking protocol (collectPass reconnect last next) := by
  refine .get_bind fun c => .ite (.pure _) (.bind speaking_monotonic fun now => .ite (speaking_closeAndRaise _ _ _) ?_)
  refine .bind (.tryExcept (.of_keeps (.map reading_agreement.awaitFrame)) fun e =>
    Leads.map (speaking_closeAndRaise _ _ _)) fun pass => ?_
  split
  · exact speaking_keepalivePass last next
  · exact speaking_handleFrame reconnect last next _
  · exact .pure _

end calls

end connection

/-! ### Making a connection -/

section handshake
variable {c c' : Client} {cmd : Command} {reply : Option Text} {lines : List Bytes}

theorem Client.StaysOn.connected (h : c.StaysOn c') (hc' : c'.Connected) :
    c'.said = c.said ∧ c'.sock.map Sock.sent = c.sock.map Sock.sent := by
  rcases h with ⟨hsk, -⟩ | h
  · rw [Client.Connected, hsk] at hc'
    cases hc'
  · exact h

theorem readLine_said {line : Text} (hc : c.Connected) (hread : readLine c = .ok line c') :
    c'.Connected ∧ c'.said = c.said ∧ c'.sock.map Sock.sent = c.sock.map Sock.sent := by
  have hc' : c'.Connected := wp_ok (Q := fun _ => Client.Connected) (onConnection_readLine c hc) hread
  exact ⟨hc', (staysOn.readLine.ok hread).connected hc'⟩

/-- An exchange adds one line. -/
theorem Exchanges.said (h : Exchanges c cmd reply c') (hlines : c.sock.map Sock.sent = some lines) :
    c'.said = c.said ∧ ∃ wire, cmd.wire = .ok wire ∧ c'.sock.map Sock.sent = some (lines ++ [wire]) := by
  have hsends : ∀ {wire : Bytes} {c₁ : Client}, c.Sends wire c₁ →
      c₁.said = c.said ∧ c₁.sock.map Sock.sent = some (lines ++ [wire]) := by
    rintro wire c₁ ⟨sk, incoming, hsk, -, rfl⟩
    rw [hsk] at hlines
    cases hlines
    exact ⟨rfl, rfl⟩
  cases h with
  | silent _ hw hs => exact ⟨(hsends hs).1, _, hw, (hsends hs).2⟩
  | replied _ hw hs hread _ =>
    obtain ⟨-, hsaid, hsent⟩ := readLine_said hs.isSome hread
    exact ⟨hsaid.trans (hsends hs).1, _, hw, hsent.trans (hsends hs).2⟩

theorem Client.Greeted.said {line1 line2 : Text} (h : c.Greeted line1 line2 c')
    (hlines : c.sock.map Sock.sent = some lines) :
    c'.said = c.said ∧ ∃ wire, Commands.hello.wire = .ok wire ∧ c'.sock.map Sock.sent = some (lines ++ [wire]) := by
  obtain ⟨c₁, c₂, hx, hread₁, hread₂⟩ := h
  obtain ⟨hsaid, wire, hw, hsent⟩ := hx.said hlines
  have hc₁ : c₁.Connected := by
    obtain ⟨sk, hsk, -⟩ := Option.map_eq_some_iff.1 hsent
    rw [Client.Connected, hsk]
    rfl
  obtain ⟨hc₂, hsaid₂, hsent₂⟩ := readLine_said hc₁ hread₁
  obtain ⟨-, hsaid₃, hsent₃⟩ := readLine_said hc₂ hread₂
  exact ⟨hsaid₃.trans (hsaid₂.trans hsaid), wire, hw, hsent₃.trans (hsent₂.trans hsent)⟩

/-- The commands of the handshake add their lines, and only BATCH begins batch mode. -/
theorem Accepts.said {cmds : List Command} (h : Accepts c cmds c') : ∀ {lines : List Bytes},
    c.sock.map Sock.sent = some lines → c'.said = { c.said with batchActive := c'.batchActive } ∧
      (c'.batchActive = true → c.batchActive = true ∨ ∃ cmd ∈ cmds, cmd.text = "BATCH".toList) ∧
      ∃ wires, List.Forall₂ (fun (cmd : Command) line => cmd.wire = .ok line) cmds wires ∧
        c'.sock.map Sock.sent = some (lines ++ wires) := by
  induction h with
  | nil => exact fun hlines => ⟨rfl, .inl, [], .nil, by rw [hlines, List.append_nil]⟩
  | @cons c c₁ c' cmd reply cmds hx _ ih =>
    intro lines hlines
    obtain ⟨hsaid, wire, hw, hsent⟩ := hx.said hlines
    have hnoted : (c₁.noted cmd reply).said = { c₁.said with batchActive := (c₁.noted cmd reply).batchActive } := by
      unfold Client.noted
      split <;> rfl
    have hnoted' : (c₁.noted cmd reply).sock.map Sock.sent = some (lines ++ [wire]) := by rwa [noted_sock]
    obtain ⟨hsaid', hbatch, wires, hwires, hsent'⟩ := ih hnoted'
    refine ⟨?_, fun hactive => ?_, wire :: wires, .cons hw hwires, by rw [hsent', List.append_assoc]; rfl⟩
    · rw [hsaid', hnoted, hsaid]
    · rcases hbatch hactive with h | ⟨cmd', hmem, htext⟩
      · by_cases htext : cmd.text = "BATCH".toList
        · exact .inr ⟨cmd, List.mem_cons_self, htext⟩
        · rw [Client.noted, if_neg htext] at h
          exact .inl ((congrArg Client.batchActive hsaid :).symm.trans h)
      · exact .inr ⟨cmd', List.mem_cons_of_mem _ hmem, htext⟩

theorem head_authCommands {auth : Option Auth} {commands : List Command} (h : authCommands auth = .ok commands)
    (hmem : cmd ∈ commands) : cmd.text.head? = some 'A' := by
  unfold authCommands at h
  split at h
  · cases h
    cases hmem
  · cases h
    obtain rfl := List.mem_singleton.1 hmem
    rfl
  · obtain ⟨cmd', hcmd', hrest⟩ := exists_of_bind_ok h
    cases hrest
    obtain rfl := List.mem_singleton.1 hmem
    unfold authUserpass at hcmd'
    split at hcmd' <;> cases hcmd'
    rfl

theorem eq_batch_of_plan {commands : List Command} (hplan : handshakePlan c = .ok commands) (hmem : cmd ∈ commands)
    (htext : cmd.text = "BATCH".toList) : cmd = Commands.batch := by
  have hbatch : ∀ {p : Bool}, cmd ∈ (if p = true then [Commands.batch] else []) → cmd = Commands.batch := by
    intro p hmem
    split at hmem
    · exact List.mem_singleton.1 hmem
    · cases hmem
  have hother : cmd.text.head? ≠ some 'B' → cmd = Commands.batch := fun h => absurd (by rw [htext]; rfl) h
  unfold handshakePlan planHandshake at hplan
  simp only at hplan
  split at hplan
  · obtain ⟨auth, hauth, hrest⟩ := exists_of_bind_ok hplan
    cases hrest
    rcases List.mem_append.1 hmem with hmem | hmem
    · rcases List.mem_cons.1 hmem with rfl | hmem
      · exact hother (by decide)
      rcases List.mem_cons.1 hmem with rfl | hmem
      · exact hother (by rintro ⟨⟩)
      · exact hother (by rw [head_authCommands hauth hmem]; decide)
    · exact hbatch hmem
  · cases hplan
    rcases List.mem_append.1 hmem with hmem | hmem
    · split at hmem
      · obtain rfl := List.mem_singleton.1 hmem
        exact hother (by decide)
      · cases hmem
    · exact hbatch hmem

/-- What a handshake leaves that has come as far as `before`. -/
theorem attuned_of_accepts {n : Nat} {sk : Sock} {line1 line2 : Text} {c₁ : Client} {protocol : Protocol}
    {before after : List Command} (hdial : c.env.dial n = .opened sk) (hsent : c.sock.map Sock.sent = some sk.sent)
    (hbatch : c.batchActive = false) (hgreet : c.Greeted line1 line2 c₁)
    (hselect : selectProtocol (parseHello line1 line2).2.2.2 c₁.cfg.requestedProtocol = .ok protocol)
    (hplan : handshakePlan (c₁.agreed line1 line2 protocol) = .ok (before ++ after))
    (haccepts : Accepts (c₁.agreed line1 line2 protocol) before c') (hafter : ∀ cmd ∈ after.head?, cmd.Unencodable) :
    c'.Attuned := by
  obtain ⟨hsaid₁, hello, hhello, hsent₁⟩ := hgreet.said hsent
  have hagreed : (c₁.agreed line1 line2 protocol).sock.map Sock.sent = some (sk.sent ++ [hello]) := hsent₁
  obtain ⟨hsaid, hactive, wires, hwires, hsent'⟩ := haccepts.said hagreed
  have hintro : c'.Introduced protocol (hello :: wires) := by
    refine ⟨(congrArg Client.protocol hsaid :), ?_, before, after, ?_, hafter, .cons hhello hwires, fun htrue => ?_⟩
    · have hmajors : c'.serverProtocolMajors = (parseHello line1 line2).2.2.2 :=
        (congrArg Client.serverProtocolMajors hsaid :)
      have hcfg : c'.cfg = c₁.cfg := (congrArg Client.cfg hsaid :)
      rw [hmajors, hcfg, hselect]
    · exact (congrArg handshakePlan hsaid :).trans hplan
    · rcases hactive htrue with h | ⟨cmd, hmem, htext⟩
      · have hfalse : c₁.batchActive = c.batchActive := (congrArg Client.batchActive hsaid₁ :)
        rw [show (c₁.agreed line1 line2 protocol).batchActive = c₁.batchActive from rfl, hfalse, hbatch] at h
        cases h
      · exact eq_batch_of_plan hplan (List.mem_append_left _ hmem) htext ▸ hmem
  have henv : c'.env = c.env := (congrArg Client.env hsaid :).trans (congrArg Client.env hsaid₁ :)
  refine ⟨fun hnone => ?_, fun sk' hsk' => ?_⟩
  · rw [hnone] at hsent'
    cases hsent'
  · rw [hsk'] at hsent'
    refine ⟨n, sk, protocol, hello :: wires, [], henv ▸ hdial, ?_, hintro, nofun⟩
    rw [Option.some.inj hsent', List.append_assoc, List.append_nil]
    rfl

/-- The handshake accepts all its commands, or those before one that is not ASCII, or raises what `connect`
sees to. -/
theorem wp_sendHandshake_accepts : ∀ (cmds : List Command) (c : Client), c.Connected →
    wp (sendHandshake cmds) (fun _ c' => Accepts c cmds c') (fun stop c' => Handled stop c' ∨
      ∃ before cmd after, cmds = before ++ cmd :: after ∧ Accepts c before c' ∧ cmd.Unencodable) c
  | [], _, _ => .nil
  | cmd :: rest, c, hc => by
    unfold sendHandshake
    rw [wp_bind]
    cases hrun : sendCommand cmd c with
    | error stop c' =>
      refine (wp_iff_of_error hrun).2 ?_
      by_cases hun : cmd.Unencodable
      · rw [sendCommand_unencodable hc hun] at hrun
        cases hrun
        exact .inr ⟨[], cmd, rest, rfl, .nil, hun⟩
      · exact .inl ((wp_error (wp_sendCommand_handled cmd c) hrun).resolve_right fun h => hun h.2)
    | ok resp c₁ =>
      obtain ⟨reply, hx, rfl⟩ := exchanges_of_sendCommand hrun
      have hc₁ : (c₁.noted cmd reply).Connected := by
        rw [Client.Connected, noted_sock]
        exact hx.connected hc
      have hrest : wp (sendHandshake rest) (fun _ c' => Accepts c (cmd :: rest) c') (fun stop c' => Handled stop c' ∨
          ∃ before cmd' after, cmd :: rest = before ++ cmd' :: after ∧ Accepts c before c' ∧ cmd'.Unencodable)
          (c₁.noted cmd reply) := by
        refine wp_mono (wp_sendHandshake_accepts rest _ hc₁) (fun _ _ h => .cons hx h) fun stop c' h => ?_
        refine h.imp_right ?_
        rintro ⟨before, cmd', after, rfl, haccepts, hun⟩
        exact ⟨cmd :: before, cmd', after, rfl, .cons hx haccepts, hun⟩
      refine (wp_iff_of_ok hrun).2 ?_
      rw [wp_ite]
      unfold Client.noted at hrest
      split
      · rename_i hbatch
        rwa [if_pos hbatch] at hrest
      · rename_i hbatch
        rwa [if_neg hbatch] at hrest

theorem wp_doHandshake_attuned {n : Nat} {sk : Sock} (hdial : c.env.dial n = .opened sk)
    (hsent : c.sock.map Sock.sent = some sk.sent) (hbatch : c.batchActive = false) :
    wp doHandshake (fun _ => Client.Attuned) (fun stop c' => c'.Attuned ∨ stop = .blocked ∨
      (stop = .raised .cancelledError ∧ c'.cfg.transport = .asyncio)) c := by
  have hc : c.Connected := by
    obtain ⟨sk', hsk', -⟩ := Option.map_eq_some_iff.1 hsent
    rw [Client.Connected, hsk']
    rfl
  have hbody : wp (do
      doHello
      let c ← get
      let commands ← liftExcept (handshakePlan c)
      sendHandshake commands) (fun _ => Client.Attuned) (fun stop c' => Handled stop c' ∨ c'.Attuned) c := by
    rw [wp_bind]
    cases hrun : doHello c with
    | error stop c' => exact (wp_iff_of_error hrun).2 (.inl (wp_error (onlyHandled_doHello c) hrun))
    | ok _ c₁ =>
      obtain ⟨line1, line2, c₂, protocol, hgreet, hselect, rfl⟩ := greeted_of_doHello hrun
      refine (wp_iff_of_ok hrun).2 ?_
      rw [wp_bind, wp_get, wp_bind, wp_liftExcept]
      cases hplan : handshakePlan (c₂.agreed line1 line2 protocol) with
      | error e => exact .inl (.seedLinkError (handshakePlan_error hplan) _)
      | ok cmds =>
        refine wp_mono (wp_sendHandshake_accepts cmds _ (hgreet.connected hc)) (fun _ c' haccepts => ?_)
          fun stop c' h => h.imp_right ?_
        · exact attuned_of_accepts hdial hsent hbatch hgreet hselect (hplan.trans (by rw [List.append_nil])) haccepts
            (by rintro _ ⟨⟩)
        · rintro ⟨before, cmd, after, rfl, haccepts, hun⟩
          refine attuned_of_accepts hdial hsent hbatch hgreet hselect hplan haccepts ?_
          rintro _ ⟨⟩
          exact hun
  refine wp_tryExcept_of hbody (fun e c' _ _ => .inl (attuned_closed c')) fun stop c' h hpass => ?_
  rcases h with (rfl | ⟨e, rfl, he⟩ | hcancel) | hattuned
  · exact .inr (.inl rfl)
  · rw [hpass e rfl] at he
    cases he
  · exact .inr (.inr hcancel)
  · exact .inl hattuned

end handshake

/-! ### Calls -/

/-- A client that is attuned still is when `x` comes to an end. -/
def Agreeing {α : Type} (x : ClientM α) : Prop :=
  ∀ c, c.Attuned → wp x (fun _ => Client.Attuned) (fun stop c' => stop = .blocked ∨ c'.Attuned) c

namespace Agreeing
variable {α β : Type} {x : ClientM α}

theorem of_speaking (h : ∀ protocol, Speaking protocol x) : Agreeing x := fun c hc =>
  wp_mono (h c.protocol c ⟨rfl, hc⟩) (fun _ _ h => h.2) fun _ _ h => .inr h.2

theorem bind {f : α → ClientM β} (hx : Agreeing x) (hf : ∀ a, Agreeing (f a)) : Agreeing (x >>= f) := by
  intro c hc
  rw [wp_bind]
  exact wp_mono (hx c hc) (fun a c' h => hf a c' h) fun _ _ h => h

theorem pure (a : α) : Agreeing (Pure.pure a) := .of_speaking fun _ => .pure a

theorem get_bind {f : Client → ClientM α} (hf : ∀ c, Agreeing (f c)) : Agreeing (get >>= f) := fun c hc => hf c c hc

theorem ite {p : Prop} [Decidable p] {y : ClientM α} (hx : Agreeing x) (hy : Agreeing y) :
    Agreeing (if p then x else y) := by
  split
  · exact hx
  · exact hy

theorem close : Agreeing close := .of_speaking fun _ => .close

theorem tryExcept {caught : Exn → Bool} {handler : Exn → ClientM α} (hx : Agreeing x)
    (hh : ∀ e, Agreeing (handler e)) : Agreeing (tryExcept x caught handler) := fun c hc =>
  wp_tryExcept_of (hx c hc) (fun e c' h _ => hh e c' (h.resolve_left nofun)) fun _ _ h _ => h

/-- A scope sees to a passed deadline. -/
theorem timeoutScope {message : String} (hsteady : Steady x) (h : ∀ c : Client, c.Attuned →
    wp x (fun _ => Client.Attuned) (fun stop c' => c'.Attuned ∨ stop = .blocked ∨
      (stop = .raised .cancelledError ∧ c'.cfg.transport = .asyncio)) c) : Agreeing (timeoutScope message x) := by
  intro c hc
  have hunscoped : ∀ {c' : Client}, c'.Attuned → c'.unscoped.Attuned := by
    intro c' h'
    unfold Client.unscoped
    split
    · exact h'
    · exact h'.inScope _
  have hscoped : c.scoped.Attuned := by
    unfold Client.scoped
    split
    · exact hc
    · exact hc.inScope _
  refine wp_timeoutScope (wp_mono (wp_and (hsteady c.scoped) (h c.scoped hscoped)) ?_ ?_)
  · exact fun _ c' ⟨hsame, h'⟩ => ⟨hsame.cfg.trans scoped_cfg, hunscoped h'⟩
  · intro stop c' ⟨hsame, h'⟩
    have hcfg : c'.cfg = c.cfg := hsame.cfg.trans scoped_cfg
    refine ⟨hcfg, ?_⟩
    split
    · exact .inr (attuned_closed _)
    · rename_i hno
      rcases h' with h' | rfl | ⟨rfl, hk⟩
      · exact .inr (hunscoped h')
      · exact .inl rfl
      · exact absurd ⟨hcfg ▸ hk, rfl⟩ hno

end Agreeing

/-- A connection is opened, and nothing has been said on it. -/
theorem wp_connectSocket_attuned {Q : Unit → Client → Prop} {E : Stop → Client → Prop} {c : Client} (hc : c.Attuned)
    (hfailed : ∀ stop c', c'.Attuned → E stop c')
    (hopened : ∀ (c' : Client) n sk, c'.env.dial n = .opened sk → c'.sock.map Sock.sent = some sk.sent →
      c'.batchActive = false → Q ⟨⟩ c') : wp connectSocket Q E c :=
  wp_connectSocket (fun _ => hfailed _ _ hc)
    (fun sk hnone hdial => hopened _ c.dials sk hdial rfl (hc.disconnected hnone))
    fun _ _ _ _ => hfailed _ _ (hc.congr rfl rfl)

theorem agreeing_connect : Agreeing (connect true) := by
  have hsteady : Steady (do connectSocket; if true then doHandshake) :=
    .bind steady_connectSocket fun _ => .ite steady.doHandshake (.pure _)
  refine .get_bind fun _ => .timeoutScope hsteady fun c hc => ?_
  rw [wp_bind]
  exact wp_connectSocket_attuned hc (fun _ _ h => .inl h) fun c' n sk hdial hsent hbatch =>
    wp_doHandshake_attuned hdial hsent hbatch

theorem agreeing_ping : Agreeing ping := by
  have hsteady : Steady (do
      connectSocket
      tryExcept doHello (fun _ => true) fun e => do
        close
        raise e
      close) :=
    .bind steady_connectSocket fun _ => .bind (keeps_tryExcept (steady.speaks.doHello trivial) fun e =>
      .bind steady.closing fun _ => keeps_raise e) fun _ => steady.closing
  refine .get_bind fun _ => .bind (.timeoutScope hsteady fun c hc => ?_) fun _ => .get_bind fun _ => .pure _
  rw [wp_bind]
  refine wp_connectSocket_attuned hc (fun _ _ h => .inl h) fun c' n sk _ _ _ => ?_
  have hhello : wp doHello (fun _ _ => True) (fun _ _ => True) c' := by
    unfold wp
    split <;> trivial
  rw [wp_bind]
  refine wp_tryExcept_of (wp_mono hhello (fun _ c' _ => attuned_closed c') fun _ _ h => h)
    (fun e c' _ _ => .inl (attuned_closed c')) fun stop c' _ hpass => ?_
  cases stop with
  | raised e => cases hpass e rfl
  | blocked => exact .inr (.inl rfl)

section calls
variable [Externals]

theorem agreeing_reconnect : Agreeing reconnect :=
  .bind .close fun _ => .bind agreeing_connect fun _ => .get_bind fun _ =>
    .ite (.of_speaking fun _ => speaking_negotiate) (.pure _)

theorem agreeing_reconnectAttempt : Agreeing reconnectAttempt := by
  refine .get_bind fun c => .bind (.of_speaking fun _ => .liftExcept _) fun _ => .tryExcept ?_ fun e => ?_
  · exact .bind agreeing_connect fun _ => .bind (.of_speaking fun _ => speaking_negotiate) fun _ =>
      .of_speaking fun _ => speaking_enterLoop
  · exact .ite (.of_speaking fun _ => .raise e) (.bind .close fun _ => .pure _)

theorem agreeing_collectStep (again : Bool) (g : Collect) : Agreeing (collectStep again g) := by
  have hnegotiate : Agreeing negotiate := .of_speaking fun _ => speaking_negotiate
  have henter : Agreeing enterLoop := .of_speaking fun _ => speaking_enterLoop
  cases g with
  | start =>
    refine .get_bind fun c => .ite (.bind hnegotiate fun _ => ?_) ?_ <;> exact .bind henter fun _ => .pure _
  | looping last next => exact .of_speaking fun _ => speaking_collectPass again last next
  | reconnecting => exact .bind agreeing_reconnectAttempt fun _ => .pure _
  | finished => exact .pure _

theorem agreeing_run {call : Method} (hcall : call ≠ .connect false) : Agreeing call.run := by
  cases call with
  | connect handshake =>
    obtain rfl : handshake = true := by
      cases handshake
      · exact absurd rfl hcall
      · rfl
    exact .bind agreeing_connect fun _ => .pure _
  | ping => exact .bind agreeing_ping fun _ => .pure _
  | negotiate => exact .bind (.of_speaking fun _ => speaking_negotiate) fun _ => .pure _
  | info level => exact .bind (.of_speaking fun _ => speaking_info level) fun _ => .pure _
  | infoDict level => exact .bind (.of_speaking fun _ => speaking_infoDict level) fun _ => .pure _
  | bye => exact .bind (.of_speaking fun _ => speaking_bye) fun _ => .pure _
  | reconnect => exact .bind agreeing_reconnect fun _ => .pure _
  | close => exact .bind .close fun _ => .pure _
  | collect again g => exact .bind (agreeing_collectStep again g) fun _ => .pure _

/-- The clients of programs that leave the handshake to `connect`, between calls that have come to an end. -/
inductive Client.Handshaken : Client → Prop
  | new (cfg : Config) (env : Env) (base : Base) : Handshaken { cfg, env, base }
  | call {c : Client} (h : c.Handshaken) (call : Method) (hcall : call ≠ .connect false)
      (hend : ∀ c', call.run c ≠ .error .blocked c') : Handshaken (c.behind call.run)
  | edit {c : Client} (h : c.Handshaken) (base : Base) : Handshaken { c with base }

theorem Client.Handshaken.attuned {c : Client} (h : c.Handshaken) : c.Attuned := by
  induction h with
  | new => exact ⟨fun _ => rfl, nofun⟩
  | @call c _ call hcall hend ih =>
    have hrun := agreeing_run hcall c ih
    unfold Client.behind
    cases hx : call.run c with
    | ok a c' => exact wp_ok (Q := fun _ => Client.Attuned) hrun hx
    | error stop c' =>
      refine (wp_error hrun hx).resolve_left ?_
      rintro rfl
      exact hend c' hx
  | edit _ base ih => exact ih.congr rfl rfl

/-- Whatever is called, and however the calls end: what has been sent on the connection is a handshake and,
behind it, commands of the one protocol that its answer settled. -/
theorem handshaken_conversed {c : Client} (h : c.Handshaken) {sk : Sock} (hsk : c.sock = some sk) :
    c.Conversed sk.sent := h.attuned.connected sk hsk

end calls

/-! ### A client in batch mode -/

/-- Its server speaks v3 and accepts BATCH. -/
def batching : Client :=
  { cfg := { wantBatch := true },
    env := ⟨fun _ => .opened
      { incoming := [.data (Bytes.lit "SeedLink v3.1" ++ crlf ++ Bytes.lit "ORG" ++ crlf ++ Bytes.lit "OK" ++ crlf)],
        peer := fun _ pending _ => .ok pending }, fun _ => 0, fun _ => true⟩ }

def helloAndBatch : List Bytes := [Bytes.lit "HELLO" ++ crlf, Bytes.lit "BATCH" ++ crlf]

def helloBatchBye : List Bytes := helloAndBatch ++ [Bytes.lit "BYE" ++ crlf]

/-- The run returns in batch mode, and these lines have been sent on its connection. -/
def batches {α : Type} (x : ClientM α) (c : Client) (lines : List Bytes) : Bool :=
  match x c with
  | .ok _ c' => c'.batchActive && c'.sock.map Sock.sent == some lines
  | .error _ _ => false

theorem exists_of_batches {α : Type} {x : ClientM α} {c : Client} {lines : List Bytes}
    (h : batches x c lines = true) : ∃ a sk, x c = .ok a (c.behind x) ∧ (c.behind x).batchActive = true ∧
      (c.behind x).sock = some sk ∧ sk.sent = lines := by
  unfold batches at h
  split at h
  · rename_i a c' hrun
    rw [Bool.and_eq_true, beq_iff_eq] at h
    obtain ⟨sk, hsk, hsent⟩ := Option.map_eq_some_iff.1 h.2
    have hbehind : c.behind x = c' := by rw [Client.behind, hrun]
    rw [hbehind]
    exact ⟨a, sk, hrun, h.1, hsk, hsent⟩
  · cases h

/-- The client once it has connected. -/
def batched : Client := batching.behind (@Method.run Externals.bare (.connect true))

/-- The connection of a client that has connected and takes its leave: HELLO, BATCH and BYE. -/
theorem handshaken_conversed_batching : ∃ (c : Client) (sk : Sock), c.batchActive = true ∧ c.sock = some sk ∧
    sk.sent = helloBatchBye ∧ c.Conversed sk.sent := by
  have hconnect : batches (@Method.run Externals.bare (.connect true)) batching helloAndBatch = true := by decide +kernel
  have hbye : batches (@Method.run Externals.bare .bye) batched helloBatchBye = true := by decide +kernel
  obtain ⟨_, _, hconnected, -⟩ := exists_of_batches hconnect
  obtain ⟨_, sk, hleft, hbatch, hsk, hsent⟩ := exists_of_batches hbye
  have hnew : @Client.Handshaken Externals.bare batching :=
    @Client.Handshaken.new Externals.bare batching.cfg batching.env {}
  have hbatched : @Client.Handshaken Externals.bare batched :=
    @Client.Handshaken.call Externals.bare batching hnew (.connect true) (by rintro ⟨⟩)
      fun c' h => by rw [hconnected] at h; cases h
  have hcall := @Client.Handshaken.call Externals.bare batched hbatched .bye (by rintro ⟨⟩)
    fun c' h => by rw [hleft] at h; cases h
  exact ⟨_, sk, hbatch, hsk, hsent, @handshaken_conversed Externals.bare _ hcall sk hsk⟩

end SeedLink
