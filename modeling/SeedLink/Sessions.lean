import SeedLink.Negotiation
import SeedLink.Passes
import SeedLink.Servers
import SeedLink.Steady

/-!
# Sessions with a v4 server

A session on an honoured connection: the client reads exactly the reply lines that are due for what it
has sent (`Settled`), so that behind `END` nothing is left over and it reads the items of the
transcript one by one (`Streams`).
-/

namespace SeedLink

open StateExc Client Commands

/-! ### Parsing along a connection -/

/-- The client is on a connection that came from `sk₀`, has sent the lines `sent` on it and has
consumed these bytes. -/
structure Client.On (c : Client) (sk₀ : Sock) (consumed : Bytes) (sent : List Bytes) : Prop where
  wf : c.rb.WF
  conn : ∃ sk, c.sock = some sk ∧ sk.sent = sent ∧ sk₀.Reaches (consumed ++ c.stream) sk

section on
variable {c c' : Client} {sk₀ : Sock} {consumed : Bytes} {sent : List Bytes}

namespace Client.On

theorem isSome (h : c.On sk₀ consumed sent) : c.sock.isSome = true := by
  obtain ⟨sk, hsk, -⟩ := h.conn
  rw [hsk]
  rfl

theorem congr (h : c.On sk₀ consumed sent) (hrb : c'.rb = c.rb) (hsock : c'.sock = c.sock) :
    c'.On sk₀ consumed sent := by
  have hs : c'.stream = c.stream := by rw [Client.stream, Client.stream, hrb, hsock]
  exact ⟨hrb ▸ h.wf, by rw [hsock, hs]; exact h.conn⟩

theorem reads (h : c.On sk₀ consumed sent) (hr : c.OnlyReads c') {s : Bytes} {later : List Recv}
    (hf : c'.Feeds s later) {taken : Bytes} (hs : c.stream = taken ++ c'.stream) :
    c'.On sk₀ (consumed ++ taken) sent := by
  obtain ⟨sk, hsk, hsent, hreach⟩ := h.conn
  obtain ⟨sk', hsk'⟩ := Option.isSome_iff_exists.1 hf.isSome
  obtain ⟨sk₁, hsk₁, hpeer, hsent', hsuf⟩ := hr sk' hsk'
  obtain rfl : sk = sk₁ := Option.some.inj (hsk.symm.trans hsk₁)
  have heq : sk' = { sk with incoming := sk'.incoming } := by
    cases sk'
    cases sk
    simp_all
  refine ⟨hf.wf, sk', hsk', hsent'.trans hsent, ?_⟩
  rw [List.append_assoc, ← hs, heq]
  exact .reads hreach hsuf

theorem sends (h : c.On sk₀ consumed sent) {wire : Bytes} (hs : c.Sends wire c') :
    c'.On sk₀ consumed (sent ++ [wire]) := by
  obtain ⟨sk, incoming, hsk, hpeer, rfl⟩ := hs
  obtain ⟨sk₁, hsk₁, rfl, hreach⟩ := h.conn
  obtain rfl : sk = sk₁ := Option.some.inj (hsk.symm.trans hsk₁)
  have hstream : c.stream = c.rb.unread ++ delivered sk.incoming := by
    rw [Client.stream, hsk]
    rfl
  rw [hstream, ← List.append_assoc] at hreach
  have := Sock.Reaches.sends hreach hpeer
  rw [List.append_assoc] at this
  exact ⟨h.wf, _, rfl, rfl, this⟩

end Client.On

theorem wp_readLine_on {E : Stop → Client → Prop} (h : c.On sk₀ consumed sent)
    (hE : ∀ s later stop c', c.Feeds s later → ReadFails c s later stop c' → E stop c') :
    wp readLine (fun line c' => ∃ l, IsLine l ∧ Bytes.decodeAscii l = some line ∧
      c'.On sk₀ (consumed ++ (l ++ crlf)) sent ∧ c'.core = c.core) E c := by
  obtain ⟨s, later, hf, hstall⟩ := exists_feeds h.wf h.isSome
  have hread : wp readLine (fun line c' => ∃ i, Text.findSub crlf s = some i ∧
      Bytes.decodeAscii (s.take i) = some line ∧ c'.Feeds (s.drop (i + 2)) later ∧ c'.core = c.core) E c :=
    wp_readLine hf hstall (fun i line c' hi hl hf' hc' => ⟨i, hi, hl, hf', hc'⟩) fun stop c' => hE s later stop c' hf
  refine wp_mono (wp_and hread (onlyReads.reading.readLine c)) ?_ fun _ _ h => h.1
  rintro line c' ⟨⟨i, hi, hl, hf', hc'⟩, hr⟩
  obtain ⟨hline, hsplit⟩ := isLine_take hi
  refine ⟨s.take i, hline, hl, h.reads hr hf' ?_, hc'⟩
  rw [hf.stream, hf'.stream, ← List.append_assoc, ← hsplit]

variable [Externals]

theorem wp_awaitFrame_on (h : c.On sk₀ consumed sent) (hp : c.protocol = some .v4) :
    wp awaitFrame (fun received c' =>
      (received = none ∧ c'.On sk₀ consumed sent ∨
        ∃ x n, received = some x ∧ Takes (some .v4) c.stream x n ∧
          c'.On sk₀ (consumed ++ c.stream.take n) sent) ∧
      ∃ k, c'.core = ({ c with polls := k } : Client).core) (fun _ _ => True) c := by
  obtain ⟨s, later, hf, hstall⟩ := exists_feeds h.wf h.isSome
  refine wp_mono (wp_and (wp_awaitFrame hf hstall) (onlyReads.reading.awaitFrame c)) ?_ fun _ _ _ => trivial
  rintro received c' ⟨ha, hr⟩
  cases ha with
  | @nothing k _ _ hf' hc =>
    refine ⟨.inl ⟨rfl, ?_⟩, k, hc⟩
    have := @On.reads _ _ _ _ _ h hr _ _ hf' [] (by rw [List.nil_append, hf.stream, hf'.stream])
    rwa [List.append_nil] at this
  | @received k n x _ _ ht hf' hc =>
    rw [hp] at ht
    have hstream := hf.stream
    refine ⟨.inr ⟨x, n, rfl, by rw [hstream]; exact ht.append _, h.reads hr hf' ?_⟩, k, hc⟩
    rw [hf'.stream, hstream, List.take_append_of_le_length ht.le_length, ← List.append_assoc, List.take_append_drop]

end on

/-! ### Hearing commands -/

/-- The word and the blank at the front of a line, and what stands behind them. -/
theorem wire_word {cmd : Command} {wire : Bytes} (word : Text) {rest : Text} (h : cmd.wire = .ok wire)
    (htext : cmd.text = word ++ rest) : ∃ w r, Bytes.encodeAscii word = some w ∧
      Bytes.encodeAscii rest = some r ∧ wire = w ++ (r ++ cmd.terminator) := by
  obtain ⟨text, ht, rfl, -⟩ := wire_eq h
  rw [htext] at ht
  obtain ⟨w, r, hw, hr, rfl⟩ := Bytes.encodeAscii_append ht
  exact ⟨w, r, hw, hr, List.append_assoc _ _ _⟩

/-- What a command adds to what a server has heard. -/
def Heard.command (h : Heard) (cmd : Command) : Heard :=
  match cmd.wire with
  | .ok wire => (h.line wire).getD h
  | .error _ => h

/-- A command that is answered by one line. -/
structure Command.Replied (cmd : Command) : Prop where
  parse : cmd.parse.isSome = true
  line : ∀ {wire : Bytes} {h : Heard}, cmd.wire = .ok wire → h.streaming = false →
    ∃ h', h.line wire = some h' ∧ h'.streaming = false ∧ h'.due = h.due + 1

theorem Heard.command_of_wire {h h' : Heard} {cmd : Command} {wire : Bytes} (hw : cmd.wire = .ok wire)
    (hl : h.line wire = some h') : h.command cmd = h' := by
  simp only [Heard.command, hw, hl, Option.getD_some]

/-- The keywords that mean more than a reply line. -/
def keywords : List Bytes := ["INFO", "HELLO", "END", "ENDFETCH", "STATION", "DATA"].map Bytes.lit

theorem line_other {h : Heard} {wire : Bytes} (hs : h.streaming = false) (hk : keyword wire ∉ keywords) :
    h.line wire = some { h with due := h.due + 1 } := by
  simp only [keywords, List.map_cons, List.map_nil, List.mem_cons, List.not_mem_nil, or_false, not_or] at hk
  obtain ⟨h1, h2, h3, h4, h5, h6⟩ := hk
  simp only [Heard.line, hs, h1, h2, h3, h4, h5, h6, or_self, Bool.false_eq_true, if_false]

theorem replied_of_keyword {cmd : Command} (word : Text) {rest : Text} {w : Bytes} (hparse : cmd.parse.isSome = true)
    (htext : cmd.text = word ++ rest) (hw : Bytes.encodeAscii word = some w)
    (hk : ∀ t, keyword (w ++ t) ∉ keywords) :
    cmd.Replied ∧ ∀ {wire : Bytes} {h : Heard}, cmd.wire = .ok wire → h.streaming = false →
      h.command cmd = { h with due := h.due + 1 } := by
  have hl : ∀ {wire : Bytes} {h : Heard}, cmd.wire = .ok wire → h.streaming = false →
      h.line wire = some { h with due := h.due + 1 } := by
    intro wire h hwire hs
    obtain ⟨w', r, hw', -, rfl⟩ := wire_word _ hwire htext
    obtain rfl : w = w' := Option.some.inj (hw.symm.trans hw')
    exact line_other hs (hk _)
  exact ⟨⟨hparse, fun hwire hs => ⟨_, hl hwire hs, hs, rfl⟩⟩, fun hwire hs =>
    Heard.command_of_wire hwire (hl hwire hs)⟩

theorem replied_of_planHandshake {caps : Capabilities} {clientName clientVersion : Option Text}
    {clientId : Text × Text} {auth : Option Auth} {wantBatch : Bool} {cmds : List Command}
    (h : planHandshake (some .v4) caps clientName clientVersion clientId auth wantBatch = .ok cmds) :
    ∀ cmd ∈ cmds, cmd.Replied ∧ ∀ {wire : Bytes} {h : Heard}, cmd.wire = .ok wire → h.streaming = false →
      h.command cmd = { h with due := h.due + 1 } := by
  have hauth : ∀ {cmds : List Command}, authCommands auth = .ok cmds → ∀ cmd ∈ cmds,
      cmd.parse.isSome = true ∧ ∃ rest, cmd.text = "AUTH ".toList ++ rest := by
    intro cmds hcmds cmd hmem
    unfold authCommands at hcmds
    split at hcmds
    · cases hcmds; simp at hmem
    · rename_i token
      cases hcmds
      obtain rfl := List.mem_singleton.1 hmem
      exact ⟨rfl, "JWT ".toList ++ token, rfl⟩
    · rename_i username password
      obtain ⟨cmd', hcmd', hcmds⟩ := exists_of_bind_ok hcmds
      cases hcmds
      obtain rfl := List.mem_singleton.1 hmem
      unfold authUserpass at hcmd'
      split at hcmd' <;> cases hcmd'
      exact ⟨rfl, "USERPASS ".toList ++ username ++ ' ' :: password, rfl⟩
  unfold planHandshake at h
  simp only [if_true] at h
  obtain ⟨auths, hauths, h⟩ := exists_of_bind_ok h
  cases h
  intro cmd hmem
  have hmem : cmd = slproto "4.0".toList ∨ cmd = useragent clientName clientVersion clientId ∨
      cmd ∈ auths := by
    simpa using hmem
  rcases hmem with rfl | rfl | hmem
  · exact replied_of_keyword "SLPROTO ".toList rfl rfl rfl fun t => by
      show Bytes.lit "SLPROTO" ∉ keywords
      decide
  · exact replied_of_keyword "USERAGENT ".toList rfl rfl rfl fun t => by
      show Bytes.lit "USERAGENT" ∉ keywords
      decide
  · obtain ⟨hparse, rest, htext⟩ := hauth hauths cmd hmem
    exact replied_of_keyword _ hparse htext rfl fun t => by
      show Bytes.lit "AUTH" ∉ keywords
      decide

/-! ### Hearing a plan -/

/-- The argument of the `DATA` that goes on from a position. -/
def positionArg (seqnum : Option Int) : Text :=
  match seqnum with
  | none => []
  | some n => Text.intNumeral 10 (n + 1)

/-- What is heard of a stream: its name and its `DATA` argument. -/
def Asks (s : Stream) (request : Bytes × Bytes) : Prop :=
  Bytes.encodeAscii s.stationId = some request.1 ∧
    Bytes.encodeAscii (positionArg s.seqnum) = some request.2

theorem command_stationV4 {stationId : Text} {wire : Bytes} (hw : (stationV4 stationId).wire = .ok wire) :
    ∃ name, Bytes.encodeAscii stationId = some name ∧ ∀ h : Heard, h.streaming = false →
      h.line wire = some { h with due := h.due + 1, station := name } := by
  obtain ⟨w, name, hw', hname, rfl⟩ := wire_word "STATION ".toList hw rfl
  cases hw'
  refine ⟨name, hname, fun h hs => ?_⟩
  have hk : keyword (Bytes.lit "STATION " ++ (name ++ cr)) = Bytes.lit "STATION" := rfl
  have harg : argument (Bytes.lit "STATION " ++ (name ++ cr)) = name := by
    show (((32 :: name) ++ [13]).dropLast).drop 1 = name
    rw [List.dropLast_concat]
    rfl
  show Heard.line h (Bytes.lit "STATION " ++ (name ++ cr)) = _
  simp only [Heard.line, hk, hs, harg]
  rfl

theorem command_dataV4 {stationId : Text} {pos : Option Int} {stop : Option DateTime} {data : Command}
    {wire : Bytes} (hdata : dataV4 stationId (pos.map (· + 1)) false none stop = .ok data)
    (hw : data.wire = .ok wire) :
    ∃ arg, Bytes.encodeAscii (positionArg pos) = some arg ∧ ∀ h : Heard, h.streaming = false →
      h.line wire =
        some { h with due := h.due + 1, requests := h.requests ++ [(h.station, arg)] } := by
  obtain ⟨hterm, hbare, hnum⟩ := dataV4_text hdata
  have hline : ∀ arg t : Bytes, keyword (Bytes.lit "DATA" ++ (t ++ cr)) = Bytes.lit "DATA" →
      argument (Bytes.lit "DATA" ++ (t ++ cr)) = arg → ∀ h : Heard, h.streaming = false →
        h.line (Bytes.lit "DATA" ++ (t ++ cr)) =
          some { h with due := h.due + 1, requests := h.requests ++ [(h.station, arg)] } := by
    intro arg t hk harg h hs
    simp only [Heard.line, hk, hs, harg]
    rfl
  cases pos with
  | none =>
    obtain ⟨w, r, hw', hr, rfl⟩ := wire_word "DATA".toList hw (hbare rfl rfl)
    cases hw'
    cases hr
    rw [hterm]
    exact ⟨[], rfl, hline [] [] rfl rfl⟩
  | some n =>
    obtain ⟨w, r, hw', hr, rfl⟩ := wire_word "DATA".toList hw (hnum (n + 1) rfl)
    cases hw'
    obtain ⟨sp, arg, hsp, harg, rfl⟩ := Bytes.encodeAscii_append (s := [' ']) hr
    cases hsp
    rw [hterm]
    refine ⟨arg, harg, hline arg _ rfl ?_⟩
    show (((32 :: arg) ++ [13]).dropLast).drop 1 = arg
    rw [List.dropLast_concat]
    rfl

section plans
variable [Externals] {args : NegotiationArgs} {server : Server}

/-- The lines of a stream are all answered, and ask for it. -/
theorem command_planStreamV4 (hstart : args.startTime = none) (hresume : args.resume = true) {s : Stream}
    (hall : s.allData = false) {cmds : List Command} (hp : planStreamV4 args s = .ok cmds) :
    (∀ cmd ∈ cmds, cmd.Replied) ∧ ((∀ cmd ∈ cmds, ∃ wire, cmd.wire = .ok wire) →
      ∃ request, Asks s request ∧ ∀ h : Heard, h.streaming = false →
        (cmds.foldl Heard.command h).streaming = false ∧
          (cmds.foldl Heard.command h).requests = h.requests ++ [request]) := by
  have hseq : args.resumeSeqnum s = s.seqnum.map (· + 1) := if_pos hresume
  unfold planStreamV4 at hp
  simp only [hstart, Option.isSome_none, Bool.false_eq_true, if_false, hseq, hall] at hp
  obtain ⟨data, hdata, hp⟩ := exists_of_bind_ok hp
  cases hp
  have hselect : ∀ cmd ∈ s.selectors.map fun sel => selectV4 s.stationId (wireSelector args.protocol sel),
      cmd.Replied ∧ ∀ {wire : Bytes} {h : Heard}, cmd.wire = .ok wire → h.streaming = false →
        h.command cmd = { h with due := h.due + 1 } := by
    intro cmd hmem
    obtain ⟨sel, -, rfl⟩ := List.mem_map.1 hmem
    exact replied_of_keyword "SELECT ".toList rfl rfl rfl fun t => by
      show Bytes.lit "SELECT" ∉ keywords
      decide
  constructor
  · intro cmd hmem
    rcases List.mem_append.1 hmem with hmem | hmem
    · rcases List.mem_cons.1 hmem with rfl | hmem
      · refine ⟨rfl, fun hw hs => ?_⟩
        obtain ⟨name, -, hline⟩ := command_stationV4 hw
        exact ⟨_, hline _ hs, hs, rfl⟩
      · exact (hselect cmd hmem).1
    · obtain rfl := List.mem_singleton.1 hmem
      refine ⟨by rw [(dataV4_shape hdata).2.1]; rfl, fun hw hs => ?_⟩
      obtain ⟨arg, -, hline⟩ := command_dataV4 hdata hw
      exact ⟨_, hline _ hs, hs, rfl⟩
  · intro hwires
    obtain ⟨wire₁, hw₁⟩ := hwires _ (List.mem_cons_self (a := stationV4 s.stationId))
    obtain ⟨wire₂, hw₂⟩ := hwires data (by simp)
    obtain ⟨name, hname, hline₁⟩ := command_stationV4 hw₁
    obtain ⟨arg, harg, hline₂⟩ := command_dataV4 hdata hw₂
    refine ⟨(name, arg), ⟨hname, harg⟩, fun h hs => ?_⟩
    have hselects : ∀ (cmds : List Command) (h : Heard), h.streaming = false →
        (∀ cmd ∈ cmds, cmd ∈ s.selectors.map fun sel => selectV4 s.stationId (wireSelector args.protocol sel)) →
        (∀ cmd ∈ cmds, ∃ wire, cmd.wire = .ok wire) →
        (cmds.foldl Heard.command h).streaming = false ∧
          (cmds.foldl Heard.command h).requests = h.requests ∧
          (cmds.foldl Heard.command h).station = h.station := by
      intro cmds
      induction cmds with
      | nil => exact fun h hs _ _ => ⟨hs, rfl, rfl⟩
      | cons cmd cmds ih =>
        intro h hs hmem hwires
        obtain ⟨wire, hw⟩ := hwires cmd List.mem_cons_self
        rw [List.foldl_cons, (hselect cmd (hmem cmd List.mem_cons_self)).2 hw hs]
        exact ih _ hs (fun c hc => hmem c (List.mem_cons_of_mem _ hc))
          fun c hc => hwires c (List.mem_cons_of_mem _ hc)
    rw [List.cons_append, List.foldl_cons, Heard.command_of_wire hw₁ (hline₁ h hs), List.foldl_append]
    obtain ⟨hs', hreq, hst⟩ := hselects _ { h with due := h.due + 1, station := name } hs (fun _ hc => hc)
      fun cmd hc => hwires cmd (List.mem_append_left _ (List.mem_cons_of_mem _ hc))
    rw [List.foldl_cons, List.foldl_nil, Heard.command_of_wire hw₂ (hline₂ _ hs'), hreq, hst]
    exact ⟨hs', rfl⟩

/-- The lines of all streams. -/
theorem command_planStreams (hstart : args.startTime = none) (hresume : args.resume = true) :
    ∀ {streams : List Stream} {cmds : List Command}, (∀ s ∈ streams, s.allData = false) →
      (planStreams (fun s => (planStreamV4 args s, s)) streams).1 = .ok cmds →
      (∀ cmd ∈ cmds, cmd.Replied) ∧ ((∀ cmd ∈ cmds, ∃ wire, cmd.wire = .ok wire) →
        ∃ requests, List.Forall₂ Asks streams requests ∧ ∀ h : Heard, h.streaming = false →
          (cmds.foldl Heard.command h).streaming = false ∧
            (cmds.foldl Heard.command h).requests = h.requests ++ requests)
  | [], cmds, _, hp => by
    cases hp
    exact ⟨by simp, fun _ => ⟨[], .nil, fun h hs => ⟨hs, (List.append_nil _).symm⟩⟩⟩
  | s :: rest, cmds, hall, hp => by
    unfold planStreams at hp
    cases hs : planStreamV4 args s with
    | error e => simp only [hs] at hp; cases hp
    | ok cmds₁ =>
      simp only [hs] at hp
      cases hrest : (planStreams (fun s => (planStreamV4 args s, s)) rest).1 with
      | error e => rw [hrest] at hp; cases hp
      | ok cmds₂ =>
        rw [hrest] at hp
        cases hp
        obtain ⟨hrep₁, hask₁⟩ := command_planStreamV4 hstart hresume (hall s List.mem_cons_self) hs
        obtain ⟨hrep₂, hask₂⟩ := command_planStreams hstart hresume
          (fun s hm => hall s (List.mem_cons_of_mem _ hm)) hrest
        refine ⟨fun cmd hm => (List.mem_append.1 hm).elim (hrep₁ cmd) (hrep₂ cmd), fun hwires => ?_⟩
        obtain ⟨request, hr₁, hf₁⟩ := hask₁ fun cmd hm => hwires cmd (List.mem_append_left _ hm)
        obtain ⟨requests, hr₂, hf₂⟩ := hask₂ fun cmd hm => hwires cmd (List.mem_append_right _ hm)
        refine ⟨request :: requests, .cons hr₁ hr₂, fun h hs => ?_⟩
        rw [List.foldl_append]
        obtain ⟨hs', hreq⟩ := hf₁ h hs
        obtain ⟨hs'', hreq'⟩ := hf₂ _ hs'
        exact ⟨hs'', by rw [hreq', hreq, List.append_assoc]; rfl⟩

end plans

/-! ### Before `END` -/

section settled
variable [Externals] {server : Server} {c c' : Client} {h : Heard} {read : List Bytes} {cmd : Command}
  {r : Option Text} {log : Log}

/-- The client has sent what is heard as `h`, and has consumed the lines `read`. -/
structure Client.Talks (server : Server) (c : Client) (h : Heard) (read : List Bytes) : Prop where
  conn : ∃ sk₀ sent, server.Honours c.cfg sk₀ ∧ heard sent = some h ∧ c.On sk₀ (terminated read) sent
  isLine : ∀ line ∈ read, IsLine line

/-- Every reply that is due has been read, and `END` not been sent. -/
def Client.Settled (server : Server) (c : Client) (h : Heard) : Prop :=
  h.streaming = false ∧ ∃ read, c.Talks server h read ∧ read.length = h.due

theorem Client.Talks.congr (ht : c.Talks server h read) (hcfg : c'.cfg = c.cfg) (hrb : c'.rb = c.rb)
    (hsock : c'.sock = c.sock) : c'.Talks server h read := by
  obtain ⟨⟨sk₀, sent, hhon, hheard, hon⟩, hline⟩ := ht
  exact ⟨⟨sk₀, sent, hcfg ▸ hhon, hheard, hon.congr hrb hsock⟩, hline⟩

theorem Client.Settled.congr (hs : c.Settled server h) (hcfg : c'.cfg = c.cfg) (hrb : c'.rb = c.rb)
    (hsock : c'.sock = c.sock) : c'.Settled server h := by
  obtain ⟨hsil, read, ht, hlen⟩ := hs
  exact ⟨hsil, read, ht.congr hcfg hrb hsock, hlen⟩

/-- The lines read are lines of the transcript. -/
theorem Client.Talks.transcript (ht : c.Talks server h read) (hle : read.length ≤ h.due) :
    ∃ lines items, server.Transcript c.cfg h lines items ∧ read <+: lines ∧
      terminated read ++ c.stream <+: terminated lines ++ encoded items := by
  obtain ⟨⟨sk₀, sent, hhon, hheard, hon⟩, hline⟩ := ht
  obtain ⟨sk, hsk, rfl, hreach⟩ := hon.conn
  obtain ⟨lines, items, htr, hpre⟩ := hhon.owed _ sk h hreach hheard
  refine ⟨lines, items, htr, ?_, hpre⟩
  exact prefix_of_terminated hline htr.isLine (htr.due ▸ hle) ((List.prefix_append _ _).trans hpre)

theorem Client.Talks.sends (ht : c.Talks server h read) {wire : Bytes} {h' : Heard} (hs : c.Sends wire c')
    (hl : h.line wire = some h') : c'.Talks server h' read := by
  obtain ⟨⟨sk₀, sent, hhon, hheard, hon⟩, hline⟩ := ht
  refine ⟨⟨sk₀, sent ++ [wire], ?_, by rw [heard_concat hheard, hl], hon.sends hs⟩, hline⟩
  rw [cfg_of_frame hs.frame]
  exact hhon

theorem wp_readLine_talks (ht : c.Talks server h read) :
    wp readLine (fun line c' => ∃ l, Bytes.decodeAscii l = some line ∧ c'.Talks server h (read ++ [l]) ∧
      c'.core = c.core) (fun _ _ => True) c := by
  obtain ⟨⟨sk₀, sent, hhon, hheard, hon⟩, hline⟩ := ht
  refine wp_mono (wp_readLine_on hon fun _ _ _ _ _ _ => trivial) ?_ fun _ _ _ => trivial
  rintro line c' ⟨l, hl, hdec, hon', hc'⟩
  refine ⟨l, hdec, ⟨⟨sk₀, sent, cfg_of_core hc' ▸ hhon, hheard, ?_⟩, ?_⟩, hc'⟩
  · rw [terminated_append, terminated_cons, terminated_nil, List.append_nil]
    exact hon'
  · intro l' hm
    rcases List.mem_append.1 hm with hm | hm
    · exact hline l' hm
    · obtain rfl := List.mem_singleton.1 hm
      exact hl

/-- A command and its reply. -/
theorem Client.Settled.exchanges (hs : c.Settled server h) (hcmd : cmd.Replied)
    (hx : Exchanges c cmd r c') : c'.Settled server (h.command cmd) ∧ c'.frame = c.frame ∧
      ∃ wire, cmd.wire = .ok wire := by
  obtain ⟨hsil, read, ht, hlen⟩ := hs
  cases hx with
  | silent hp =>
    have := hcmd.parse
    rw [hp] at this
    cases this
  | @replied _ wire line _ c₁ _ hp hw hsend hread =>
    obtain ⟨h', hl, hsil', hdue⟩ := hcmd.line hw hsil
    obtain ⟨l, -, ht', hc'⟩ := wp_ok (wp_readLine_talks (ht.sends hsend hl)) hread
    rw [Heard.command_of_wire hw hl]
    refine ⟨⟨hsil', read ++ [l], ht', ?_⟩, (frame_of_core hc').trans hsend.frame, wire, hw⟩
    rw [List.length_append, hdue, hlen]
    rfl

theorem Client.Settled.conversation (hs : c.Settled server h) (hcmds : ∀ cmd ∈ log.map Prod.fst, cmd.Replied)
    (hconv : Conversation c log c') :
    c'.Settled server ((log.map Prod.fst).foldl Heard.command h) ∧ c'.frame = c.frame ∧
      ∀ cmd ∈ log.map Prod.fst, ∃ wire, cmd.wire = .ok wire := by
  induction hconv generalizing h with
  | nil => exact ⟨hs, rfl, by simp⟩
  | @cons c c₁ c' cmd r log hx hrest ih =>
    obtain ⟨hs₁, hf₁, hw⟩ := hs.exchanges (hcmds cmd List.mem_cons_self) hx
    obtain ⟨hs', hf', hws⟩ := ih hs₁ fun cmd hm => hcmds cmd (List.mem_cons_of_mem _ hm)
    refine ⟨hs', hf'.trans hf₁, fun cmd' hm => ?_⟩
    rcases List.mem_cons.1 hm with rfl | hm
    · exact hw
    · exact hws cmd' hm

/-! ### Connecting -/

theorem wp_sendHandshake_settled : ∀ {cmds : List Command} {c : Client} {h : Heard},
    (∀ cmd ∈ cmds, cmd.Replied ∧ ∀ {wire : Bytes} {h : Heard}, cmd.wire = .ok wire → h.streaming = false →
      h.command cmd = { h with due := h.due + 1 }) → h.requests = [] → c.Settled server h →
    wp (sendHandshake cmds) (fun _ c' => ∃ h', c'.Settled server h' ∧ h'.requests = [] ∧
      c'.protocol = c.protocol ∧ c'.streaming = c.streaming) (fun _ _ => True) c
  | [], c, h, _, hreq, hs => ⟨h, hs, hreq, rfl, rfl⟩
  | cmd :: rest, c, h, hcmds, hreq, hs => by
    obtain ⟨hrep, hcommand⟩ := hcmds cmd List.mem_cons_self
    simp only [sendHandshake, wp_bind, wp_ite, wp_modify]
    rcases sendCommand_cases c cmd with ⟨r, c₁, hx, hrun⟩ | ⟨stop, c', hrun⟩
    · refine (wp_iff_of_ok hrun).2 ?_
      obtain ⟨hs₁, hf₁, wire, hw⟩ := hs.exchanges hrep hx
      have hreq₁ : (h.command cmd).requests = [] := by rw [hcommand hw hs.1]; exact hreq
      have hp : c₁.protocol = c.protocol := protocol_of_frame hf₁
      have hst : c₁.streaming = c.streaming := (congrArg Client.streaming hf₁ :)
      have hrec : ∀ c₂ : Client, c₂.Settled server (h.command cmd) → c₂.protocol = c.protocol →
          c₂.streaming = c.streaming → wp (sendHandshake rest) (fun _ c' => ∃ h', c'.Settled server h' ∧
            h'.requests = [] ∧ c'.protocol = c.protocol ∧ c'.streaming = c.streaming) (fun _ _ => True) c₂ := by
        intro c₂ hs₂ hp₂ hst₂
        refine wp_mono (wp_sendHandshake_settled (fun cmd hm => hcmds cmd (List.mem_cons_of_mem _ hm))
          hreq₁ hs₂) ?_ fun _ _ h => h
        rintro _ c' ⟨h', hs', hreq', hp', hst'⟩
        exact ⟨h', hs', hreq', hp'.trans hp₂, hst'.trans hst₂⟩
      split
      · exact hrec _ (hs₁.congr rfl rfl rfl) hp hst
      · exact hrec c₁ hs₁ hp hst
    · exact (wp_iff_of_error hrun).2 trivial

/-- The two lines of a `HELLO` are read, and lead to v4. -/
theorem wp_doHello_settled (hs : c.Talks server {} []) :
    wp doHello (fun _ c' => c'.Settled server { due := 2 } ∧ c'.protocol = some .v4 ∧
      c'.streaming = c.streaming) (fun _ _ => True) c := by
  have hw : hello.wire = .ok (Bytes.lit "HELLO" ++ crlf) := rfl
  have hl : ({} : Heard).line (Bytes.lit "HELLO" ++ crlf) = some { due := 2 } := rfl
  simp only [doHello, wp_bind, wp_modify, wp_get, wp_liftExcept]
  refine wp_sendCommand (fun _ => trivial) (fun _ _ _ => trivial) (fun _ _ => trivial) fun wire c₁ hw₁ hsend => ?_
  obtain rfl : Bytes.lit "HELLO" ++ crlf = wire := Except.ok.inj (hw.symm.trans hw₁)
  show wp readLine _ _ c₁
  refine wp_mono (wp_readLine_talks (hs.sends hsend hl)) ?_ fun _ _ _ => trivial
  rintro line₁ c₂ ⟨l₁, hd₁, ht₂, hc₂⟩
  refine wp_mono (wp_readLine_talks ht₂) ?_ fun _ _ _ => trivial
  rintro line₂ c₃ ⟨l₂, hd₂, ht₃, hc₃⟩
  have hst : c₃.streaming = c.streaming := (streaming_of_core hc₃).trans <|
    (streaming_of_core hc₂).trans (congrArg Client.streaming hsend.frame :)
  obtain ⟨lines, items, htr, hpre, -⟩ := ht₃.transcript (Nat.le_refl 2)
  obtain rfl : [l₁, l₂] = lines := hpre.eq_of_length (htr.due.symm ▸ rfl)
  have hv3 := htr.hello l₁ l₂ [] line₁ line₂ rfl hd₁ hd₂
  cases hsel : selectProtocol (storeIdentity line₁ line₂ c₃).serverProtocolMajors
      (storeIdentity line₁ line₂ c₃).cfg.requestedProtocol with
  | error e => trivial
  | ok p =>
    cases p with
    | v3 => exact absurd hsel hv3
    | v4 => exact ⟨⟨rfl, [l₁, l₂], ht₃.congr rfl rfl rfl, rfl⟩, rfl, hst⟩

theorem wp_doHandshake_settled (hs : c.Talks server {} []) :
    wp doHandshake (fun _ c' => (∃ h, c'.Settled server h ∧ h.requests = []) ∧ c'.protocol = some .v4 ∧
      c'.streaming = c.streaming) (fun _ _ => True) c := by
  refine @wp_tryExcept_of _ _ _ _ _ _ _ (fun _ _ => True) ?_ (fun _ _ _ _ => trivial) fun _ _ _ _ => trivial
  simp only [wp_bind, wp_get, wp_liftExcept]
  refine wp_mono (wp_doHello_settled hs) ?_ fun _ _ _ => trivial
  rintro _ c₁ ⟨hs₁, hp₁, hst₁⟩
  cases hplan : handshakePlan c₁ with
  | error e => trivial
  | ok cmds =>
    simp only
    have hcmds := replied_of_planHandshake (by rw [handshakePlan, hp₁] at hplan; exact hplan)
    refine wp_mono (wp_sendHandshake_settled hcmds rfl hs₁) ?_ fun _ _ _ => trivial
    rintro _ c' ⟨h, hs', hreq, hp', hst'⟩
    exact ⟨⟨h, hs', hreq⟩, hp'.trans hp₁, hst'.trans hst₁⟩

theorem wp_connect_settled (hserver : ∀ n sk, c.env.dial n = .opened sk → server.Honours c.cfg sk)
    (hbuf : recvBufSize ≤ c.rb.buf.size) (hsock : c.sock = none) :
    wp (connect true) (fun _ c' => (∃ h, c'.Settled server h ∧ h.requests = []) ∧
      c'.protocol = some .v4 ∧ c'.streaming = c.streaming) (fun _ _ => True) c := by
  have hscoped : c.scoped.cfg = c.cfg ∧ c.scoped.env = c.env ∧ c.scoped.rb = c.rb ∧
      c.scoped.sock = none ∧ c.scoped.streaming = c.streaming := by
    unfold Client.scoped
    split <;> exact ⟨rfl, rfl, rfl, hsock, rfl⟩
  obtain ⟨hcfg, henv, hrb, hsock', hst⟩ := hscoped
  have hsteady : Steady (do connectSocket; doHandshake) := .bind steady_connectSocket fun _ => steady.doHandshake
  have hinner : wp (do connectSocket; doHandshake) (fun _ c' => (∃ h, c'.Settled server h ∧
      h.requests = []) ∧ c'.protocol = some .v4 ∧ c'.streaming = c.streaming) (fun _ _ => True) c.scoped := by
    rw [wp_bind]
    refine wp_connectSocket (fun _ => trivial) (fun sk _ hdial => ?_) fun _ _ _ _ => trivial
    have hhon := hserver _ sk (henv ▸ hdial)
    have htalk : ∀ c₁ : Client, c₁.cfg = c.cfg → c₁.rb = c.scoped.rb.reset → c₁.sock = some sk →
        c₁.Talks server {} [] := by
      intro c₁ hcfg₁ hrb₁ hsock₁
      refine ⟨⟨sk, [], hcfg₁ ▸ hhon, rfl, ?_, sk, hsock₁, hhon.fresh, ?_⟩, by simp⟩
      · rw [hrb₁, hrb]
        exact ⟨Nat.le_refl _, Nat.zero_le _, RecvBuf.size_reset_ge hbuf⟩
      · rw [Client.stream, hrb₁, RecvBuf.unread_reset, hsock₁]
        exact .opened
    refine wp_mono (wp_doHandshake_settled (htalk _ hcfg rfl rfl)) ?_ fun _ _ h => h
    rintro _ c' ⟨hs', hp', hst'⟩
    exact ⟨hs', hp', hst'.trans hst⟩
  rw [connect, wp_bind, wp_get]
  refine wp_timeoutScope (wp_mono (wp_and hinner (hsteady c.scoped)) ?_ ?_)
  · rintro _ c' ⟨⟨⟨h, hs', hreq⟩, hp', hst'⟩, hsame⟩
    refine ⟨hsame.cfg.trans hcfg, ⟨h, hs'.congr ?_ ?_ ?_, hreq⟩, by rw [unscoped_protocol, hp'], ?_⟩
    all_goals unfold Client.unscoped; split <;> first | rfl | exact hst'
  · rintro stop c' ⟨-, hsame⟩
    refine ⟨hsame.cfg.trans hcfg, ?_⟩
    split <;> trivial

/-! ### Behind `END` -/

/-- On an honoured connection that streams what has been asked for, the items `done` have been
received. -/
def Client.Receives (server : Server) (c : Client) (requests : List (Bytes × Bytes))
    (done : List (Bytes × Received)) : Prop :=
  ∃ sk₀ sent h lines, server.Honours c.cfg sk₀ ∧ heard sent = some h ∧ h.streaming = true ∧
    h.requests = requests ∧ server.Transcript c.cfg h lines done ∧
      c.On sk₀ (terminated lines ++ encoded done) sent

variable {requests : List (Bytes × Bytes)} {done : List (Bytes × Received)}

theorem Client.Receives.congr (hr : c.Receives server requests done) (hcfg : c'.cfg = c.cfg)
    (hrb : c'.rb = c.rb) (hsock : c'.sock = c.sock) : c'.Receives server requests done := by
  obtain ⟨sk₀, sent, h, lines, hhon, hheard, hst, hreq, htr, hon⟩ := hr
  exact ⟨sk₀, sent, h, lines, hcfg ▸ hhon, hheard, hst, hreq, hcfg ▸ htr, hon.congr hrb hsock⟩

/-- Nothing is left over when `END` is sent. -/
theorem Client.Settled.ends {dialup : Bool} (hs : c.Settled server h)
    (hx : Exchanges c (endV4 dialup) r c') : c'.Receives server h.requests [] ∧ c'.frame = c.frame := by
  obtain ⟨hsil, read, ⟨⟨sk₀, sent, hhon, hheard, hon⟩, hline⟩, hlen⟩ := hs
  cases hx with
  | replied hp => cases hp
  | @silent wire _ _ hw hsend =>
  have hl : h.line wire = some { h with streaming := true } := by
    have hk : keyword wire = Bytes.lit "END" ∨ keyword wire = Bytes.lit "ENDFETCH" := by
      cases dialup with
      | true =>
        obtain rfl : Bytes.lit "ENDFETCH" ++ crlf = wire := Except.ok.inj hw
        exact .inr rfl
      | false =>
        obtain rfl : Bytes.lit "END" ++ crlf = wire := Except.ok.inj hw
        exact .inl rfl
    have hinfo : keyword wire ≠ Bytes.lit "INFO" ∧ keyword wire ≠ Bytes.lit "HELLO" := by
      rcases hk with hk | hk <;> rw [hk] <;> decide
    simp only [Heard.line, hsil, hinfo.1, hinfo.2, hk, Bool.false_eq_true, if_false, if_true]
  have hcfg : c'.cfg = c.cfg := cfg_of_frame hsend.frame
  have hheard' : heard (sent ++ [wire]) = some { h with streaming := true } := by
    rw [heard_concat hheard, hl]
  have htalk : c'.Talks server { h with streaming := true } read :=
    ⟨⟨sk₀, sent ++ [wire], hcfg ▸ hhon, hheard', hon.sends hsend⟩, hline⟩
  obtain ⟨lines, items, htr, hpre, -⟩ := htalk.transcript (Nat.le_of_eq hlen)
  obtain rfl : read = lines := hpre.eq_of_length (hlen.trans htr.due.symm)
  refine ⟨⟨sk₀, sent ++ [wire], _, read, hcfg ▸ hhon, hheard', rfl, rfl, htr.prefix_of List.nil_prefix, ?_⟩,
    hsend.frame⟩
  rw [show encoded ([] : List (Bytes × Received)) = [] from rfl, List.append_nil]
  exact hon.sends hsend

/-- A negotiation asks for every stream from its position. -/
theorem wp_negotiate_receives (hs : c.Settled server h) (hreq : h.requests = [])
    (hp : c.protocol = some .v4) (hne : c.base.streams ≠ []) (hall : ∀ s ∈ c.base.streams, s.allData = false)
    (hstart : c.base.startTime = none) :
    wp negotiate (fun _ c' => ∃ requests, List.Forall₂ Asks (c.base.sendOrder.map (·.1)) requests ∧
      c'.Receives server requests [] ∧ c'.protocol = some .v4 ∧ c'.streaming = true) (fun _ _ => True) c := by
  have hscoped : c.scoped.cfg = c.cfg ∧ c.scoped.base = c.base ∧ c.scoped.rb = c.rb ∧
      c.scoped.sock = c.sock ∧ c.scoped.negotiationArgs = c.negotiationArgs ∧
        c.scoped.protocol = c.protocol := by
    unfold Client.scoped
    split <;> exact ⟨rfl, rfl, rfl, rfl, rfl, rfl⟩
  obtain ⟨hcfg, hbase, hrb, hsock, hargs, hproto⟩ := hscoped
  have hprep : c.scoped.base.prepareNegotiation c.scoped.negotiationArgs = c.prepared := by
    rw [hbase, hargs]
    rfl
  refine wp_timeoutScope ?_
  simp only [negotiateInner, wp_bind, wp_get, wp_set, wp_liftExcept, wp_modify, hprep]
  have htriv : ∀ (stop : Stop) (c' : Client), c'.cfg = c.cfg → c'.cfg = c.cfg ∧
      if c.cfg.transport = .asyncio ∧ stop = Stop.raised .cancelledError then True else True :=
    fun stop c' h => ⟨h, by split <;> trivial⟩
  cases hplan : c.prepared.1 with
  | error e => exact htriv _ _ hcfg
  | ok plan =>
  have horder : ({ c.base with matchCache := ∅ } : Base).ensureDefaultStream.sendOrder = c.base.sendOrder := by
    unfold Base.sendOrder
    rw [Base.ensureDefaultStream_streams, if_neg hne]
  have hplan' : (planNegotiation c.negotiationArgs (c.base.sendOrder.map (·.1))).1 = .ok plan := by
    rw [← horder]
    exact hplan
  obtain ⟨cmds, hcmds, rfl⟩ := planNegotiation_v4 hp hplan'
  obtain ⟨hrep, hask⟩ := command_planStreams hstart rfl (fun s hs => by
    obtain ⟨⟨s, i⟩, hmem, rfl⟩ := List.mem_map.1 hs
    exact hall s (List.mem_of_getElem? (Base.mem_sendOrder.1 hmem))) hcmds
  simp only
  have hsettled : ({ c.scoped with base := c.prepared.2 } : Client).Settled server h :=
    hs.congr hcfg hrb hsock
  refine wp_mono (wp_and (wp_runPlan_v4 (mustBeOk_planNegotiation hp hplan') _)
    (steady.runPlan _ { c.scoped with base := c.prepared.2 })) ?_
    fun stop c' hstop => htriv stop c' (hstop.2.cfg.trans hcfg)
  rintro _ c' ⟨⟨log, hconv, hmap, -⟩, hsame⟩
  obtain ⟨log₁, last, rfl, hmap₁, hlast⟩ := List.map_eq_append_iff.1 hmap
  obtain ⟨entry, rfl, hentry⟩ := List.map_eq_singleton_iff.1 hlast
  obtain ⟨c₁, hconv₁, hx⟩ := hconv.concat
  obtain ⟨hs₁, hf₁, hwires⟩ := hsettled.conversation (by rw [hmap₁]; exact hrep) hconv₁
  rw [hmap₁] at hs₁ hwires
  obtain ⟨requests, hasks, hheard⟩ := hask hwires
  rw [hentry] at hx
  obtain ⟨hrecv, hf'⟩ := hs₁.ends hx
  rw [(hheard h hs.1).2, hreq, List.nil_append] at hrecv
  have hp' : c'.protocol = some .v4 := (protocol_of_frame (hf'.trans hf₁)).trans (hproto.trans hp)
  refine ⟨hsame.cfg.trans hcfg, requests, hasks, ?_⟩
  unfold Client.unscoped
  split <;> exact ⟨hrecv.congr rfl rfl rfl, hp', rfl⟩

/-- The items received are the first items of the transcript. -/
theorem Client.Receives.transcript (hr : c.Receives server requests done) :
    ∃ sk₀ sent h lines items, server.Honours c.cfg sk₀ ∧ heard sent = some h ∧ h.streaming = true ∧
      h.requests = requests ∧ server.Transcript c.cfg h lines (done ++ items) ∧
      c.On sk₀ (terminated lines ++ encoded done) sent ∧ c.stream <+: encoded items := by
  obtain ⟨sk₀, sent, h, lines, hhon, hheard, hst, hreq, htr, hon⟩ := hr
  obtain ⟨sk, hsk, rfl, hreach⟩ := hon.conn
  obtain ⟨lines', items', htr', hpre⟩ := hhon.owed _ sk h hreach hheard
  have hlines : lines <+: lines' := by
    rw [List.append_assoc] at hpre
    exact prefix_of_terminated htr.isLine htr'.isLine (Nat.le_of_eq (htr.due.trans htr'.due.symm))
      ((List.prefix_append _ _).trans hpre)
  obtain rfl : lines = lines' := hlines.eq_of_length (htr.due.trans htr'.due.symm)
  rw [List.append_assoc, List.prefix_append_right_inj] at hpre
  obtain ⟨items, rfl⟩ := prefix_of_encoded htr.isItem htr'.isItem ((List.prefix_append _ _).trans hpre)
  have henc : encoded (done ++ items) = encoded done ++ encoded items := List.flatMap_append
  rw [henc, List.prefix_append_right_inj] at hpre
  exact ⟨sk₀, sk.sent, h, lines, items, hhon, hheard, hst, hreq, htr', hon, hpre⟩

theorem wp_awaitFrame_receives (hr : c.Receives server requests done) (hp : c.protocol = some .v4) :
    wp awaitFrame (fun received c' =>
      (received = none ∧ c'.Receives server requests done ∨
        ∃ x b, received = some x ∧ c'.Receives server requests (done ++ [(b, x)])) ∧
      ∃ k, c'.core = ({ c with polls := k } : Client).core) (fun _ _ => True) c := by
  obtain ⟨sk₀, sent, h, lines, items, hhon, hheard, hst, hreq, htr, hon, hpre⟩ := hr.transcript
  refine wp_mono (wp_awaitFrame_on hon hp) ?_ fun _ _ _ => trivial
  rintro received c' ⟨hcase, k, hc⟩
  have hcfg : c'.cfg = c.cfg := cfg_of_core (c := { c with polls := k }) hc
  refine ⟨?_, k, hc⟩
  rcases hcase with ⟨rfl, hon'⟩ | ⟨x, n, rfl, ht, hon'⟩
  · exact .inl ⟨rfl, sk₀, sent, h, lines, hcfg ▸ hhon, hheard, hst, hreq,
      hcfg ▸ htr.prefix_of (List.prefix_append _ _), hon'⟩
  · obtain ⟨rest, rfl⟩ := exists_next_item (fun i hm => htr.isItem i (List.mem_append_right _ hm)) ht hpre
    refine .inr ⟨x, c.stream.take n, rfl, sk₀, sent, h, lines, hcfg ▸ hhon, hheard, hst, hreq, ?_, ?_⟩
    · rw [List.append_cons] at htr
      exact hcfg ▸ htr.prefix_of (List.prefix_append _ _)
    · rw [show encoded (done ++ [(c.stream.take n, x)]) = encoded done ++ c.stream.take n by
        simp [encoded], ← List.append_assoc]
      exact hon'

/-- A keepalive leaves the stream to go on, or closes the connection. -/
theorem wp_keepalivePass_receives {last : Int} {next : Option Int} (hr : c.Receives server requests done)
    (hp : c.protocol = some .v4) :
    wp (keepalivePass last next) (fun r c' => r.1 = none ∧ (∃ last next, r.2 = .looping last next) ∧
      (c'.sock = none ∨ c'.Receives server requests done ∧ c'.protocol = some .v4)) (fun _ _ => True) c := by
  have hw : (Commands.info "ID".toList).wire = .ok (Bytes.lit "INFO ID" ++ crlf) := rfl
  simp only [keepalivePass, wp_bind, wp_monotonic, wp_get]
  have htick : ({ c with ticks := c.ticks + 1 } : Client).Receives server requests done :=
    hr.congr rfl rfl rfl
  split
  · rename_i due interval _ hint
    simp only [wp_ite, wp_bind, wp_tryExcept, wp_pure, wp_close]
    split
    · refine wp_sendCommand (fun _ => ⟨trivial, ⟨_, _, rfl⟩, .inl rfl⟩) (fun e he _ => ?_) (fun detail _ => ?_)
        fun wire c₁ hw₁ hsend => ?_
      · rw [hw] at he
        cases he
      · exact ⟨trivial, ⟨_, _, rfl⟩, .inl rfl⟩
      · obtain rfl : Bytes.lit "INFO ID" ++ crlf = wire := Except.ok.inj (hw.symm.trans hw₁)
        refine ⟨trivial, ⟨_, _, rfl⟩, .inr ⟨?_, (protocol_of_frame hsend.frame).trans hp⟩⟩
        obtain ⟨sk₀, sent, h, lines, hhon, hheard, hst, hreq, htr, hon⟩ := htick
        have hcfg : c₁.cfg = c.cfg := cfg_of_frame (c := { c with ticks := c.ticks + 1 }) hsend.frame
        refine ⟨sk₀, sent ++ [Bytes.lit "INFO ID" ++ crlf], h, lines, hcfg ▸ hhon, ?_, hst, hreq, hcfg ▸ htr,
          hon.sends hsend⟩
        rw [heard_concat hheard]
        have hk : keyword (Bytes.lit "INFO ID" ++ crlf) = Bytes.lit "INFO" := by decide
        simp only [Heard.line, hk, hst, if_true]
    · exact ⟨trivial, ⟨_, _, rfl⟩, .inr ⟨htick, hp⟩⟩
  · exact ⟨rfl, ⟨_, _, rfl⟩, .inr ⟨htick, hp⟩⟩

end settled

end SeedLink
