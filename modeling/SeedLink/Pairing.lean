import SeedLink.Escapes
import SeedLink.FrameBoundary
import SeedLink.Sessions

/-!
# Replies and what they answer

Replies carry no identifier. What is read for a command is its answer as long as no earlier answer is
left unread on the open connection (`Client.Even`). A run of commands is followed exchange by exchange;
the exchanges that may leave something behind are those of `Leaves`, and behind the others every reply is
the one to its command (`replies_pair`).
-/

namespace SeedLink

open StateExc Client

/-! ### Servers -/

/-- The answers to these lines, one behind the other. What is answered to a line may depend on the lines
before it. -/
def answersTo (answer : List Bytes → Bytes) (sent : List Bytes) : Bytes :=
  (List.range sent.length).flatMap fun i => answer (sent.take (i + 1))

theorem answersTo_concat (answer : List Bytes → Bytes) (sent : List Bytes) (wire : Bytes) :
    answersTo answer (sent ++ [wire]) = answersTo answer sent ++ answer (sent ++ [wire]) := by
  have hsame : ∀ i ∈ List.range sent.length,
      answer ((sent ++ [wire]).take (i + 1)) = answer (sent.take (i + 1)) := by
    intro i hi
    rw [List.take_append_of_le_length (by have := List.mem_range.1 hi; omega)]
  unfold answersTo
  rw [List.length_append, List.length_singleton, List.range_succ, List.flatMap_append, List.flatMap_congr hsame]
  simp [List.take_of_length_le]

/-- The connection carries these answers and nothing else, in any pieces and with any delays, and may be
lost on the way. -/
def Sock.AnswersBy (sk₀ : Sock) (answer : List Bytes → Bytes) : Prop :=
  ∀ total sk, sk₀.Reaches total sk → total <+: answersTo answer sk.sent

/-- The connection is closed, or the answers to all that was sent on it have been read. -/
def Client.Even (c : Client) (sk₀ : Sock) (answer : List Bytes → Bytes) : Prop :=
  c.sock = none ∨ ∃ sent, c.On sk₀ (answersTo answer sent) sent

section on
variable {c c' : Client} {sk₀ : Sock} {answer : List Bytes → Bytes} {consumed rest : Bytes} {sent : List Bytes}

/-- What is still to come is the rest of the answers. -/
theorem Client.On.stream_prefix (hserver : sk₀.AnswersBy answer) (h : c.On sk₀ consumed sent)
    (hrest : answersTo answer sent = consumed ++ rest) : c.stream <+: rest := by
  obtain ⟨sk, -, rfl, hreach⟩ := h.conn
  have := hserver _ _ hreach
  rw [hrest] at this
  exact (List.prefix_append_right_inj consumed).1 this

theorem Client.Even.congr (h : c.Even sk₀ answer) (hrb : c'.rb = c.rb) (hsock : c'.sock = c.sock) :
    c'.Even sk₀ answer := by
  rcases h with hnone | ⟨sent, hon⟩
  · exact .inl (hsock.trans hnone)
  · exact .inr ⟨sent, hon.congr hrb hsock⟩

theorem Client.even_closed : c.closed.Even sk₀ answer := .inl rfl

end on

/-! ### Exchanges -/

/-- A command with its reply line, if it expects one, or an INFO request with its text. -/
inductive Exchange
  | command (cmd : Command)
  | info (level : Text)
  deriving DecidableEq

/-- `_send_command` up to the line that it reads. -/
def replyLine (cmd : Command) : ClientM Text := do
  let wire ← liftExcept cmd.wire
  sendall wire
  readLine

def Exchange.wire : Exchange → Except Exn Bytes
  | .command cmd => cmd.wire
  | .info level => (Commands.info level).wire

/-- `reply` is what the server answers to the exchange's line. -/
def Client.Hears (c : Client) (answer : List Bytes → Bytes) (x : Exchange) (reply : Bytes) : Prop :=
  ∃ sk wire, c.sock = some sk ∧ x.wire = .ok wire ∧ reply = answer (sk.sent ++ [wire])

section replies
variable [Pymseed]

/-- The answer to INFO at the front of the stream: the number of its bytes and its text, that of its frames up to the
first that does not continue. -/
inductive InfoReply (p : Option Protocol) : Bytes → Nat → Text → Prop
  | last {s : Bytes} {frame : RawFrame} {n : Nat} (h : Takes p s (.packet frame) n) (hf : isInfoPayload frame)
      (hc : frame.infoContinues = false) : InfoReply p s n (Bytes.decodeUtf8 frame.payload)
  | more {s : Bytes} {frame : RawFrame} {n m : Nat} {text : Text} (h : Takes p s (.packet frame) n)
      (hf : isInfoPayload frame) (hc : frame.infoContinues = true) (hrest : InfoReply p (s.drop n) m text) :
      InfoReply p s (n + m) (Bytes.decodeUtf8 frame.payload ++ text)

/-- Behind these bytes of an answer to INFO nothing is buffered, and more is awaited. -/
inductive Pauses (p : Option Protocol) : Bytes → Prop
  | empty : Pauses p []
  | header {s : Bytes} (hp : p ≠ some .v4) (ha : Announces s .packet) (hlen : s.length = headsizeV3) : Pauses p s
  | frame {s : Bytes} {frame : RawFrame} {n : Nat} (h : Takes p s (.packet frame) n) (hf : isInfoPayload frame)
      (hc : frame.infoContinues = true) (hrest : Pauses p (s.drop n)) : Pauses p s

/-- `info` declines what stands at the front of the stream, behind frames of an answer or not, and has consumed so
many bytes then: none of what announces nothing and of a v4 packet that is refused, the header at least of a
v3 packet, all of an item that is no INFO frame. -/
inductive Declines (p : Option Protocol) : Bytes → Nat → Prop
  | unexpected {s : Bytes} (h : ∀ t, ¬ ∃ ev, Announces (s ++ t) ev) : Declines p s 0
  | rejected {s : Bytes} {e : Exn} (hp : p = some .v4) (ha : Announces s .packet) (h : RejectsV4 s e) : Declines p s 0
  | lost {s : Bytes} {e : Exn} {n : Nat} (hp : p ≠ some .v4) (ha : Announces s .packet) (h : LosesV3 s e n) :
      Declines p s n
  | item {s : Bytes} {x : Received} {n : Nat} (h : Takes p s x n)
      (hx : ∀ frame, x = .packet frame → ¬ isInfoPayload frame) : Declines p s n
  | frame {s : Bytes} {frame : RawFrame} {n m : Nat} (h : Takes p s (.packet frame) n) (hf : isInfoPayload frame)
      (hc : frame.infoContinues = true) (hrest : Declines p (s.drop n) m) : Declines p s (n + m)

namespace Exchange

/-- The server answers once: a command that expects a reply by one line, and INFO by something that has nothing
behind a complete text. -/
def Fits (answer : List Bytes → Bytes) (x : Exchange) (c : Client) : Prop :=
  ∀ reply, c.Hears answer x reply →
    match x with
    | .command cmd => cmd.parse.isSome = true → ∃ l, IsLine l ∧ reply = l ++ crlf
    | .info _ => ∀ n text, InfoReply c.protocol reply n text → n = reply.length

/-- An answer, or the rest of it, is left unread on the open connection: nobody reads it, on a socket the timeout
passes while nothing is buffered, or `info` declines it. -/
inductive Leaves (answer : List Bytes → Bytes) : Exchange → Client → Prop
  | unread {c : Client} {cmd : Command} {reply : Bytes} (hp : cmd.parse = none)
      (h : c.Hears answer (.command cmd) reply) (hne : reply ≠ []) : Leaves answer (.command cmd) c
  | late {c c₁ : Client} {cmd : Command} {wire : Bytes} {rest : List Recv} (hk : c.cfg.transport = .socket)
      (hp : cmd.parse.isSome = true) (hw : cmd.wire = .ok wire) (hs : c.Sends wire c₁)
      (hf : c₁.Feeds [] (.timeout :: rest)) : Leaves answer (.command cmd) c
  | paused {c c₁ : Client} {level : Text} {wire s reply : Bytes} {rest : List Recv} (hk : c.cfg.transport = .socket)
      (hw : (Commands.info level).wire = .ok wire) (hs : c.Sends wire c₁) (hf : c₁.Feeds s (.timeout :: rest))
      (hpause : Pauses c.protocol s) (h : c.Hears answer (.info level) reply) (hlt : s.length < reply.length) :
      Leaves answer (.info level) c
  | declined {c c₁ : Client} {level : Text} {wire s reply : Bytes} {later : List Recv} {n : Nat}
      (hw : (Commands.info level).wire = .ok wire) (hs : c.scoped.Sends wire c₁) (hf : c₁.Feeds s later)
      (hd : Declines c.protocol s n) (h : c.Hears answer (.info level) reply) (hlt : n < reply.length) :
      Leaves answer (.info level) c

end Exchange

end replies

section extents
variable [Pymseed] {p : Option Protocol} {s : Bytes} {n : Nat} {text : Text}

theorem InfoReply.le_length (h : InfoReply p s n text) : n ≤ s.length := by
  induction h with
  | last h => exact h.le_length
  | more h _ _ _ ih =>
    have := h.le_length
    rw [List.length_drop] at ih
    omega

/-- The answer is the same with more behind it. -/
theorem InfoReply.append (h : InfoReply p s n text) (t : Bytes) : InfoReply p (s ++ t) n text := by
  induction h with
  | last h hf hc => exact .last (h.append t) hf hc
  | @more s frame n m text h hf hc _ ih =>
    refine .more (h.append t) hf hc ?_
    rwa [List.drop_append_of_le_length h.le_length]

omit [Pymseed] in
theorem headsizeV3_le_drop {m : Nat} (h8 : headsizeV3 ≤ s.length) (hm : m ≤ (s.drop headsizeV3).length) :
    headsizeV3 + m ≤ s.length := by
  rw [List.length_drop] at hm
  omega

theorem Declines.le_length (h : Declines p s n) : n ≤ s.length := by
  induction h with
  | unexpected | rejected => exact Nat.zero_le _
  | lost _ _ h =>
    cases h with
    | header hle => exact hle
    | length _ hle => exact hle
    | record _ m hle _ _ hlen => exact headsizeV3_le_drop hle hlen
  | item h => exact h.le_length
  | frame h _ _ _ ih =>
    have := h.le_length
    rw [List.length_drop] at ih
    omega

end extents

/-! ### One exchange -/

section exchange
variable {c c' : Client} {sk₀ : Sock} {answer : List Bytes → Bytes} {s : Bytes} {later : List Recv} {stop : Stop}

/-- How an exchange fails that leaves nothing unread: the connection is even, the read goes on for ever,
or the timeout scope around it is about to close the connection. -/
structure Client.Breaks (c : Client) (sk₀ : Sock) (answer : List Bytes → Bytes) (stop : Stop) (c' : Client) :
    Prop where
  cfg : c'.cfg = c.cfg
  inScope : c'.inScope = c.inScope
  ends : c'.Even sk₀ answer ∨ stop = .blocked ∨
    stop = .raised .cancelledError ∧ c.cfg.transport = .asyncio ∧ c.inScope = true

theorem Client.ReadFails.breaks (h : ReadFails c s later stop c')
    (hpause : c.cfg.transport = .socket → s = [] → ∀ rest, later ≠ .timeout :: rest) :
    c.Breaks sk₀ answer stop c' := by
  rcases h with ⟨-, -, hc, -⟩ | ⟨hk, hs, hlater, -, -⟩ | ⟨hk, hscope, -, -, hc⟩ | ⟨-, -, hc⟩
  · exact ⟨cfg_of_core (c := c.closed) hc, inScope_of_core (c := c.closed) hc, .inl (.inl (sock_eq_none_of_closed hc))⟩
  · exact absurd hlater (hpause hk hs _)
  · exact ⟨cfg_of_core hc, inScope_of_core hc, .inr (.inr ⟨rfl, hk, hscope⟩)⟩
  · exact ⟨cfg_of_core hc, inScope_of_core hc, .inr (.inl rfl)⟩

theorem exists_of_replyLine {cmd : Command} {line : Text} (h : replyLine cmd c = .ok line c') :
    ∃ wire c₁, cmd.wire = .ok wire ∧ c.Sends wire c₁ ∧ readLine c₁ = .ok line c' := by
  obtain ⟨wire, c₀, hw, h⟩ := exists_of_seq h
  obtain ⟨⟨⟩, c₁, hs, hread⟩ := exists_of_seq h
  have hwire : cmd.wire = .ok wire ∧ c = c₀ := by
    rcases hcmd : cmd.wire with e | wire'
    · rw [hcmd] at hw
      cases hw
    · rw [hcmd] at hw
      cases hw
      exact ⟨rfl, rfl⟩
  obtain ⟨hcmd, rfl⟩ := hwire
  refine ⟨wire, c₁, hcmd, ?_, hread⟩
  unfold sendall at hs
  rcases hsk : c.sock with _ | sk
  · rw [hsk] at hs
    cases hs
  · simp only [hsk] at hs
    rcases hpeer : sk.peer sk.sent sk.incoming wire with detail | incoming
    · rw [hpeer] at hs
      cases hs
    · rw [hpeer] at hs
      cases hs
      exact ⟨sk, incoming, hsk, hpeer, rfl⟩

/-- Sending adds one answer to what is to be read. -/
theorem Client.Even.sends {wire : Bytes} (h : c.Even sk₀ answer) (hs : c.Sends wire c') :
    ∃ sk, c.sock = some sk ∧ c'.On sk₀ (answersTo answer sk.sent) (sk.sent ++ [wire]) := by
  obtain ⟨sk, incoming, hsk, -, -⟩ := id hs
  rcases h with hnone | ⟨sent, hon⟩
  · rw [hsk] at hnone
    cases hnone
  · obtain ⟨sk', hsk', rfl, -⟩ := hon.conn
    obtain rfl : sk = sk' := Option.some.inj (hsk.symm.trans hsk')
    exact ⟨sk, hsk, hon.sends hs⟩

theorem IsLine.unique {l l' : Bytes} (hl : IsLine l) (hl' : IsLine l') (h : l ++ crlf <+: l' ++ crlf) : l = l' := by
  obtain ⟨u, hu⟩ := h
  have hfind := Text.findSub_append hl u
  rw [hu, hl', Option.some.injEq] at hfind
  rw [List.append_assoc] at hu
  exact (List.append_inj hu hfind.symm).1

/-- The line that is read is the one that was answered. -/
theorem Client.On.line_unique {consumed l l' : Bytes} {sent : List Bytes} (hserver : sk₀.AnswersBy answer)
    (h : c.On sk₀ (consumed ++ (l ++ crlf)) sent) (hl : IsLine l) (hl' : IsLine l')
    (hanswer : answersTo answer sent = consumed ++ (l' ++ crlf)) : l = l' := by
  obtain ⟨sk, -, rfl, hreach⟩ := h.conn
  have hpre := hserver _ _ hreach
  rw [hanswer, List.append_assoc, List.prefix_append_right_inj] at hpre
  exact hl.unique hl' ((List.prefix_append _ _).trans hpre)

/-- On an even connection the line read for a command is its answer. -/
theorem line_of_even [Pymseed] {cmd : Command} {wire : Bytes} {c₁ : Client} (hserver : sk₀.AnswersBy answer)
    (h : c.Even sk₀ answer) (hfit : Exchange.Fits answer (.command cmd) c) (hp : cmd.parse.isSome = true)
    (hw : cmd.wire = .ok wire) (hs : c.Sends wire c₁) {E : Stop → Client → Prop}
    (hE : ∀ s later stop c', c₁.Feeds s later → ReadFails c₁ s later stop c' → E stop c') :
    wp readLine (fun line c' => (∃ l, (∀ reply, c.Hears answer (.command cmd) reply → reply = l ++ crlf) ∧
      Bytes.decodeAscii l = some line) ∧ c'.Even sk₀ answer ∧ c'.core = c₁.core) E c₁ := by
  obtain ⟨sk, hsk, hon⟩ := h.sends hs
  have hreply : ∀ {reply}, c.Hears answer (.command cmd) reply → reply = answer (sk.sent ++ [wire]) := by
    rintro reply ⟨sk', wire', hsk', hw', rfl⟩
    obtain rfl : sk = sk' := Option.some.inj (hsk.symm.trans hsk')
    obtain rfl : wire = wire' := Except.ok.inj (hw.symm.trans hw')
    rfl
  obtain ⟨l', hl', hanswer⟩ := hfit _ ⟨sk, wire, hsk, hw, rfl⟩ hp
  refine wp_mono (wp_readLine_on hon hE) ?_ fun _ _ h => h
  rintro line c' ⟨l, hl, hdec, hon', hc'⟩
  have hto : answersTo answer (sk.sent ++ [wire]) = answersTo answer sk.sent ++ (l' ++ crlf) := by
    rw [answersTo_concat, hanswer]
  obtain rfl := hon'.line_unique hserver hl hl' hto
  exact ⟨⟨l, fun reply hr => (hreply hr).trans hanswer, hdec⟩, .inr ⟨_, hto ▸ hon'⟩, hc'⟩

end exchange

section exchanges
variable [Externals]

/-- The line that is read for the command, or the text `info` returns, is the server's answer. -/
def Exchange.Answered (answer : List Bytes → Bytes) (x : Exchange) (c : Client) : Prop :=
  ∀ reply, c.Hears answer x reply →
    match x with
    | .command cmd => ∀ line c', cmd.parse.isSome = true → replyLine cmd c = .ok line c' →
        ∃ l, reply = l ++ crlf ∧ Bytes.decodeAscii l = some line
    | .info level => ∀ text c', Client.info level c = .ok text c' → InfoReply c.protocol reply reply.length text

section command
variable {c c' : Client} {cmd : Command} {sk₀ : Sock} {answer : List Bytes → Bytes} (hserver : sk₀.AnswersBy answer)
  (h : c.Even sk₀ answer) (hfit : Exchange.Fits answer (.command cmd) c)
include hserver h hfit

theorem answered_command : Exchange.Answered answer (.command cmd) c := by
  intro reply hr line c' hp hrun
  obtain ⟨wire, c₁, hw, hs, hread⟩ := exists_of_replyLine hrun
  obtain ⟨⟨l, hl, hdec⟩, -⟩ := wp_ok (line_of_even hserver h hfit hp hw hs fun _ _ _ _ _ _ => trivial) hread
  exact ⟨l, hl reply hr, hdec⟩

/-- The step lemma for a command. -/
theorem wp_sendCommand_even (hleaves : ¬ Exchange.Leaves answer (.command cmd) c) :
    wp (sendCommand cmd) (fun _ c' => c'.Even sk₀ answer ∧ c'.cfg = c.cfg ∧ c'.inScope = c.inScope)
      (c.Breaks sk₀ answer) c := by
  refine wp_sendCommand (fun _ => ⟨rfl, rfl, .inl h⟩) (fun _ _ _ => ⟨rfl, rfl, .inl h⟩)
    (fun _ _ => ⟨rfl, rfl, .inl even_closed⟩) fun wire c₁ hw hs => ?_
  have hcfg := cfg_of_frame hs.frame
  have hscope := inScope_of_frame hs.frame
  cases hp : cmd.parse with
  | none =>
    obtain ⟨sk, hsk, hon⟩ := h.sends hs
    have hsilent : answer (sk.sent ++ [wire]) = [] := by
      by_contra hne
      exact hleaves (.unread hp ⟨sk, wire, hsk, hw, rfl⟩ hne)
    have hto := answersTo_concat answer sk.sent wire
    rw [hsilent, List.append_nil] at hto
    exact ⟨.inr ⟨_, hto ▸ hon⟩, hcfg, hscope⟩
  | some parser =>
    have hp' : cmd.parse.isSome = true := by rw [hp]; rfl
    rw [awaitReply, wp_bind]
    refine wp_mono (line_of_even hserver h hfit hp' hw hs (E := c.Breaks sk₀ answer) fun s later stop c' hf hr => ?_)
      (fun line c' hread => ?_) fun _ _ h => h
    · obtain ⟨hcfg', hscope', hends⟩ := @ReadFails.breaks c₁ c' sk₀ answer s later stop hr fun hk hs' rest hlater =>
        hleaves (.late (hcfg ▸ hk) hp' hw hs (hs' ▸ hlater ▸ hf))
      exact ⟨hcfg'.trans hcfg, hscope'.trans hscope, hcfg ▸ hscope ▸ hends⟩
    · obtain ⟨-, heven, hc'⟩ := hread
      have hcfg' := (cfg_of_core hc').trans hcfg
      have hscope' := (inScope_of_core hc').trans hscope
      rw [wp_bind, wp_liftExcept]
      split
      · exact ⟨heven, hcfg', hscope'⟩
      · exact ⟨hcfg', hscope', .inl heven⟩

end command

/-! ### INFO replies -/

/-- `info` stops behind the first `n` bytes of what it is fed, on a connection that stays open. -/
inductive Client.Stops (c : Client) (s : Bytes) : List Recv → Nat → Prop
  | declined {later : List Recv} {n : Nat} (h : Declines c.protocol s n) : c.Stops s later n
  | paused {rest : List Recv} (hk : c.cfg.transport = .socket) (h : Pauses c.protocol s) :
      c.Stops s (.timeout :: rest) s.length

/-- How reading an answer ends early. -/
def Client.CutShort (c : Client) (sk₀ : Sock) (answer : List Bytes → Bytes) (consumed s : Bytes) (sent : List Bytes)
    (later : List Recv) (stop : Stop) (c' : Client) : Prop :=
  (∃ n, c.Stops s later n ∧ c'.On sk₀ (consumed ++ s.take n) sent ∧ c'.cfg = c.cfg ∧ c'.inScope = c.inScope) ∨
    c.Breaks sk₀ answer stop c'

section info
variable {c c' : Client} {sk₀ : Sock} {answer : List Bytes → Bytes} {consumed s : Bytes} {sent : List Bytes}
  {later : List Recv} {stop : Stop}

omit [Externals] in
theorem Client.On.took (hon : c.On sk₀ consumed sent) (hr : c.OnlyReads c') (hf : c.Feeds s later) {n : Nat}
    (hf' : c'.Feeds (s.drop n) later) : c'.On sk₀ (consumed ++ s.take n) sent := by
  refine hon.reads hr hf' ?_
  rw [hf.stream, hf'.stream, ← List.append_assoc, List.take_append_drop]

/-- A read that fails where the bytes `t`, the end of `s`, are still to be taken. -/
theorem Client.ReadFails.cutShort {t : Bytes} (h : ReadFails c t later stop c') (hon : c.On sk₀ consumed sent)
    (hr : c.OnlyReads c') (hf : c.Feeds s later) (hpause : t = [] → Pauses c.protocol s) :
    c.CutShort sk₀ answer consumed s sent later stop c' := by
  by_cases htimeout : c.cfg.transport = .socket ∧ t = [] ∧ ∃ rest, later = .timeout :: rest
  · obtain ⟨hk, rfl, rest, rfl⟩ := htimeout
    cases h with
    | closed _ hs => simp at hs
    | cancelled hk' =>
      rw [hk] at hk'
      cases hk'
    | blocked hlater => cases hlater
    | timedOut _ _ hlater hat hc =>
      cases hlater
      have hf' : c'.Feeds [] rest := ⟨[], [], hat, nofun, rfl⟩
      refine .inl ⟨_, .paused hk (hpause rfl), ?_, cfg_of_core hc, inScope_of_core hc⟩
      rw [List.take_length]
      refine hon.reads hr hf' ?_
      rw [hf.stream, hf'.stream]
      simp
  · exact .inr (h.breaks fun hk hs rest hlater => htimeout ⟨hk, hs, rest, hlater⟩)

/-- The next item of an answer is received, or reading the answer ends early. -/
theorem wp_recvFrame_on (hon : c.On sk₀ consumed sent) (hf : c.Feeds s later) (hstall : Stalls c.deadline later) :
    wp recvFrame (fun x c' => ∃ n, Takes c.protocol s x n ∧ c'.On sk₀ (consumed ++ s.take n) sent ∧
      c'.Feeds (s.drop n) later ∧ c'.core = c.core) (c.CutShort sk₀ answer consumed s sent later) c := by
  refine wp_mono (wp_and (wp_recvFrame_total hf hstall) (onlyReads.reading.recvFrame c)) ?_ ?_
  · rintro x c' ⟨⟨n, ht, hf', hc'⟩, hr⟩
    exact ⟨n, ht, hon.took hr hf hf', hf', hc'⟩
  · rintro stop c' ⟨hfail, hr⟩
    cases hfail with
    | read h => exact h.cutShort hon hr hf fun hs => hs ▸ .empty
    | unexpected hno h hc =>
      exact .inl ⟨0, .declined (.unexpected hno), hon.took hr hf h, cfg_of_core hc, inScope_of_core hc⟩
    | rejected hp ha hrej h hc =>
      exact .inl ⟨0, .declined (.rejected hp ha hrej), hon.took hr hf h, cfg_of_core hc, inScope_of_core hc⟩
    | lost hp ha hl h hc =>
      exact .inl ⟨_, .declined (.lost hp ha hl), hon.took hr hf h, cfg_of_core hc, inScope_of_core hc⟩
    | awaiting hp ha hw h =>
      refine h.cutShort hon hr hf fun hs => .header hp ha ?_
      have := hw.header_le
      have := List.drop_eq_nil_iff.1 hs
      omega

/-- The rest of an answer is read behind one of its frames. -/
theorem Client.CutShort.behind {frame : RawFrame} {n : Nat} {c'' : Client} (ht : Takes c.protocol s (.packet frame) n)
    (hi : isInfoPayload frame) (hcont : frame.infoContinues = true) (hc' : c'.core = c.core)
    (h : c'.CutShort sk₀ answer (consumed ++ s.take n) (s.drop n) sent later stop c'') :
    c.CutShort sk₀ answer consumed s sent later stop c'' := by
  have hcfg := cfg_of_core hc'
  have hscope := inScope_of_core hc'
  rcases h with ⟨m, hstops, hon, hcfg', hscope'⟩ | ⟨hcfg', hscope', hends⟩
  · refine .inl ⟨n + m, ?_, ?_, hcfg'.trans hcfg, hscope'.trans hscope⟩
    · cases hstops with
      | declined hd => exact .declined (.frame ht hi hcont (protocol_of_core hc' ▸ hd))
      | paused hk hp =>
        have hlen : n + (s.drop n).length = s.length := by
          have := ht.le_length
          rw [List.length_drop]
          omega
        rw [hlen]
        exact .paused (hcfg ▸ hk) (.frame ht hi hcont (protocol_of_core hc' ▸ hp))
    · rwa [List.take_add, ← List.append_assoc]
  · exact .inr ⟨hcfg'.trans hcfg, hscope'.trans hscope, hcfg ▸ hscope ▸ hends⟩

variable (answer) in
/-- The loop gives the text of the answer and has read it, or reading the answer ends early. -/
theorem wp_infoLoop_on : ∀ (fuel : Nat) {chunks : List Text} {c : Client} {consumed s : Bytes},
    c.On sk₀ consumed sent → c.Feeds s later → Stalls c.deadline later → s.length < fuel →
    wp (infoLoop fuel chunks) (fun text c' => ∃ n t, InfoReply c.protocol s n t ∧ text = chunks.flatten ++ t ∧
      c'.On sk₀ (consumed ++ s.take n) sent ∧ c'.cfg = c.cfg ∧ c'.inScope = c.inScope)
      (c.CutShort sk₀ answer consumed s sent later) c := by
  intro fuel
  induction fuel with
  | zero =>
    intro _ _ _ _ _ _ _ hfuel
    omega
  | succ fuel ih =>
    intro chunks c consumed s hon hf hstall hfuel
    rw [infoLoop, wp_bind]
    refine wp_mono (wp_recvFrame_on hon hf hstall) ?_ fun _ _ h => h
    rintro x c' ⟨n, ht, hon', hf', hc'⟩
    have hcfg := cfg_of_core hc'
    have hscope := inScope_of_core hc'
    have hdeclined : ∀ stop, (∀ frame, x = .packet frame → ¬ isInfoPayload frame) →
        c.CutShort sk₀ answer consumed s sent later stop c' :=
      fun stop hx => .inl ⟨n, .declined (.item ht hx), hon', hcfg, hscope⟩
    rcases x with frame | resp | _
    · simp only [wp_ite, wp_pure, wp_raise]
      split
      · rename_i hi
        cases hcont : frame.infoContinues with
        | false => exact ⟨n, _, .last ht hi hcont, by simp, hon', hcfg, hscope⟩
        | true =>
          have hlen : (s.drop n).length < fuel := by
            have := ht.bounds
            rw [List.length_drop]
            omega
          refine wp_mono (ih hon' hf' (deadline_of_core hc' ▸ hstall) hlen) ?_ fun stop c'' h =>
            h.behind ht hi hcont hc'
          rintro text c'' ⟨m, t, hreply, rfl, hon'', hcfg', hscope'⟩
          refine ⟨n + m, _, .more ht hi hcont (protocol_of_core hc' ▸ hreply), by simp, ?_, hcfg'.trans hcfg,
            hscope'.trans hscope⟩
          rwa [List.take_add, ← List.append_assoc]
      · rename_i hi
        refine hdeclined _ ?_
        rintro _ ⟨⟩
        exact hi
    · exact hdeclined _ (by rintro _ ⟨⟩)
    · exact hdeclined _ (by rintro _ ⟨⟩)

end info

/-! ### Calls -/

/-- Between calls. -/
structure Client.Idle (c : Client) (sk₀ : Sock) (answer : List Bytes → Bytes) : Prop where
  even : c.Even sk₀ answer
  inScope : c.cfg.transport = .asyncio → c.inScope = false

section calls
variable {c c' : Client} {sk₀ : Sock} {answer : List Bytes → Bytes}

omit [Externals] in
theorem Client.Even.scoped (h : c.Even sk₀ answer) : c.scoped.Even sk₀ answer := by
  unfold Client.scoped
  split
  · exact h
  · exact h.congr rfl rfl

omit [Externals] in
theorem Client.Even.unscoped (h : c.Even sk₀ answer) : c.unscoped.Idle sk₀ answer := by
  unfold Client.unscoped
  split
  · rename_i hk
    exact ⟨h, fun hk' => by rw [hk] at hk'; cases hk'⟩
  · exact ⟨h.congr rfl rfl, fun _ => rfl⟩

omit [Externals] in
theorem Client.idle_closed : c.unscoped.closed.Idle sk₀ answer :=
  have h : (c.unscoped.closed).unscoped = c.unscoped.closed := by
    unfold Client.unscoped
    by_cases hk : c.cfg.transport = .socket
    · simp [hk, closed]
    · simp [hk, closed]
  h ▸ (even_closed : c.unscoped.closed.Even sk₀ answer).unscoped

omit [Externals] in
/-- A timeout scope closes the connection where an exchange was cut short. -/
theorem wp_timeoutScope_idle {α : Type} {Q : α → Prop} {P : Prop} {message : String} {x : ClientM α}
    (h : wp x (fun a c' => Q a ∧ c'.Even sk₀ answer ∧ c'.cfg = c.cfg)
      (fun stop c' => P ∧ c'.cfg = c.cfg ∨ c.scoped.Breaks sk₀ answer stop c') c.scoped) :
    wp (timeoutScope message x) (fun a c' => Q a ∧ c'.Idle sk₀ answer)
      (fun stop c' => P ∨ stop = .blocked ∨ c'.Idle sk₀ answer) c := by
  refine wp_timeoutScope (wp_mono h (fun a c' ⟨hQ, heven, hcfg⟩ => ⟨hcfg, hQ, heven.unscoped⟩) ?_)
  rintro stop c' (⟨hP, hcfg⟩ | ⟨hcfg, -, hends⟩)
  · refine ⟨hcfg, ?_⟩
    split <;> exact .inl hP
  · rw [scoped_cfg] at hcfg hends
    refine ⟨hcfg, ?_⟩
    split
    · exact .inr (.inr idle_closed)
    · rename_i hno
      rcases hends with heven | hblocked | ⟨hcancel, hk, -⟩
      · exact .inr (.inr heven.unscoped)
      · exact .inr (.inl hblocked)
      · exact absurd ⟨hk, hcancel⟩ hno

variable (hserver : sk₀.AnswersBy answer) (h : c.Idle sk₀ answer)
include hserver h

/-- `info` returns the text of the answer. -/
theorem wp_info_idle {level : Text} (hfit : Exchange.Fits answer (.info level) c) :
    wp (Client.info level) (fun text c' => (∀ reply, c.Hears answer (.info level) reply →
        InfoReply c.protocol reply reply.length text) ∧ c'.Idle sk₀ answer)
      (fun stop c' => Exchange.Leaves answer (.info level) c ∨ stop = .blocked ∨ c'.Idle sk₀ answer) c := by
  unfold Client.info
  simp only [wp_bind, wp_get, wp_ite, wp_raise]
  split
  · exact .inr (.inr h)
  refine wp_timeoutScope_idle ?_
  rw [wp_bind]
  have heven := h.even.scoped
  refine wp_sendCommand (fun _ => .inr ⟨rfl, rfl, .inl heven⟩) (fun _ _ _ => .inr ⟨rfl, rfl, .inl heven⟩)
    (fun _ _ => .inr ⟨rfl, rfl, .inl even_closed⟩) fun wire c₁ hw hs => ?_
  obtain ⟨sk, hsk, hon⟩ := heven.sends hs
  have hsk' : c.sock = some sk := by
    rw [← hsk]
    unfold Client.scoped
    split <;> rfl
  have hhears : c.Hears answer (.info level) (answer (sk.sent ++ [wire])) := ⟨sk, wire, hsk', hw, rfl⟩
  have hunique : ∀ {reply}, c.Hears answer (.info level) reply → reply = answer (sk.sent ++ [wire]) := by
    rintro reply ⟨sk', wire', hsk'', hw', rfl⟩
    obtain rfl : sk = sk' := Option.some.inj (hsk'.symm.trans hsk'')
    obtain rfl : wire = wire' := Except.ok.inj (hw.symm.trans hw')
    rfl
  have hto := answersTo_concat answer sk.sent wire
  generalize answer (sk.sent ++ [wire]) = reply at hhears hunique hto
  have hcfg : c₁.cfg = c.cfg := (cfg_of_frame hs.frame).trans scoped_cfg
  have hscope := inScope_of_frame hs.frame
  have hp : c₁.protocol = c.protocol := (protocol_of_frame hs.frame).trans scoped_protocol
  obtain ⟨s, later, hf, hstall⟩ := exists_feeds hon.wf hon.isSome
  obtain ⟨t, rfl⟩ : s <+: reply := by
    refine List.IsPrefix.trans ?_ (hon.stream_prefix hserver hto)
    rw [hf.stream]
    exact List.prefix_append _ _
  -- with the whole answer read the connection is even
  have hwhole : ∀ {c' : Client} {n : Nat}, n ≤ s.length → (s ++ t).length ≤ n →
      c'.On sk₀ (answersTo answer sk.sent ++ s.take n) (sk.sent ++ [wire]) → c'.Even sk₀ answer := by
    intro c' n hn hle hon'
    have ht : t = [] := List.eq_nil_of_length_eq_zero (by rw [List.length_append] at hle; omega)
    rw [ht, List.append_nil] at hto hle
    rw [List.take_of_length_le hle, ← hto] at hon'
    exact .inr ⟨_, hon'⟩
  show wp (infoLoop (c₁.bytesAhead + 1) []) _ _ c₁
  refine wp_mono (wp_infoLoop_on answer _ hon hf hstall (Nat.lt_succ_of_le hf.length_le_bytesAhead)) ?_ ?_
  · rintro text c' ⟨n, text, hreply, rfl, hon', hcfg', -⟩
    have hall := (hp ▸ hreply).append t
    have hn := hfit _ hhears n text hall
    refine ⟨fun reply hr => ?_, hwhole hreply.le_length (Nat.le_of_eq hn.symm) hon', hcfg'.trans hcfg⟩
    rw [hunique hr, ← hn]
    exact hall
  · rintro stop c' (⟨n, hstops, hon', hcfg', hscope'⟩ | ⟨hcfg', hscope', hends⟩)
    · by_cases hlt : n < (s ++ t).length
      · refine .inl ⟨?_, hcfg'.trans hcfg⟩
        cases hstops with
        | declined hd => exact .declined hw hs hf (hp ▸ hd) hhears hlt
        | paused hk hpause =>
          rw [hcfg] at hk
          rw [Client.scoped, if_pos hk] at hs
          exact .paused hk hw hs hf (hp ▸ hpause) hhears hlt
      · have hn : n ≤ s.length := by
          cases hstops with
          | declined hd => exact hd.le_length
          | paused => exact Nat.le_refl _
        exact .inr ⟨hcfg'.trans (hcfg.trans scoped_cfg.symm), hscope'.trans hscope,
          .inl (hwhole hn (Nat.le_of_not_lt hlt) hon')⟩
    · refine .inr ⟨hcfg'.trans (hcfg.trans scoped_cfg.symm), hscope'.trans hscope, ?_⟩
      rw [scoped_cfg]
      exact hcfg ▸ hscope ▸ hends

theorem answered_info {level : Text} (hfit : Exchange.Fits answer (.info level) c) :
    Exchange.Answered answer (.info level) c := fun reply hr _ _ hrun =>
  (wp_ok (wp_info_idle hserver h hfit) hrun).1 reply hr

end calls

/-! ### Runs -/

/-- What a caller issues. -/
inductive Issue
  | sendCommand (cmd : Command)
  | negotiate
  | info (level : Text)

/-- The exchanges of a plan, each with the client before it. -/
def planExchanges : List Command → NegotiationWalk → Client → List (Exchange × Client)
  | [], _, _ => []
  | cmd :: rest, walk, c =>
    let asked := walk.shouldSend cmd
    if asked.1 then
      (.command cmd, c) ::
        match sendCommand cmd c with
        | .ok resp c' => planExchanges rest (asked.2.record cmd resp) c'
        | .error _ _ => []
    else planExchanges rest asked.2 c

namespace Issue

def run : Issue → ClientM Unit
  | .sendCommand cmd => do let _ ← SeedLink.sendCommand cmd
  | .negotiate => SeedLink.negotiate
  | .info level => do let _ ← Client.info level

def exchanges : Issue → Client → List (Exchange × Client)
  | .sendCommand cmd, c => [(.command cmd, c)]
  | .negotiate, c =>
    match c.prepared.1 with
    | .ok plan => planExchanges plan {} { c.scoped with base := c.prepared.2 }
    | .error _ => []
  | .info level, c => if c.streaming then [] else [(.info level, c)]

/-- Exceptions are caught between what is issued; nothing follows a call that blocks. -/
def after (issue : Issue) (c : Client) : Option Client :=
  match issue.run c with
  | .ok _ c' | .error (.raised _) c' => some c'
  | .error .blocked _ => none

end Issue

/-- The exchanges of a run. -/
def exchanges : List Issue → Client → List (Exchange × Client)
  | [], _ => []
  | issue :: issues, c =>
    issue.exchanges c ++
      match issue.after c with
      | some c' => exchanges issues c'
      | none => []

/-! ### Every reply is the one to its command -/

section runs
variable {sk₀ : Sock} {answer : List Bytes → Bytes} (hserver : sk₀.AnswersBy answer)
include hserver

omit [Externals] hserver in
theorem mem_dropLast_append {α : Type} {x : α} {l l' : List α} (h : x ∈ l.dropLast) : x ∈ (l ++ l').dropLast := by
  rw [List.dropLast_append]
  split
  · exact h
  · exact List.mem_append_left _ (List.dropLast_subset _ h)

omit [Externals] hserver in
theorem planExchanges_cons (cmd : Command) (rest : List Command) (walk : NegotiationWalk) (c : Client) :
    planExchanges (cmd :: rest) walk c =
      if (walk.shouldSend cmd).1 then
        (.command cmd, c) ::
          match sendCommand cmd c with
          | .ok resp c' => planExchanges rest ((walk.shouldSend cmd).2.record cmd resp) c'
          | .error _ _ => []
      else planExchanges rest (walk.shouldSend cmd).2 c := rfl

theorem answered_plan (plan : List Command) : ∀ (walk : NegotiationWalk) (c : Client), c.Even sk₀ answer →
    (∀ e ∈ planExchanges plan walk c, e.1.Fits answer e.2) →
    (∀ e ∈ (planExchanges plan walk c).dropLast, ¬ e.1.Leaves answer e.2) →
    ∀ e ∈ planExchanges plan walk c, e.1.Answered answer e.2 := by
  induction plan with
  | nil =>
    intro walk c _ _ _ e he
    cases he
  | cons cmd rest ih =>
    intro walk c h
    rw [planExchanges_cons]
    by_cases hask : (walk.shouldSend cmd).1 = true
    · rw [if_pos hask]
      intro hfits hleaves e he
      rcases List.mem_cons.1 he with rfl | he
      · exact answered_command hserver h (hfits _ List.mem_cons_self)
      rw [List.dropLast_cons_of_ne_nil (List.ne_nil_of_mem he)] at hleaves
      have hsent := wp_sendCommand_even hserver h (hfits _ List.mem_cons_self) (hleaves _ List.mem_cons_self)
      rcases hrun : sendCommand cmd c with ⟨resp, c'⟩ | ⟨stop, c'⟩
      · simp only [hrun] at hfits hleaves he
        exact ih _ c' (wp_ok hsent hrun).1 (fun e he => hfits e (List.mem_cons_of_mem _ he))
          (fun e he => hleaves e (List.mem_cons_of_mem _ he)) e he
      · simp only [hrun, List.not_mem_nil] at he
    · rw [if_neg hask]
      exact ih _ c h

/-- Behind a plan whose exchanges leave nothing behind the connection is even. -/
theorem wp_sendPlan_even (plan : List Command) : ∀ (walk : NegotiationWalk) (c : Client), c.Even sk₀ answer →
    (∀ e ∈ planExchanges plan walk c, e.1.Fits answer e.2) →
    (∀ e ∈ planExchanges plan walk c, ¬ e.1.Leaves answer e.2) →
    wp (sendPlan plan walk) (fun _ c' => c'.Even sk₀ answer ∧ c'.cfg = c.cfg ∧ c'.inScope = c.inScope)
      (c.Breaks sk₀ answer) c := by
  induction plan with
  | nil => exact fun _ _ h _ _ => ⟨h, rfl, rfl⟩
  | cons cmd rest ih =>
    intro walk c h
    rw [planExchanges_cons, sendPlan]
    by_cases hask : (walk.shouldSend cmd).1 = true
    · simp only [if_pos hask]
      intro hfits hleaves
      have hsent := wp_sendCommand_even hserver h (hfits _ List.mem_cons_self) (hleaves _ List.mem_cons_self)
      rw [wp_bind]
      rcases hrun : sendCommand cmd c with ⟨resp, c'⟩ | ⟨stop, c'⟩
      · simp only [hrun] at hfits hleaves
        obtain ⟨heven, hcfg, hscope⟩ := wp_ok hsent hrun
        refine (wp_iff_of_ok hrun).2 (wp_mono (ih _ c' heven (fun e he => hfits e (List.mem_cons_of_mem _ he))
          fun e he => hleaves e (List.mem_cons_of_mem _ he)) ?_ ?_)
        · rintro _ c'' ⟨heven', hcfg', hscope'⟩
          exact ⟨heven', hcfg'.trans hcfg, hscope'.trans hscope⟩
        · rintro stop c'' ⟨hcfg', hscope', hends⟩
          exact ⟨hcfg'.trans hcfg, hscope'.trans hscope, hcfg ▸ hscope ▸ hends⟩
      · exact (wp_iff_of_error hrun).2 (wp_error hsent hrun)
    · simp only [if_neg hask]
      exact ih _ c h

variable {c : Client} (h : c.Idle sk₀ answer)
include h

omit hserver in
theorem Client.Idle.prepared : ({ c.scoped with base := c.prepared.2 } : Client).Even sk₀ answer :=
  h.even.scoped.congr rfl rfl

theorem wp_negotiate_idle (hfits : ∀ e ∈ Issue.negotiate.exchanges c, e.1.Fits answer e.2)
    (hleaves : ∀ e ∈ Issue.negotiate.exchanges c, ¬ e.1.Leaves answer e.2) :
    wp negotiate (fun _ c' => c'.Idle sk₀ answer) (fun stop c' => stop = .blocked ∨ c'.Idle sk₀ answer) c := by
  have hprep : c.scoped.base.prepareNegotiation c.scoped.negotiationArgs = c.prepared := by
    unfold Client.scoped Client.prepared
    split <;> rfl
  have hscope : wp negotiateInner (fun _ c' => True ∧ c'.Even sk₀ answer ∧ c'.cfg = c.cfg)
      (fun stop c' => False ∧ c'.cfg = c.cfg ∨ c.scoped.Breaks sk₀ answer stop c') c.scoped := by
    simp only [negotiateInner, wp_bind, wp_get, wp_set, hprep, wp_liftExcept]
    simp only [Issue.exchanges] at hfits hleaves
    split
    · rename_i plan hplan
      simp only [hplan] at hfits hleaves
      simp only [runPlan, wp_bind]
      refine wp_mono (wp_sendPlan_even hserver plan {} _ h.prepared hfits hleaves) ?_ fun _ _ hb =>
        .inr ⟨hb.1, hb.2, hb.3⟩
      rintro walk c' ⟨heven, hcfg, hsc⟩
      rw [wp_liftExcept]
      split
      · exact ⟨trivial, heven.congr rfl rfl, hcfg.trans scoped_cfg⟩
      · exact .inr ⟨hcfg, hsc, .inl heven⟩
    · exact .inr ⟨rfl, rfl, .inl h.prepared⟩
  refine wp_mono (wp_timeoutScope_idle hscope) (fun _ _ h => h.2) ?_
  rintro stop c' (hno | h)
  · exact hno.elim
  · exact h

/-- The step lemma: the connection is idle again after what leaves nothing behind. -/
theorem wp_issue_idle (issue : Issue) (hfits : ∀ e ∈ issue.exchanges c, e.1.Fits answer e.2)
    (hleaves : ∀ e ∈ issue.exchanges c, ¬ e.1.Leaves answer e.2) :
    wp issue.run (fun _ c' => c'.Idle sk₀ answer) (fun stop c' => stop = .blocked ∨ c'.Idle sk₀ answer) c := by
  rcases issue with cmd | _ | level
  · have hsent := wp_sendCommand_even hserver h.even (hfits _ (List.mem_singleton.2 rfl))
      (hleaves _ (List.mem_singleton.2 rfl))
    simp only [Issue.run, wp_bind, wp_pure]
    refine wp_mono hsent (fun _ c' ⟨heven, hcfg, hscope⟩ => ⟨heven, fun hk => ?_⟩) ?_
    · exact hscope.trans (h.inScope (hcfg ▸ hk))
    · rintro stop c' ⟨hcfg, hscope, heven | hblocked | ⟨-, hk, hin⟩⟩
      · exact .inr ⟨heven, fun hk => hscope.trans (h.inScope (hcfg ▸ hk))⟩
      · exact .inl hblocked
      · rw [h.inScope hk] at hin
        cases hin
  · exact wp_negotiate_idle hserver h hfits hleaves
  · simp only [Issue.exchanges] at hfits hleaves
    simp only [Issue.run, wp_bind, wp_pure]
    by_cases hs : c.streaming = true
    · have hrefused : Client.info level c =
          .error (.raised (seedLinkError "Cannot call info() while streaming")) c := by
        unfold Client.info
        show (if c.streaming = true then _ else _ : ClientM Text) c = _
        rw [if_pos hs]
        rfl
      exact (wp_iff_of_error hrefused).2 (.inr h)
    · rw [if_neg hs] at hfits hleaves
      refine wp_mono (wp_info_idle hserver h (hfits _ (List.mem_singleton.2 rfl))) (fun _ _ h => h.2) ?_
      rintro stop c' (hleft | hends)
      · exact absurd hleft (hleaves _ (List.mem_singleton.2 rfl))
      · exact hends

theorem after_idle (issue : Issue) (hfits : ∀ e ∈ issue.exchanges c, e.1.Fits answer e.2)
    (hleaves : ∀ e ∈ issue.exchanges c, ¬ e.1.Leaves answer e.2) :
    ∀ c', issue.after c = some c' → c'.Idle sk₀ answer := by
  have hissue := wp_issue_idle hserver h issue hfits hleaves
  intro c' hafter
  unfold Issue.after at hafter
  rcases hrun : issue.run c with ⟨_, c''⟩ | ⟨ex | _, c''⟩
  · simp only [hrun, Option.some.injEq] at hafter
    have hidle := wp_ok hissue hrun
    exact hafter ▸ hidle
  · simp only [hrun, Option.some.injEq] at hafter
    rcases wp_error hissue hrun with hblocked | hidle
    · cases hblocked
    · exact hafter ▸ hidle
  · simp only [hrun, reduceCtorEq] at hafter

theorem answered_issue (issue : Issue) (hfits : ∀ e ∈ issue.exchanges c, e.1.Fits answer e.2)
    (hleaves : ∀ e ∈ (issue.exchanges c).dropLast, ¬ e.1.Leaves answer e.2) :
    ∀ e ∈ issue.exchanges c, e.1.Answered answer e.2 := by
  rcases issue with cmd | _ | level
  · intro e he
    obtain rfl := List.mem_singleton.1 he
    exact answered_command hserver h.even (hfits _ he)
  · simp only [Issue.exchanges] at hfits hleaves ⊢
    split
    · rename_i plan hplan
      simp only [hplan] at hfits hleaves
      exact answered_plan hserver plan _ _ h.prepared hfits hleaves
    · exact fun e he => absurd he List.not_mem_nil
  · simp only [Issue.exchanges] at hfits hleaves ⊢
    split
    · exact fun e he => absurd he List.not_mem_nil
    · rename_i hs
      rw [if_neg hs] at hfits
      intro e he
      obtain rfl := List.mem_singleton.1 he
      exact answered_info hserver h (hfits _ he)

/-- As long as no exchange leaves an answer behind for a later one, every reply is the answer to its
command. -/
theorem replies_pair (issues : List Issue) (hfits : ∀ e ∈ exchanges issues c, e.1.Fits answer e.2)
    (hleaves : ∀ e ∈ (exchanges issues c).dropLast, ¬ e.1.Leaves answer e.2) :
    ∀ e ∈ exchanges issues c, e.1.Answered answer e.2 := by
  induction issues generalizing c with
  | nil =>
    intro e he
    cases he
  | cons issue issues ih =>
    unfold exchanges at hfits hleaves ⊢
    have hfits' := fun e he => hfits e (List.mem_append_left _ he)
    intro e he
    rcases List.mem_append.1 he with he | he
    · refine answered_issue hserver h issue hfits' (fun e he => hleaves e ?_) e he
      exact mem_dropLast_append he
    · rw [List.dropLast_append_of_ne_nil (List.ne_nil_of_mem he)] at hleaves
      have hidle := after_idle hserver h issue hfits' fun e he => hleaves e (List.mem_append_left _ he)
      rcases hafter : issue.after c with _ | c'
      · simp only [hafter, List.not_mem_nil] at he
      · simp only [hafter] at hfits hleaves he
        exact ih (hidle c' hafter) (fun e he => hfits e (List.mem_append_right _ he))
          (fun e he => hleaves e (List.mem_append_right _ he)) e he

end runs

end exchanges

/-! ### Scripted servers -/

/-- What a script has for the last of these lines. -/
def scriptAnswer (script : List (Bytes × List Recv)) (sent : List Bytes) : Bytes :=
  ((script[sent.length - 1]?).map fun entry => delivered entry.2).getD []

theorem answersBy_scripted (script : List (Bytes × List Recv)) :
    ({ incoming := [], peer := scripted script } : Sock).AnswersBy (scriptAnswer script) := by
  intro total sk hreach
  obtain ⟨-, k, hk, hsent, htotal⟩ := hreach.of_scripted
  have hanswers : ∀ k ≤ script.length, answersTo (scriptAnswer script) ((script.take k).map Prod.fst) =
      delivered ((script.take k).flatMap Prod.snd) := by
    intro k
    induction k with
    | zero => exact fun _ => rfl
    | succ k ih =>
      intro hk
      have hget : script[k]? = some script[k] := List.getElem?_eq_getElem hk
      have hlen : (((script.take k).map Prod.fst) ++ [script[k].1]).length - 1 = k := by
        simp only [List.length_append, List.length_map, List.length_take, List.length_singleton]
        omega
      rw [List.take_add_one, hget, Option.toList_some, List.map_append, List.flatMap_append, delivered_append]
      rw [List.map_singleton, answersTo_concat, ih (by omega), scriptAnswer, hlen, hget]
      simp
  rw [hsent, htotal, hanswers k hk]

/-- A fresh connection. -/
theorem idle_opened {c : Client} {sk₀ : Sock} {answer : List Bytes → Bytes} (hsock : c.sock = some sk₀)
    (hsent : sk₀.sent = []) (hwf : c.rb.WF) (hempty : c.rb.unread = [])
    (hscope : c.cfg.transport = .asyncio → c.inScope = false) : c.Idle sk₀ answer := by
  refine ⟨.inr ⟨[], hwf, sk₀, hsock, hsent, ?_⟩, hscope⟩
  have hstream : c.stream = delivered sk₀.incoming := by
    rw [Client.stream, hsock, hempty]
    rfl
  rw [hstream]
  exact .opened

/-- The server accepts station A_B and rejects station C_D. -/
def stationScript (first : List Recv) : List (Bytes × List Recv) :=
  [(Bytes.lit "STATION A_B\r", first), (Bytes.lit "STATION C_D\r", [.data (Bytes.lit "ERROR ARGUMENTS\r\n")])]

def stationSock (first : List Recv) : Sock := { incoming := [], peer := scripted (stationScript first) }

def stationClient (first : List Recv) : Client := { Client.listening .v4 [] with sock := some (stationSock first) }

def stationIssues : List Issue :=
  [.sendCommand (Commands.stationV4 "A_B".toList), .sendCommand (Commands.stationV4 "C_D".toList)]

/-- What is seen of an exchange. -/
def Exchange.seen (e : Exchange × Client) : Exchange × Option (List Bytes) × Option Text :=
  (e.1, e.2.sock.map (·.sent), returned (replyLine (Commands.stationV4 "C_D".toList)) e.2)

/-- The two exchanges, as they are seen. -/
def Seen (first : List Recv) (read₁ read₂ : Option Text) : Prop :=
  (@exchanges Externals.bare stationIssues (stationClient first)).map Exchange.seen =
    [(.command (Commands.stationV4 "A_B".toList), some [], read₁),
      (.command (Commands.stationV4 "C_D".toList), some [Bytes.lit "STATION A_B\r"], read₂)]

instance (first : List Recv) (read₁ read₂ : Option Text) : Decidable (Seen first read₁ read₂) :=
  inferInstanceAs (Decidable (_ = _))

section scripted
variable {first : List Recv} {read₁ read₂ : Option Text}

theorem idle_stationClient :
    (stationClient first).Idle (stationSock first) (scriptAnswer (stationScript first)) :=
  idle_opened rfl rfl RecvBuf.wf_fresh RecvBuf.unread_fresh fun _ => rfl

theorem exists_of_seen (h : Seen first read₁ read₂) : ∃ c₂ : Client,
    @exchanges Externals.bare stationIssues (stationClient first) =
      [(.command (Commands.stationV4 "A_B".toList), stationClient first),
        (.command (Commands.stationV4 "C_D".toList), c₂)] ∧
      c₂.sock.map (·.sent) = some [Bytes.lit "STATION A_B\r"] ∧
        returned (replyLine (Commands.stationV4 "C_D".toList)) c₂ = read₂ := by
  unfold Seen at h
  obtain ⟨rest, hrest⟩ : ∃ rest, @exchanges Externals.bare stationIssues (stationClient first) =
      (.command (Commands.stationV4 "A_B".toList), stationClient first) :: rest := ⟨_, rfl⟩
  rw [hrest] at h ⊢
  rcases rest with _ | ⟨⟨x, c₂⟩, _ | _⟩
  · cases h
  · simp only [List.map_cons, List.map_nil, List.cons.injEq, and_true, Exchange.seen, Prod.mk.injEq] at h
    obtain ⟨-, hx, hsent, hread⟩ := h
    exact ⟨c₂, by rw [hx], hsent, hread⟩
  · simp at h

theorem fits_of_seen (h : Seen first read₁ read₂) (hfirst : delivered first = Bytes.lit "OK\r\n") :
    ∀ e ∈ @exchanges Externals.bare stationIssues (stationClient first),
      @Exchange.Fits Pymseed.bare (scriptAnswer (stationScript first)) e.1 e.2 := by
  obtain ⟨c₂, hlist, hsent, -⟩ := exists_of_seen h
  rw [hlist]
  intro e he
  simp only [List.mem_cons, List.not_mem_nil, or_false] at he
  rcases he with rfl | rfl
  · rintro reply ⟨sk, wire, ⟨⟩, hw, rfl⟩ -
    exact ⟨Bytes.lit "OK", rfl, hfirst⟩
  · rintro reply ⟨sk, wire, hsk, hw, rfl⟩ -
    rw [hsk, Option.map_some, Option.some.injEq] at hsent
    rw [hsent]
    exact ⟨Bytes.lit "ERROR ARGUMENTS", rfl, rfl⟩

end scripted

/-- The acceptance of the first station comes too late, and the rejection of the second one is not read:
its reply is the late acceptance. -/
theorem not_replies_pair_late :
    ∃ first, (stationSock first).AnswersBy (scriptAnswer (stationScript first)) ∧
      (stationClient first).Idle (stationSock first) (scriptAnswer (stationScript first)) ∧
      (∀ e ∈ @exchanges Externals.bare stationIssues (stationClient first),
        @Exchange.Fits Pymseed.bare (scriptAnswer (stationScript first)) e.1 e.2) ∧
      ¬ ∀ e ∈ @exchanges Externals.bare stationIssues (stationClient first),
        @Exchange.Answered Externals.bare (scriptAnswer (stationScript first)) e.1 e.2 := by
  let _ : Externals := Externals.bare
  refine ⟨[.timeout, .data (Bytes.lit "OK\r\n")], ?_⟩
  have hseen : Seen [.timeout, .data (Bytes.lit "OK\r\n")] none (some "OK".toList) := by decide +kernel
  refine ⟨answersBy_scripted _, idle_stationClient, fits_of_seen hseen rfl, fun h => ?_⟩
  obtain ⟨c₂, hlist, hsent, hread⟩ := exists_of_seen hseen
  rw [hlist] at h
  obtain ⟨c', hrun⟩ := exists_of_returned hread
  obtain ⟨sk, hsk, hsent⟩ := Option.map_eq_some_iff.1 hsent
  obtain ⟨l, hl, hdec⟩ := h (_, c₂) (List.mem_cons_of_mem _ (List.mem_singleton.2 rfl)) _
    ⟨sk, Bytes.lit "STATION C_D\r", hsk, rfl, rfl⟩ _ _ rfl hrun
  rw [hsent] at hl
  have hreject : Bytes.lit "ERROR ARGUMENTS" ++ crlf = l ++ crlf := hl
  rw [← List.append_cancel_right hreject] at hdec
  exact absurd hdec (by decide)

theorem replies_pair_prompt :
    let first := [.data (Bytes.lit "OK"), .data (Bytes.lit "\r\n")]
    ∀ e ∈ @exchanges Externals.bare stationIssues (stationClient first),
      @Exchange.Answered Externals.bare (scriptAnswer (stationScript first)) e.1 e.2 := by
  intro first
  have hseen : Seen first none (some "ERROR ARGUMENTS".toList) := by decide +kernel
  refine @replies_pair Externals.bare _ _ (answersBy_scripted _) _ idle_stationClient stationIssues
    (fits_of_seen hseen rfl) ?_
  obtain ⟨c₂, hlist, -, -⟩ := exists_of_seen hseen
  rw [hlist]
  intro e he hleaves
  obtain rfl := List.mem_singleton.1 he
  rcases hleaves with ⟨hp, -, -⟩ | @⟨_, _, _, _, more, -, -, hw, ⟨sk, incoming, ⟨⟩, hpeer, rfl⟩, hf⟩
  · cases hp
  · cases hw
    cases hpeer
    obtain ⟨u, now, ⟨-, -, sk', hsk', hin⟩, -, -⟩ := hf
    cases hsk'
    have hmem : Recv.timeout ∈ first := by
      have : Recv.timeout ∈ now ++ .timeout :: more := List.mem_append_right _ List.mem_cons_self
      rw [← hin] at this
      exact this
    simp [first] at hmem

end SeedLink
