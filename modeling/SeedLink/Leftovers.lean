import SeedLink.Calls
import SeedLink.Lockstep

/-!
# What earlier connections leave in the buffer

`close` moves the ends of the buffer and leaves its bytes in place. Clients that agree but for such bytes
(`Client.Agrees`) go in lockstep: nothing that a call returns, raises or sends depends on them. So a client
without a connection behaves from then on as if its buffer had never been used.
-/

namespace SeedLink

open StateExc Client

/-! ### Buffers with the same contents -/

theorem Bytearray.slice_congr {b b' : Bytearray} {i j : Nat} (hsize : b'.size = b.size)
    (hget : ∀ k, i ≤ k → k < j → b'.get k = b.get k) : b'.slice i j = b.slice i j := by
  simp only [Bytearray.slice, hsize]
  refine List.map_congr_left fun k hk => ?_
  have := List.mem_range'_1.1 hk
  exact hget k (by omega) (by omega)

namespace RecvBuf

/-- The buffers differ at most in cells outside their contents. -/
structure Same (rb rb' : RecvBuf) : Prop where
  start : rb'.start = rb.start
  stop : rb'.stop = rb.stop
  size : rb'.buf.size = rb.buf.size
  stop_le : rb.stop ≤ rb.buf.size
  get : ∀ k, rb.start ≤ k → k < rb.stop → rb'.buf.get k = rb.buf.get k

namespace Same
variable {rb rb' : RecvBuf} (h : rb.Same rb')
include h

theorem slice {i j : Nat} (hi : rb.start ≤ i) (hj : j ≤ rb.stop) : rb'.buf.slice i j = rb.buf.slice i j :=
  Bytearray.slice_congr h.size fun k hik hkj => h.get k (by omega) (by omega)

theorem available : rb'.available = rb.available := by rw [RecvBuf.available, h.start, h.stop]; rfl

theorem room : rb'.room = rb.room := by rw [RecvBuf.room, h.size, h.stop]; rfl

theorem unread : rb'.unread = rb.unread := by
  rw [RecvBuf.unread, h.start, h.stop]
  exact h.slice (Nat.le_refl _) (Nat.le_refl _)

theorem reset : rb.reset.Same rb'.reset := by
  refine ⟨rfl, rfl, ?_, Nat.zero_le _, fun k _ hk => absurd hk (Nat.not_lt_zero k)⟩
  unfold RecvBuf.reset
  rw [h.size]
  split
  · rfl
  · exact h.size

theorem resetIfDrained : rb.resetIfDrained.Same rb'.resetIfDrained := by
  unfold RecvBuf.resetIfDrained
  rw [h.start, h.stop]
  split
  · exact h.reset
  · exact h

/-- A consumer moves on. -/
theorem moved {start : Nat} (hstart : rb.start ≤ start) : ({ rb with start } : RecvBuf).Same { rb' with start } :=
  ⟨rfl, h.stop, h.size, h.stop_le, fun k hk hk' => h.get k (Nat.le_trans hstart hk) hk'⟩

theorem advance (n : Nat) : (rb.advance n).Same (rb'.advance n) := by
  have hmoved := h.moved (Nat.le_add_right rb.start n)
  unfold RecvBuf.advance
  rwa [h.start]

theorem fill {data : Bytes} (hd : data.length ≤ rb.room) : (rb.fill data).Same (rb'.fill data) := by
  have hle := h.stop_le
  unfold RecvBuf.room at hd
  refine ⟨h.start, ?_, h.size, ?_, fun k hk hk' => ?_⟩
  · show rb'.stop + _ = _
    rw [h.stop]
    rfl
  · show rb.stop + data.length ≤ rb.buf.size
    omega
  · change k < rb.stop + data.length at hk'
    show (if rb'.stop ≤ k ∧ k < rb'.stop + data.length then _ else rb'.buf.get k) =
      if rb.stop ≤ k ∧ k < rb.stop + data.length then _ else rb.buf.get k
    rw [h.stop]
    split
    · rfl
    · exact h.get k hk (by omega)

/-- A copy of the contents at the front. -/
theorem copied {b b' : Bytearray} (hsize : b'.size = b.size) (hle : rb.available ≤ b.size) :
    (⟨b.write 0 rb.unread, 0, rb.available⟩ : RecvBuf).Same ⟨b'.write 0 rb'.unread, 0, rb'.available⟩ := by
  have hlen : rb.unread.length = rb.available := Bytearray.length_slice h.stop_le
  refine ⟨rfl, h.available, hsize, hle, fun k _ hk => ?_⟩
  change k < rb.available at hk
  have hk' : 0 ≤ k ∧ k < 0 + rb.unread.length := by omega
  simp only [Bytearray.write, h.unread, if_pos hk']

theorem makeRoom (n : Nat) : (RecvBuf.makeRoom n rb).Same (RecvBuf.makeRoom n rb') := by
  have hle := h.stop_le
  have hav : rb.available ≤ rb.buf.size := by unfold RecvBuf.available; omega
  unfold RecvBuf.makeRoom
  simp only [h.size, h.start]
  split
  · refine h.copied (by rfl) ?_
    have : rb.buf.size * 2 ≤ max n (rb.buf.size * 2) := Nat.le_max_right _ _
    simp only [Bytearray.size_zeros]
    omega
  · split
    · exact h.copied h.size hav
    · exact h

theorem prepareRoom (n : Nat) : (rb'.prepareRoom n).1 = (rb.prepareRoom n).1 ∧
    (rb.prepareRoom n).2.Same (rb'.prepareRoom n).2 := by
  unfold RecvBuf.prepareRoom
  rw [h.available]
  split
  · exact ⟨rfl, h⟩
  · split
    · exact ⟨rfl, h.reset.makeRoom n⟩
    · exact ⟨rfl, h.makeRoom n⟩

end Same

end RecvBuf

/-- The same read loop on both. -/
theorem fillLoop_same (deadline : Bool) (n : Nat) : ∀ (incoming : List Recv) {rb rb' : RecvBuf}, rb.Same rb' →
    (fillLoop deadline n incoming rb').1 = (fillLoop deadline n incoming rb).1 ∧
      (fillLoop deadline n incoming rb).2.1.Same (fillLoop deadline n incoming rb').2.1 ∧
        (fillLoop deadline n incoming rb').2.2 = (fillLoop deadline n incoming rb).2.2
  | [], rb, rb', h => by
    unfold fillLoop
    rw [h.available]
    exact ⟨rfl, h, rfl⟩
  | ev :: later, rb, rb', h => by
    unfold fillLoop
    rw [h.available]
    split
    · exact ⟨rfl, h, rfl⟩
    cases ev with
    | timeout =>
      simp only
      split
      · exact ⟨rfl, h, rfl⟩
      · exact fillLoop_same deadline n later h
    | oserror detail => exact ⟨rfl, h, rfl⟩
    | data chunk =>
      simp only [h.room]
      split
      · exact ⟨rfl, h, rfl⟩
      split
      · rename_i hfit
        exact fillLoop_same deadline n later (h.fill hfit)
      · have htake : (chunk.take rb.room).length ≤ rb.room := by
          rw [List.length_take]
          exact Nat.min_le_left _ _
        have hfilled := h.fill htake
        rw [hfilled.available]
        split
        · exact ⟨rfl, hfilled, rfl⟩
        · exact ⟨rfl, hfilled, rfl⟩

/-! ### Clients that agree -/

/-- The clients differ at most in cells of their buffers outside the contents. -/
structure Client.Agrees (c c' : Client) : Prop where
  same : c.rb.Same c'.rb
  eq : c' = { c with rb := c'.rb }

/-- Clients that agree end alike, and with the same result. -/
abbrev Oblivious {α : Type} (x : ClientM α) : Prop := Lockstep Client.Agrees Eq x x

section agrees
variable {c c' : Client}

theorem Client.Agrees.view (h : c.Agrees c') : c'.view = c.view := by rw [h.eq]; rfl

theorem Client.Agrees.sock (h : c.Agrees c') : c'.sock = c.sock := by rw [h.eq]

theorem Client.Agrees.closed (h : c.Agrees c') : c.closed.Agrees c'.closed :=
  ⟨h.same.reset, by
    have heq := h.eq
    rw [heq]
    rfl⟩

theorem Client.Agrees.buffer (h : c.Agrees c') {rb rb' : RecvBuf} (hs : rb.Same rb') :
    ({ c with rb } : Client).Agrees { c' with rb := rb' } := ⟨hs, by rw [h.eq]⟩

theorem Client.Agrees.connection (h : c.Agrees c') {rb rb' : RecvBuf} (hs : rb.Same rb') (sk : Sock) :
    ({ c with rb, sock := some sk } : Client).Agrees { c' with rb := rb', sock := some sk } := ⟨hs, by rw [h.eq]⟩

theorem Client.Agrees.deadline (h : c.Agrees c') : c'.deadline = c.deadline := by rw [h.eq]; rfl

end agrees

/-! ### Reading -/

theorem oblivious_close : Oblivious close := .modify fun _ _ h => h.closed

theorem oblivious_raise {α : Type} (e : Exn) : Oblivious (raise e : ClientM α) := .throw rfl

theorem oblivious_liftExcept {α : Type} (x : Except Exn α) : Oblivious (liftExcept x) := by
  cases x with
  | ok a => exact .pure a
  | error e => exact oblivious_raise e

theorem alike_onTimeout {c c' : Client} (h : c.Agrees c') (n : Nat) :
    Alike Client.Agrees Eq (onTimeout n) (onTimeout n) c c' := by
  have hcfg : c'.cfg = c.cfg := by rw [h.eq]
  unfold Alike onTimeout
  rw [hcfg, h.same.available]
  split_ifs
  · exact ⟨rfl, h⟩
  · exact ⟨rfl, h.closed⟩
  · exact ⟨rfl, h⟩

theorem oblivious_ensure (n : Nat) : Oblivious (ensure n) := by
  intro c c' h
  have hprepare := h.same.prepareRoom n
  unfold Alike ensure
  rw [h.sock, h.deadline]
  cases hsk : c.sock with
  | none => exact ⟨rfl, h⟩
  | some sk =>
    rcases hprep : c.rb.prepareRoom n with ⟨enough, rb₁⟩
    rcases hprep' : c'.rb.prepareRoom n with ⟨enough', rb₁'⟩
    rw [hprep, hprep'] at hprepare
    obtain ⟨henough, hsame⟩ := hprepare
    change enough' = enough at henough
    change rb₁.Same rb₁' at hsame
    subst henough
    cases enough' with
    | true => exact ⟨rfl, h.connection hsame sk⟩
    | false =>
      have hfill := fillLoop_same c.deadline n sk.incoming hsame
      dsimp only
      rcases hrun : fillLoop c.deadline n sk.incoming rb₁ with ⟨stop, rb₂, incoming⟩
      rcases hrun' : fillLoop c.deadline n sk.incoming rb₁' with ⟨stop', rb₂', incoming'⟩
      rw [hrun, hrun'] at hfill
      obtain ⟨hstop, hsame', hincoming⟩ := hfill
      change stop' = stop at hstop
      change rb₂.Same rb₂' at hsame'
      change incoming' = incoming at hincoming
      subst hstop hincoming
      dsimp only
      have hconn := h.connection hsame' { sk with incoming := incoming' }
      cases stop' with
      | filled => exact ⟨rfl, hconn⟩
      | timeout => exact alike_onTimeout hconn n
      | oserror | eof => exact ⟨rfl, hconn.closed⟩
      | blocked => exact ⟨rfl, hconn⟩

/-- Behind a fill the contents suffice. -/
theorem oblivious_ensure_bind {α : Type} {n : Nat} {f : Unit → ClientM α}
    (hf : ∀ c c', n ≤ c.rb.available → c.Agrees c' → Alike Client.Agrees Eq (f ⟨⟩) (f ⟨⟩) c c') :
    Oblivious (ensure n >>= f) := fun c c' h =>
  (oblivious_ensure n c c' h).bind_of (available_ensure n c) fun _ s t => hf s t

section buffered
variable {c c' : Client} {n : Nat}

/-- What lies inside the contents is read off both. -/
theorem Client.Agrees.slice (h : c.Agrees c') {i k : Nat} (hik : i + k ≤ c.rb.available) :
    c'.rb.buf.slice (c'.rb.start + i) (c'.rb.start + i + k) = c.rb.buf.slice (c.rb.start + i) (c.rb.start + i + k) := by
  unfold RecvBuf.available at hik
  rw [h.same.start]
  exact Bytearray.slice_congr h.same.size fun k hk hk' => h.same.get k (by omega) (by omega)

theorem alike_buffered (h : c.Agrees c') (hn : n ≤ c.rb.available) :
    Alike Client.Agrees Eq (buffered 0 n) (buffered 0 n) c c' := by
  have hslice := h.slice (i := 0) (k := n) (by omega)
  exact ⟨hslice.symm, h⟩

end buffered

theorem oblivious_consume (n : Nat) : Oblivious (consume n) :=
  .modify fun _ _ h => h.buffer (h.same.advance n)

theorem oblivious_peek (n : Nat) : Oblivious (peek n) :=
  oblivious_ensure_bind fun _ _ hn h => alike_buffered h hn

theorem oblivious_take (n : Nat) : Oblivious (take n) :=
  oblivious_ensure_bind fun _ _ hn h => (alike_buffered h hn).bind fun _ s t hst =>
    (oblivious_consume n s t hst).bind fun _ _ _ hst => .pure _ hst

theorem alike_unexpectedData {c c' : Client} (h : c.Agrees c') (hn : 2 ≤ c.rb.available) :
    Alike Client.Agrees Eq unexpectedData unexpectedData c c' :=
  (alike_buffered h hn).bind fun _ s t hst => oblivious_raise _ s t hst

/-! ### Lines -/

theorem scanLine_same {rb rb' : RecvBuf} (h : rb.Same rb') (searchFrom : Nat) :
    scanLine rb'.buf rb'.start rb'.stop searchFrom = scanLine rb.buf rb.start rb.stop searchFrom := by
  have hfind : rb'.buf.find crlf (rb.start + searchFrom) rb.stop = rb.buf.find crlf (rb.start + searchFrom) rb.stop := by
    rw [Bytearray.find, h.slice (Nat.le_add_right _ _) (Nat.le_refl _), Bytearray.find]
  unfold scanLine
  rw [h.start, h.stop, hfind]
  cases hidx : rb.buf.find crlf (rb.start + searchFrom) rb.stop with
  | none => rfl
  | some idx =>
    obtain ⟨i, hi, rfl⟩ := Option.map_eq_some_iff.1 hidx
    have hle := (Text.findSub_eq_some.1 hi).2.1.length_le
    rw [List.length_drop, Bytearray.length_slice h.stop_le] at hle
    have hcrlf : crlf.length = 2 := rfl
    have hslice : rb'.buf.slice rb.start (i + (rb.start + searchFrom)) = rb.buf.slice rb.start (i + (rb.start + searchFrom)) :=
      Bytearray.slice_congr h.size fun k hk hk' => h.get k hk (by omega)
    simp only [hslice]

theorem oblivious_readLineLoop : ∀ fuel searchFrom, Oblivious (readLineLoop fuel searchFrom)
  | 0, _ => .throw rfl
  | fuel + 1, searchFrom => by
    intro c c' h
    refine .get_bind ?_
    rw [scanLine_same h.same, h.same.available]
    cases hscan : scanLine c.rb.buf c.rb.start c.rb.stop searchFrom with
    | error e =>
      have hclose : Oblivious (do close; raise e : ClientM Text) := .bind oblivious_close fun _ => oblivious_raise e
      exact hclose c c' h
    | ok found =>
      rcases found with _ | ⟨line, newStart⟩
      · have hmore : Oblivious (do
            ensure (c.rb.available + 1)
            readLineLoop fuel (c.rb.available - 1)) :=
          .bind (oblivious_ensure _) fun _ => oblivious_readLineLoop fuel _
        exact hmore c c' h
      · exact .bind (.modify (h.buffer (h.same.moved (scanLine_found h.same.stop_le hscan).1))) fun _ _ _ hst => .pure _ hst

theorem oblivious_readLine : Oblivious readLine := oblivious_readLineLoop _ _

/-! ### Frames -/

theorem available_peek (n : Nat) (c : Client) :
    wp (peek n) (fun _ c' => n ≤ c'.rb.available) (fun _ _ => True) c := by
  rw [peek, wp_bind]
  exact wp_mono (available_ensure n c) (fun _ _ h => h) fun _ _ h => h

theorem oblivious_classifyNext : Oblivious classifyNext := oblivious_ensure_bind fun c c' hn h => by
  have hav : 2 ≤ c.rb.stop - c.rb.start := hn
  have hfirst : c'.rb.buf.get c'.rb.start = c.rb.buf.get c.rb.start := by
    rw [h.same.start]
    exact h.same.get _ (by omega) (by omega)
  have hsecond : c'.rb.buf.get (c'.rb.start + 1) = c.rb.buf.get (c.rb.start + 1) := by
    rw [h.same.start]
    exact h.same.get _ (by omega) (by omega)
  refine .get_bind ?_
  rw [hfirst, hsecond]
  refine .ite (fun _ => .pure _ h) fun _ => .ite (fun _ => ?_) fun _ => alike_unexpectedData h hn
  refine (oblivious_peek 3 c c' h).bind_of (available_peek 3 c) fun three s t hs hst => ?_
  refine .ite (fun _ => .pure _ hst) fun _ => .ite (fun _ => ?_) fun _ =>
    .ite (fun _ => .pure _ hst) fun _ => alike_unexpectedData hst (by omega)
  exact (oblivious_peek 5 s t hst).bind_of (available_peek 5 s) fun five u v hu huv =>
    .ite (fun _ => .pure _ huv) fun _ => alike_unexpectedData huv (by omega)

theorem decodeFrameV4Body_same {c c' : Client} (h : c.Agrees c') {header : HeaderV4}
    (hn : header.total ≤ c.rb.available) :
    decodeFrameV4Body c'.rb.buf c'.rb.start header = decodeFrameV4Body c.rb.buf c.rb.start header := by
  unfold HeaderV4.total at hn
  have hsid := h.slice (Nat.le_trans (Nat.le_add_right _ _) hn)
  have hpay := h.slice hn
  rw [← Nat.add_assoc, ← Nat.add_assoc] at hpay
  unfold decodeFrameV4Body
  simp only [hsid, hpay]

theorem oblivious_recvFrameV4 : Oblivious recvFrameV4 := oblivious_ensure_bind fun c c' hn h => by
  refine (alike_buffered h hn).bind fun head s t hst => ?_
  refine (oblivious_liftExcept (parseHeaderV4 head) s t hst).bind fun header s t hst => ?_
  have hbody : Oblivious (do
      ensure (headsizeV4 + header.stationIdLength + header.payloadLength)
      let c ← get
      let frame ← liftExcept (decodeFrameV4Body c.rb.buf c.rb.start header)
      consume (headsizeV4 + header.stationIdLength + header.payloadLength)
      return frame) := oblivious_ensure_bind fun c c' hn h => by
    refine .get_bind ?_
    rw [decodeFrameV4Body_same h hn]
    exact (oblivious_liftExcept _ c c' h).bind fun frame s t hst =>
      (oblivious_consume _ s t hst).bind fun _ _ _ hst => .pure _ hst
  exact hbody s t hst

section frames
variable [Pymseed]

theorem oblivious_readMseedPayloadLoop : ∀ fuel size, Oblivious (readMseedPayloadLoop fuel size)
  | 0, _ => .throw rfl
  | fuel + 1, size => by
    refine .bind (oblivious_peek size) fun start => ?_
    cases detectRecordLength start with
    | error e => exact oblivious_raise e
    | ok found =>
      cases found with
      | some reclen => exact oblivious_take reclen
      | none => exact .ite (oblivious_raise _) (oblivious_readMseedPayloadLoop fuel _)

theorem oblivious_recvFrameV3 : Oblivious recvFrameV3 :=
  .bind (oblivious_take _) fun _ => .bind (oblivious_liftExcept _) fun _ =>
    .bind (oblivious_readMseedPayloadLoop _ _) fun _ => oblivious_liftExcept _

theorem oblivious_recvEvent (ev : StreamEvent) : Oblivious (recvEvent ev) := by
  have hpacket : Oblivious (do
      let c ← get
      let frame ← if c.protocol = some .v4 then recvFrameV4 else recvFrameV3
      return Received.packet frame) := .get_bind fun c c' h => by
    have hprotocol : c'.protocol = c.protocol := (congrArg Client.protocol h.view :)
    rw [hprotocol]
    exact .ite (.bind oblivious_recvFrameV4 fun _ => .pure _) (.bind oblivious_recvFrameV3 fun _ => .pure _)
  cases ev with
  | endOfStream => exact .bind (oblivious_take 3) fun _ => .pure _
  | error => exact .bind oblivious_readLine fun _ => .pure _
  | packet | other => exact hpacket

theorem oblivious_recvFrame : Oblivious recvFrame :=
  .bind oblivious_classifyNext fun ev => .bind (oblivious_recvEvent ev) fun _ =>
    .bind (.modify fun _ _ h => h.buffer h.same.resetIfDrained) fun _ => .pure _

end frames

theorem oblivious_pollReadable : Oblivious pollReadable := by
  intro c c' h
  have htransport : c'.cfg.transport = c.cfg.transport := by rw [h.eq]
  have hreadable : c'.env.readable c'.polls = c.env.readable c.polls := by rw [h.eq]
  have hpolled : ({ c with polls := c.polls + 1 } : Client).Agrees { c' with polls := c'.polls + 1 } :=
    ⟨h.same, by rw [h.eq]⟩
  refine .get_bind ?_
  rw [h.same.start, h.same.stop, htransport, hreadable]
  refine .ite (fun _ => .pure _ h) fun _ => .bind (.set hpolled) fun _ s t hst => ?_
  refine .ite (fun _ => .pure _ hst) fun _ => .ite (fun _ => .pure _ hst) fun _ => ?_
  exact (oblivious_ensure 1 s t hst).bind fun _ _ _ hst => .pure _ hst

theorem oblivious_awaitFrame [Externals] : Oblivious awaitFrame :=
  .bind oblivious_pollReadable fun _ => .ite (.bind oblivious_recvFrame fun _ => .pure _) (.pure _)

/-! ### The transport -/

theorem oblivious_sendall (wire : Bytes) : Oblivious (sendall wire) := by
  intro c c' h
  unfold Alike sendall
  rw [h.sock]
  cases hsk : c.sock with
  | none => exact ⟨rfl, h⟩
  | some sk =>
    dsimp only
    cases hpeer : sk.peer sk.sent sk.incoming wire with
    | error detail => exact ⟨rfl, h.closed⟩
    | ok incoming => exact ⟨rfl, h.same, by rw [h.eq]⟩

theorem oblivious_connectSocket : Oblivious connectSocket := by
  intro c c' h
  have hdial : c'.env.dial c'.dials = c.env.dial c.dials := by rw [h.eq]
  have hcfg : c'.cfg = c.cfg := by rw [h.eq]
  unfold Alike connectSocket
  rw [h.sock, hdial, hcfg]
  by_cases hsome : c.sock.isSome = true
  · rw [if_pos hsome, if_pos hsome]
    exact ⟨rfl, h⟩
  · rw [if_neg hsome, if_neg hsome]
    dsimp only
    cases c.env.dial c.dials with
    | opened sk => exact ⟨rfl, h.same.reset, by rw [h.eq]⟩
    | timeout | certificateError | refused | unresolved => exact ⟨rfl, h.same, by rw [h.eq]⟩

theorem oblivious_timeoutScope {α : Type} {message : String} {x y : ClientM α} (hxy : Lockstep Client.Agrees Eq x y) :
    Lockstep Client.Agrees Eq (timeoutScope message x) (timeoutScope message y) := by
  have hleave : Oblivious (modify fun c => { c with inScope := false } : ClientM PUnit) :=
    .modify fun c c' h => ⟨h.same, by rw [h.eq]⟩
  have henter : Oblivious (modify fun c => { c with inScope := c.cfg.timeout.isSome } : ClientM PUnit) :=
    .modify fun c c' h => ⟨h.same, by rw [h.eq]⟩
  refine .get_bind fun c c' h => ?_
  have hcfg : c'.cfg = c.cfg := by rw [h.eq]
  rw [hcfg]
  refine .ite hxy (.bind henter fun _ => .bind (.tryCatch hxy ?_) fun _ => .bind hleave fun _ => .pure _)
  rintro stop _ rfl
  exact .bind hleave fun _ => .ite (.bind oblivious_close fun _ => oblivious_raise _) (.throw rfl)

/-- Leftovers change nothing. -/
theorem mirrors_agrees : Mirrors Client.Agrees Eq where
  raised _ := rfl
  blocked := rfl
  stop := by
    rintro stop _ rfl
    cases stop with
    | raised e => exact .inl ⟨e, e, rfl, rfl, rfl⟩
    | blocked => exact .inr ⟨rfl, rfl⟩
  view h := h.view
  isSome h := by rw [h.sock]
  update {c c' d d'} h hd hd' hview := by
    have hconn : ({ d with rb := d'.rb } : Client).SameConnection d' := by
      refine ⟨?_, ?_, hd'.sock.trans (h.sock.trans hd.sock.symm), rfl, ?_⟩
      · rw [hd'.cfg, h.eq]
        exact hd.cfg.symm
      · rw [hd'.env, h.eq]
        exact hd.env.symm
      · rw [hd'.inScope, h.eq]
        exact hd.inScope.symm
    exact ⟨by rw [hd.rb, hd'.rb]; exact h.same, hconn.eq_of_view hview⟩
  close := oblivious_close
  readLine := oblivious_readLine
  sendall := oblivious_sendall
  connectSocket := oblivious_connectSocket
  timeoutScope := oblivious_timeoutScope

theorem RecvBuf.reset_fresh : RecvBuf.fresh.reset = RecvBuf.fresh := by
  have hsize : ¬ RecvBuf.fresh.buf.size > recvBufSize := Nat.lt_irrefl _
  simp only [RecvBuf.reset, if_neg hsize]
  rfl

/-! ### The calls -/

section calls
variable [Externals]

theorem oblivious_collectStep (again : Bool) (g : Collect) : Oblivious (collectStep again g) := fun _ _ h =>
  mirrors_agrees.collectStep h (fun _ => by rw [h.eq]) (oblivious_awaitFrame _ _ (mirrors_agrees.ticked h))

theorem oblivious_infoLoop : ∀ fuel chunks, Oblivious (infoLoop fuel chunks)
  | 0, _ => .throw rfl
  | fuel + 1, chunks => by
    refine .bind oblivious_recvFrame fun received => ?_
    cases received with
    | endOfStream | reply => exact oblivious_raise _
    | packet frame => exact .ite (.ite (oblivious_infoLoop fuel _) (.pure _)) (oblivious_raise _)

theorem oblivious_info (level : Text) : Oblivious (Client.info level) := by
  refine mirrors_agrees.get_bind (fun _ => rfl) fun _ => .ite (oblivious_raise _) (oblivious_timeoutScope ?_)
  refine .bind (mirrors_agrees.sendCommand _) fun _ => .get_bind fun c c' h => ?_
  have hahead : c'.bytesAhead = c.bytesAhead := by rw [Client.bytesAhead, h.same.available, h.sock]; rfl
  rw [hahead]
  exact oblivious_infoLoop _ _

theorem oblivious_infoDict (level : Text) : Oblivious (infoDict level) :=
  .bind (oblivious_info level) fun _ => mirrors_agrees.get_bind (fun _ => rfl) fun _ =>
    .ite (.bind (oblivious_liftExcept _) fun _ => .pure _) (oblivious_liftExcept _)

/-- The step lemma. -/
theorem oblivious_run (call : Method) : Oblivious call.run := by
  have h := mirrors_agrees
  cases call with
  | connect handshake => exact .bind (h.connect handshake) fun _ => .pure _
  | ping => exact .bind h.ping fun _ => .pure _
  | negotiate => exact .bind h.negotiate fun _ => .pure _
  | info level => exact .bind (oblivious_info level) fun _ => .pure _
  | infoDict level => exact .bind (oblivious_infoDict level) fun _ => .pure _
  | bye => exact .bind h.bye fun _ => .pure _
  | reconnect => exact .bind h.reconnect fun _ => .pure _
  | close => exact .bind oblivious_close fun _ => .pure _
  | collect again g => exact .bind (oblivious_collectStep again g) fun _ => .pure _

/-- What a program gets back from its calls, one after another, and the client it is left with. -/
def runCalls : List Method → Client → List (Except Stop Returned) × Client
  | [], c => ([], c)
  | call :: calls, c =>
    match call.run c with
    | .ok r c' => (.ok r :: (runCalls calls c').1, (runCalls calls c').2)
    | .error stop c' => (.error stop :: (runCalls calls c').1, (runCalls calls c').2)

/-- The run lemma. -/
theorem runCalls_agrees (calls : List Method) : ∀ {c c' : Client}, c.Agrees c' →
    (runCalls calls c').1 = (runCalls calls c).1 ∧ (runCalls calls c).2.Agrees (runCalls calls c').2 := by
  induction calls with
  | nil => exact fun h => ⟨rfl, h⟩
  | cons call calls ih =>
    intro c c' h
    have halike := oblivious_run call c c' h
    cases hrun : call.run c with
    | ok r s =>
      obtain ⟨t, hrun', hst⟩ := halike.of_ok hrun
      obtain ⟨hrest, hend⟩ := ih hst
      simp only [runCalls, hrun, hrun']
      exact ⟨by rw [hrest], hend⟩
    | error stop s =>
      obtain ⟨_, t, hrun', rfl, hst⟩ := halike.of_error hrun
      obtain ⟨hrest, hend⟩ := ih hst
      simp only [runCalls, hrun, hrun']
      exact ⟨by rw [hrest], hend⟩

/-- A client without a connection agrees with one whose buffer has never been used. -/
theorem Client.Reachable.agrees_fresh {c : Client} (h : c.Reachable) (hsk : c.sock = none) :
    c.Agrees { c with rb := .fresh } := by
  obtain ⟨-, -, hrb⟩ := h.rested hsk
  have hsize := (h.buffer hsk).2
  have hstart : c.rb.start = 0 := by rw [hrb]; rfl
  have hstop : c.rb.stop = 0 := by rw [hrb]; rfl
  refine ⟨⟨hstart.symm, hstop.symm, hsize.symm, by rw [hstop]; exact Nat.zero_le _, fun k _ hk => ?_⟩, rfl⟩
  rw [hstop] at hk
  exact absurd hk (Nat.not_lt_zero k)

/-- `reconnect` begins with `close`. -/
theorem run_reconnect_closed (c : Client) : Method.reconnect.run c.closed = Method.reconnect.run c := by
  obtain ⟨rest, hrest⟩ : ∃ rest, reconnect = close >>= rest := ⟨_, rfl⟩
  have hrun : ∀ c, Method.reconnect.run c = (rest ⟨⟩ >>= fun _ => pure Returned.nothing : ClientM Returned) c.closed := by
    intro c
    show (reconnect >>= fun _ => pure Returned.nothing : ClientM Returned) c = _
    rw [hrest]
    rfl
  rw [hrun, hrun, closed_closed]

/-- What is called on a client without a connection, or begins with `reconnect`, does not depend on what the
buffer holds. -/
theorem Client.Reachable.runCalls_fresh {c : Client} (h : c.Reachable) {calls : List Method}
    (hcalls : c.sock = none ∨ calls.head? = some .reconnect) :
    (runCalls calls { c with rb := .fresh }).1 = (runCalls calls c).1 ∧
      (runCalls calls c).2.Agrees (runCalls calls { c with rb := .fresh }).2 := by
  rcases hcalls with hsk | hhead
  · exact runCalls_agrees calls (h.agrees_fresh hsk)
  · cases calls with
    | nil => cases hhead
    | cons call calls =>
      obtain rfl : call = .reconnect := Option.some.inj hhead
      have hclosed : ∀ c, runCalls (.reconnect :: calls) c = runCalls (.reconnect :: calls) c.closed := fun c => by
        simp only [runCalls, run_reconnect_closed]
      have hfresh : ({ c with rb := .fresh } : Client).closed = { c.closed with rb := .fresh } := by
        show ({ c.closed with rb := RecvBuf.fresh.reset } : Client) = _
        rw [RecvBuf.reset_fresh]
      have hreach : c.closed.Reachable := h.call .close
      rw [hclosed c, hclosed { c with rb := .fresh }, hfresh]
      exact runCalls_agrees _ (hreach.agrees_fresh rfl)

/-- Whatever was called and however the calls ended: a client that streams or is in batch mode is connected;
one that is not connected has an empty buffer of the default capacity; and what is called on that one, or
from `reconnect` on, gives and sends what it would with a buffer that no connection has used. -/
theorem connections_apart {c : Client} (h : c.Reachable) :
    (c.streaming = true ∨ c.batchActive = true → c.sock.isSome = true) ∧
      (c.sock = none → c.rb.unread = [] ∧ c.rb.buf.size = recvBufSize) ∧
        ∀ calls : List Method, c.sock = none ∨ calls.head? = some .reconnect →
          (runCalls calls c).1 = (runCalls calls { c with rb := .fresh }).1 ∧
            (runCalls calls c).2.sent = (runCalls calls { c with rb := .fresh }).2.sent := by
  refine ⟨h.connected, h.buffer, fun calls hcalls => ?_⟩
  obtain ⟨hgiven, hend⟩ := h.runCalls_fresh hcalls
  exact ⟨hgiven.symm, by rw [hend.eq]⟩

end calls

/-- A client whose server hangs up in the middle of its first line. -/
def hangingUp : Client :=
  { cfg := {},
    env := ⟨fun _ => .opened { incoming := [.data (Bytes.lit "SeedL"), .data []], peer := fun _ pending _ => .ok pending },
      fun _ => 0, fun _ => true⟩ }

def hungUp : Client := hangingUp.behind (@Method.run Externals.bare (.connect true))

/-- The buffer still has the start of that line in its cells, and the next attempt does not see it. -/
theorem connections_apart_hungUp :
    hungUp.sock = none ∧ hungUp.rb.unread = [] ∧ hungUp.rb.buf.get 0 = 83 ∧
      (@runCalls Externals.bare [.connect true] hungUp).1 =
        (@runCalls Externals.bare [.connect true] { hungUp with rb := .fresh }).1 := by
  have hsk : hungUp.sock = none := Option.isNone_iff_eq_none.1 (by decide +kernel)
  have hreach : @Client.Reachable Externals.bare hungUp :=
    @Client.Reachable.call Externals.bare hangingUp (@Client.Reachable.new Externals.bare hangingUp.cfg hangingUp.env {})
      (.connect true)
  obtain ⟨-, hbuffer, hrun⟩ := @connections_apart Externals.bare hungUp hreach
  exact ⟨hsk, (hbuffer hsk).1, by decide +kernel, (hrun [.connect true] (.inl hsk)).1⟩

end SeedLink
