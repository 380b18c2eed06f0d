import SeedLink.Transport

/-!
# What the reads see

`Feeds c s later`: the bytes `s` are next on the stream, and behind them the events `later`. A read
of at most `s.length` bytes succeeds and leaves `later` alone (`wp_ensure_feeds`); when `later`
starts with an event that stops a read, a longer one ends as `ReadFails` says (`wp_ensure_starved`).
-/

namespace SeedLink

open StateExc

/-! ### Events -/

namespace Recv

/-- A read that meets this event goes on. -/
def Benign (deadline : Bool) : Recv → Prop
  | data chunk => chunk ≠ []
  | timeout => deadline = false
  | oserror _ => False

instance (deadline : Bool) : DecidablePred (Benign deadline) := fun ev => by
  cases ev <;> unfold Benign <;> infer_instance

end Recv

/-- Nothing can be read from these events. -/
def Stalls (deadline : Bool) (later : List Recv) : Prop :=
  ∀ ev ∈ later.head?, ¬ ev.Benign deadline

/-- Every list of events is one that reads go through followed by one that stalls. -/
theorem exists_benign_stalls (deadline : Bool) (evs : List Recv) :
    ∃ now later, evs = now ++ later ∧ (∀ ev ∈ now, ev.Benign deadline) ∧ Stalls deadline later := by
  induction evs with
  | nil => exact ⟨[], [], rfl, by simp, by simp [Stalls]⟩
  | cons ev evs ih =>
    by_cases h : ev.Benign deadline
    · obtain ⟨now, later, rfl, hnow, hlater⟩ := ih
      exact ⟨ev :: now, later, rfl, by simpa [h] using hnow, hlater⟩
    · exact ⟨[], ev :: evs, rfl, by simp, by simpa [Stalls] using h⟩

/-! ### The fill loop -/

namespace FillEnd

/-- How a fill ends at a stalled list of events. -/
def of : List Recv → FillEnd
  | [] => .blocked
  | .timeout :: _ => .timeout
  | .oserror detail :: _ => .oserror detail
  | .data _ :: _ => .eof

end FillEnd

section fill
variable {deadline : Bool} {n : Nat} (later : List Recv)

theorem fillLoop_enough {rb : RecvBuf} (h : n ≤ rb.available) :
    fillLoop deadline n later rb = (.filled, rb, later) := by
  cases later <;> simp [fillLoop, h]

theorem RecvBuf.WF.available_fill {rb : RecvBuf} {data : Bytes} (h : rb.WF)
    (hd : data.length ≤ rb.room) : (rb.fill data).available = rb.available + data.length := by
  rw [← (h.fill hd).length_unread, h.unread_fill hd, List.length_append, h.length_unread]

/-- The loop stops as soon as it has enough, whatever the events behind are. -/
theorem fillLoop_filled : ∀ (now : List Recv) (rb : RecvBuf), rb.WF → rb.start + n ≤ rb.buf.size →
    (∀ ev ∈ now, ev.Benign deadline) → n ≤ (rb.unread ++ delivered now).length →
    ∃ rb' now', fillLoop deadline n (now ++ later) rb = (.filled, rb', now' ++ later) ∧ rb'.WF ∧
      (∀ ev ∈ now', ev.Benign deadline) ∧
      rb'.unread ++ delivered now' = rb.unread ++ delivered now ∧ n ≤ rb'.available
  | [], rb, hwf, _, _, hn => by
    simp only [delivered_nil, List.append_nil, hwf.length_unread] at hn
    exact ⟨rb, [], by rw [List.nil_append, fillLoop_enough _ hn], hwf, by simp, rfl, hn⟩
  | ev :: now, rb, hwf, hfit, hnow, hn => by
    by_cases henough : n ≤ rb.available
    · exact ⟨rb, ev :: now, fillLoop_enough _ henough, hwf, hnow, rfl, henough⟩
    have hnow' : ∀ ev ∈ now, ev.Benign deadline := fun e he => hnow e (List.mem_cons_of_mem _ he)
    have hev := hnow ev List.mem_cons_self
    cases ev with
    | oserror detail => exact hev.elim
    | timeout =>
      obtain ⟨rb', now', heq, hrest⟩ := fillLoop_filled now rb hwf hfit hnow' (by simpa using hn)
      refine ⟨rb', now', ?_, hrest⟩
      have hd : deadline = false := hev
      simpa [fillLoop, henough, hd] using heq
    | data chunk =>
      have hchunk : chunk ≠ [] := hev
      have h1 := hwf.start_le
      have h2 := hwf.stop_le
      have hroom : rb.room ≠ 0 := by unfold RecvBuf.room; unfold RecvBuf.available at henough; omega
      by_cases hlen : chunk.length ≤ rb.room
      · have hu := hwf.unread_fill hlen
        obtain ⟨rb', now', heq, hwf', hben, hcons, hav⟩ :=
          fillLoop_filled now (rb.fill chunk) (hwf.fill hlen) hfit hnow' (by
            rw [hu]; simpa [Nat.add_assoc] using hn)
        refine ⟨rb', now', ?_, hwf', hben, ?_, hav⟩
        · simpa [fillLoop, henough, hchunk, hroom, hlen] using heq
        · rw [hcons, hu]; simp
      · have hle : (chunk.take rb.room).length ≤ rb.room := List.length_take_le _ _
        have hav : n ≤ (rb.fill (chunk.take rb.room)).available := by
          rw [hwf.available_fill hle, List.length_take]
          unfold RecvBuf.room RecvBuf.available at *
          omega
        refine ⟨rb.fill (chunk.take rb.room), .data (chunk.drop rb.room) :: now, ?_, hwf.fill hle, ?_,
          ?_, hav⟩
        · simp [fillLoop, henough, hchunk, hroom, hlen, hav]
        · rintro ev (_ | ⟨_, hmem⟩)
          · show chunk.drop rb.room ≠ []
            simpa using hlen
          · exact hnow' ev hmem
        · rw [hwf.unread_fill hle, delivered_cons, delivered_cons, Recv.bytes_data, Recv.bytes_data,
            ← List.append_assoc, List.append_assoc rb.unread, List.take_append_drop,
            List.append_assoc]

/-- Where the bytes do not suffice, the loop takes them all and ends at the event behind. -/
theorem fillLoop_stalled {later : List Recv} (hstall : Stalls deadline later) : ∀ (now : List Recv) (rb : RecvBuf),
    rb.WF → rb.start + n ≤ rb.buf.size → (∀ ev ∈ now, ev.Benign deadline) →
    (rb.unread ++ delivered now).length < n →
    ∃ rb', fillLoop deadline n (now ++ later) rb = (FillEnd.of later, rb', later.tail) ∧ rb'.WF ∧
      rb'.unread = rb.unread ++ delivered now
  | [], rb, hwf, _, _, hn => by
    have hn' : ¬ n ≤ rb.available := by
      simpa [hwf.length_unread] using hn
    refine ⟨rb, ?_, hwf, by simp⟩
    cases later with
    | nil => simp [fillLoop, hn', FillEnd.of]
    | cons ev later =>
      have hev := hstall ev rfl
      cases ev with
      | data chunk =>
        have hchunk : chunk = [] := by simpa [Recv.Benign] using hev
        simp [fillLoop, hn', FillEnd.of, hchunk]
      | timeout =>
        have hd : deadline = true := by simpa [Recv.Benign] using hev
        simp [fillLoop, hn', FillEnd.of, hd]
      | oserror detail => simp [fillLoop, hn', FillEnd.of]
  | ev :: now, rb, hwf, hfit, hnow, hn => by
    have hav : ¬ n ≤ rb.available := by
      rw [← hwf.length_unread]; simp only [List.length_append] at hn; omega
    have hnow' : ∀ ev ∈ now, ev.Benign deadline := fun e he => hnow e (List.mem_cons_of_mem _ he)
    have hev := hnow ev List.mem_cons_self
    cases ev with
    | oserror detail => exact hev.elim
    | timeout =>
      obtain ⟨rb', heq, hwf', hu⟩ :=
        fillLoop_stalled hstall now rb hwf hfit hnow' (by simpa using hn)
      refine ⟨rb', ?_, hwf', by simpa using hu⟩
      have hd : deadline = false := hev
      simpa [fillLoop, hav, hd] using heq
    | data chunk =>
      have hchunk : chunk ≠ [] := hev
      have h1 := hwf.start_le
      have h2 := hwf.stop_le
      have hlen : chunk.length < rb.room := by
        simp only [delivered_cons, Recv.bytes_data, List.length_append, hwf.length_unread] at hn
        unfold RecvBuf.room RecvBuf.available at *
        omega
      have hle : chunk.length ≤ rb.room := Nat.le_of_lt hlen
      have hu := hwf.unread_fill hle
      obtain ⟨rb', heq, hwf', hu'⟩ :=
        fillLoop_stalled hstall now (rb.fill chunk) (hwf.fill hle) hfit hnow' (by
          rw [hu]; simpa [Nat.add_assoc] using hn)
      have hroom : rb.room ≠ 0 := by omega
      refine ⟨rb', ?_, hwf', by rw [hu', hu]; simp⟩
      simpa [fillLoop, hav, hchunk, hroom, hle] using heq

end fill

/-! ### Clients -/

namespace Client

/-- The client without its buffer and the events to come: what reading leaves as it is. -/
def core (c : Client) : Client :=
  { c with rb := RecvBuf.fresh, sock := c.sock.map fun sk => { sk with incoming := [] } }

/-- A connected client's buffer contents and the events to come. -/
structure At (c : Client) (u : Bytes) (evs : List Recv) : Prop where
  wf : c.rb.WF
  unread : c.rb.unread = u
  conn : ∃ sk, c.sock = some sk ∧ sk.incoming = evs

/-- The bytes `s` are next on the stream, and behind them the events `later`. -/
def Feeds (c : Client) (s : Bytes) (later : List Recv) : Prop :=
  ∃ u now, c.At u (now ++ later) ∧ (∀ ev ∈ now, ev.Benign c.deadline) ∧ u ++ delivered now = s

/-- How a read ends that the bytes `s` do not suffice for, `later` being stalled. -/
inductive ReadFails (c : Client) (s : Bytes) (later : List Recv) : Stop → Client → Prop
  | closed {e : Exn} {c' : Client} (he : e.isSeedLinkError = true)
      (hs : s ≠ [] ∨ later.head? ≠ some .timeout) (hc : c'.core = c.closed.core)
      (hwf : c'.rb.WF) : ReadFails c s later (.raised e) c'
  | timedOut {n : Nat} {rest : List Recv} {c' : Client} (hk : c.cfg.transport = .socket)
      (hs : s = []) (hlater : later = .timeout :: rest) (hat : c'.At [] rest)
      (hc : c'.core = c.core) :
      ReadFails c s later (.raised (.seedLinkTimeout s!"Timed out waiting for {n} bytes")) c'
  | cancelled {rest : List Recv} {c' : Client} (hk : c.cfg.transport = .asyncio)
      (hscope : c.inScope = true) (hlater : later = .timeout :: rest) (hat : c'.At s rest)
      (hc : c'.core = c.core) : ReadFails c s later (.raised .cancelledError) c'
  | blocked {c' : Client} (hlater : later = []) (hat : c'.At s []) (hc : c'.core = c.core) :
      ReadFails c s later .blocked c'

variable {c c' : Client} {s u : Bytes} {later evs : List Recv} {n : Nat}

theorem core_rb (c : Client) (rb : RecvBuf) : ({ c with rb } : Client).core = c.core := rfl

theorem core_incoming {sk : Sock} (h : c.sock = some sk) (rb : RecvBuf) (incoming : List Recv) :
    ({ c with rb, sock := some { sk with incoming } } : Client).core = c.core := by
  simp [core, h]

section core
variable (h : c'.core = c.core)
include h

theorem deadline_of_core : c'.deadline = c.deadline := (congrArg Client.deadline h :)

theorem cfg_of_core : c'.cfg = c.cfg := (congrArg Client.cfg h :)

theorem protocol_of_core : c'.protocol = c.protocol := (congrArg Client.protocol h :)

theorem streaming_of_core : c'.streaming = c.streaming := (congrArg Client.streaming h :)

theorem inScope_of_core : c'.inScope = c.inScope := (congrArg Client.inScope h :)

end core

theorem isSome_of_core (h : c'.core = c.core) : c'.sock.isSome = c.sock.isSome := by
  have := congrArg (fun c : Client => c.sock.isSome) h
  simpa [core] using this

@[simp] theorem closed_sock (c : Client) : c.closed.sock = none := rfl

@[simp] theorem closed_closed (c : Client) : c.closed.closed = c.closed := by
  have hreset : c.rb.reset.reset = c.rb.reset := by
    by_cases h : c.rb.buf.size > recvBufSize
    · simp [RecvBuf.reset, h]
    · simp [RecvBuf.reset, h]
  unfold closed
  rw [hreset]

theorem closed_core_of_core (h : c'.core = c.core) : c'.closed.core = c.closed.core := by
  have h' := congrArg (fun c : Client => c.closed.core) h
  exact h'

theorem sock_eq_none_of_closed (h : c'.core = c.closed.core) : c'.sock = none := by
  have := congrArg (fun c : Client => c.sock) h
  simpa [core] using this

/-- All the bytes on the stream, those behind a failure included. -/
def stream (c : Client) : Bytes :=
  c.rb.unread ++ (c.sock.map fun sk => delivered sk.incoming).getD []

theorem At.stream (h : c.At u evs) : c.stream = u ++ delivered evs := by
  obtain ⟨sk, hsk, hin⟩ := h.conn
  rw [Client.stream, hsk, h.unread, Option.map_some, Option.getD_some, hin]

namespace Feeds

theorem stream (h : c.Feeds s later) : c.stream = s ++ delivered later := by
  obtain ⟨u, now, hat, -, rfl⟩ := h
  rw [hat.stream, delivered_append, List.append_assoc]

theorem wf (h : c.Feeds s later) : c.rb.WF := h.choose_spec.choose_spec.1.wf

theorem isSome (h : c.Feeds s later) : c.sock.isSome = true := by
  obtain ⟨u, now, hat, -, -⟩ := h
  obtain ⟨sk, hsk, -⟩ := hat.conn
  simp [hsk]

/-- The buffer holds the first bytes of the stream. -/
theorem unread_prefix (h : c.Feeds s later) : c.rb.unread <+: s := by
  obtain ⟨u, now, hat, -, rfl⟩ := h
  exact ⟨delivered now, by rw [hat.unread]⟩

theorem available_le (h : c.Feeds s later) : c.rb.available ≤ s.length := by
  rw [← h.wf.length_unread]
  exact h.unread_prefix.length_le

/-- Every connected client feeds something. -/
theorem exists_of_at (h : c.At u evs) :
    ∃ s later, c.Feeds s later ∧ Stalls c.deadline later ∧ u <+: s := by
  obtain ⟨now, later, rfl, hnow, hlater⟩ := exists_benign_stalls c.deadline evs
  exact ⟨u ++ delivered now, later, ⟨u, now, h, hnow, rfl⟩, hlater, List.prefix_append _ _⟩

theorem slice (h : c.Feeds s later) {i k : Nat} (hik : i + k ≤ c.rb.available) :
    c.rb.buf.slice (c.rb.start + i) (c.rb.start + i + k) = (s.drop i).take k := by
  obtain ⟨t, ht⟩ := h.unread_prefix
  have hlen := h.wf.length_unread
  rw [h.wf.slice_unread_sub hik, ← ht, List.drop_append_of_le_length (by omega),
    List.take_append_of_le_length (by rw [List.length_drop]; omega)]

theorem advance (h : c.Feeds s later) (hn : n ≤ c.rb.available) :
    ({ c with rb := c.rb.advance n } : Client).Feeds (s.drop n) later := by
  obtain ⟨u, now, hat, hnow, rfl⟩ := h
  have hlen : u.length = c.rb.available := by rw [← hat.unread, hat.wf.length_unread]
  refine ⟨u.drop n, now, ⟨hat.wf.advance hn, ?_, hat.conn⟩, hnow, ?_⟩
  · rw [← hat.unread]; exact hat.wf.unread_advance
  · rw [List.drop_append_of_le_length (by omega)]

end Feeds

end Client

open Client

/-! ### Exceptions -/

section exceptions
variable {α : Type} {Q : α → Client → Prop} {E : Stop → Client → Prop} {c : Client}

@[simp] theorem wp_raise (e : Exn) : wp (raise e : ClientM α) Q E c = E (.raised e) c := rfl

@[simp] theorem wp_liftExcept (x : Except Exn α) :
    wp (liftExcept x) Q E c =
      match x with
      | .ok a => Q a c
      | .error e => E (.raised e) c := by
  cases x <;> rfl

@[simp] theorem wp_close {Q : Unit → Client → Prop} : wp close Q E c = Q ⟨⟩ c.closed := rfl

@[simp] theorem wp_tryExcept (x : ClientM α) (caught : Exn → Bool) (handler : Exn → ClientM α) :
    wp (tryExcept x caught handler) Q E c =
      wp x Q (fun stop c' =>
        match stop with
        | .raised e => if caught e then wp (handler e) Q E c' else E (.raised e) c'
        | .blocked => E .blocked c') c := by
  unfold tryExcept
  rw [wp_tryCatch]
  congr 1
  funext stop c'
  cases stop with
  | raised e => simp only [wp_ite, wp_throw]
  | blocked => rfl

/-- What the handler does not catch goes on. -/
theorem wp_tryExcept_of {x : ClientM α} {caught : Exn → Bool} {handler : Exn → ClientM α} {F : Stop → Client → Prop}
    (hx : wp x Q F c) (hcaught : ∀ e c', F (.raised e) c' → caught e = true → wp (handler e) Q E c')
    (hpass : ∀ stop c', F stop c' → (∀ e, stop = .raised e → caught e = false) → E stop c') :
    wp (tryExcept x caught handler) Q E c := by
  rw [wp_tryExcept]
  refine wp_mono hx (fun _ _ h => h) fun stop c' h => ?_
  cases stop with
  | blocked => exact hpass _ _ h (by rintro e ⟨⟩)
  | raised e =>
    by_cases he : caught e = true
    · simpa only [he, if_true] using hcaught e c' h he
    · simp only [he]
      refine hpass _ _ h ?_
      rintro e' ⟨⟩
      exact Bool.eq_false_iff.2 he

end exceptions

/-! ### Reads -/

section reads
variable {c : Client} {s : Bytes} {later : List Recv} {n : Nat} {E : Stop → Client → Prop}

theorem ensure_of_not_connected (h : c.sock = none) :
    ensure n c = .error (.raised (seedLinkError "Not connected")) c := by
  simp [ensure, h]

theorem wp_ensure_feeds {Q : Unit → Client → Prop} (h : c.Feeds s later) (hn : n ≤ s.length)
    (hQ : ∀ c', c'.Feeds s later → c'.core = c.core → n ≤ c'.rb.available → Q ⟨⟩ c') :
    wp (ensure n) Q E c := by
  obtain ⟨u, now, hat, hnow, rfl⟩ := h
  obtain ⟨sk, hsk, hin⟩ := hat.conn
  by_cases hav : n ≤ c.rb.available
  · have hens : ensure n c = .ok ⟨⟩ c := by
      simp only [ensure, hsk, RecvBuf.prepareRoom_true hav]
      rw [← hsk]
    exact (wp_iff_of_ok hens).2 (hQ c ⟨u, now, hat, hnow, rfl⟩ rfl hav)
  · obtain ⟨rb, hprep, hroomy⟩ := RecvBuf.prepareRoom_false hat.wf (by omega : c.rb.available < n)
    have hu : rb.unread = u := by rw [hroomy.unread, hat.unread]
    obtain ⟨rb', now', heq, hwf', hnow', hcons, hav'⟩ :=
      fillLoop_filled later now rb hroomy.wf hroomy.fits hnow (by rw [hu]; exact hn)
    have hens : ensure n c =
        .ok ⟨⟩ { c with rb := rb', sock := some { sk with incoming := now' ++ later } } := by
      simp [ensure, hsk, hprep, hin, heq]
    refine (wp_iff_of_ok hens).2 (hQ _ ⟨rb'.unread, now', ⟨hwf', rfl, _, rfl, rfl⟩, hnow', ?_⟩
      (core_incoming hsk _ _) hav')
    rw [hcons, hu]

theorem wp_ensure_starved {Q : Unit → Client → Prop} (h : c.Feeds s later)
    (hstall : Stalls c.deadline later) (hn : s.length < n)
    (hE : ∀ stop c', ReadFails c s later stop c' → E stop c') : wp (ensure n) Q E c := by
  obtain ⟨u, now, hat, hnow, rfl⟩ := h
  obtain ⟨sk, hsk, hin⟩ := hat.conn
  have hav : c.rb.available < n := by
    rw [← hat.wf.length_unread, hat.unread]; simp only [List.length_append] at hn; omega
  obtain ⟨rb, hprep, hroomy⟩ := RecvBuf.prepareRoom_false hat.wf hav
  have hu : rb.unread = u := by rw [hroomy.unread, hat.unread]
  obtain ⟨rb', heq, hwf', hu'⟩ :=
    fillLoop_stalled hstall now rb hroomy.wf hroomy.fits hnow (by rw [hu]; exact hn)
  rw [hu] at hu'
  set c₁ : Client := { c with rb := rb', sock := some { sk with incoming := later.tail } } with hc₁
  have hcore : c₁.core = c.core := core_incoming hsk _ _
  have hat' : c₁.At (u ++ delivered now) later.tail := ⟨hwf', hu', _, rfl, rfl⟩
  have hclosed : c₁.closed.core = c.closed.core := closed_core_of_core hcore
  cases later with
  | nil =>
    have hens : ensure n c = .error .blocked c₁ := by
      simp only [ensure, hsk, hprep, hin, heq, hc₁, FillEnd.of]
    exact (wp_iff_of_error hens).2 (hE _ _ (.blocked rfl hat' hcore))
  | cons ev rest =>
    cases ev with
    | oserror detail =>
      have hens : ensure n c = .error (.raised (seedLinkError s!"recv failed: {detail}")) c₁.closed := by
        simp only [ensure, hsk, hprep, hin, heq, hc₁, FillEnd.of]
      exact (wp_iff_of_error hens).2 (hE _ _ (.closed rfl (.inr (by simp)) hclosed hwf'.reset))
    | data chunk =>
      have hens : ensure n c = .error (.raised (seedLinkError "Connection closed")) c₁.closed := by
        simp only [ensure, hsk, hprep, hin, heq, hc₁, FillEnd.of]
      exact (wp_iff_of_error hens).2 (hE _ _ (.closed rfl (.inr (by simp)) hclosed hwf'.reset))
    | timeout =>
      have hdl : c.deadline = true := by
        have := hstall .timeout rfl
        simpa [Recv.Benign] using this
      have hens' : ensure n c = onTimeout n c₁ := by
        simp only [ensure, hsk, hprep, hin, heq, hc₁, FillEnd.of]
      unfold onTimeout at hens'
      split at hens'
      · rename_i hk
        have hscope : c.inScope = true := by
          simpa [Client.deadline, show c.cfg.transport = .asyncio from hk] using hdl
        exact (wp_iff_of_error hens').2 (hE _ _ (.cancelled hk hscope rfl hat' hcore))
      · rename_i hk
        have hk' : c.cfg.transport = .socket := by
          cases h : c.cfg.transport with
          | socket => rfl
          | asyncio => exact absurd h hk
        split at hens'
        · rename_i hpos
          have hs : u ++ delivered now ≠ [] := by
            rw [← hu', ← List.length_pos_iff, hwf'.length_unread]
            exact hpos
          exact (wp_iff_of_error hens').2 (hE _ _ (.closed rfl (.inl hs) hclosed hwf'.reset))
        · rename_i hzero
          have hs : u ++ delivered now = [] := by
            rw [← hu', ← List.length_eq_zero_iff, hwf'.length_unread]
            exact Nat.eq_zero_of_not_pos hzero
          exact (wp_iff_of_error hens').2
            (hE _ _ (.timedOut hk' hs rfl (hs ▸ hat') hcore))

/-- A read either has its bytes or fails. -/
theorem wp_ensure {Q : Unit → Client → Prop} (h : c.Feeds s later)
    (hstall : Stalls c.deadline later)
    (hQ : ∀ c', c'.Feeds s later → c'.core = c.core → n ≤ c'.rb.available → Q ⟨⟩ c')
    (hE : ∀ stop c', ReadFails c s later stop c' → s.length < n → E stop c') :
    wp (ensure n) Q E c := by
  by_cases hn : n ≤ s.length
  · exact wp_ensure_feeds h hn hQ
  · exact wp_ensure_starved h hstall (by omega) fun stop c' hf => hE stop c' hf (by omega)

theorem wp_buffered {Q : Bytes → Client → Prop} (h : c.Feeds s later) (hn : n ≤ c.rb.available)
    (hQ : Q (s.take n) c) : wp (buffered 0 n) Q E c := by
  have hslice := h.slice (i := 0) (k := n) (by omega)
  rw [List.drop_zero] at hslice
  simp only [buffered, wp_bind, wp_get, wp_pure]
  show Q (c.rb.buf.slice (c.rb.start + 0) (c.rb.start + 0 + n)) c
  rwa [hslice]

theorem wp_peek_feeds {Q : Bytes → Client → Prop} (h : c.Feeds s later) (hn : n ≤ s.length)
    (hQ : ∀ c', c'.Feeds s later → c'.core = c.core → n ≤ c'.rb.available → Q (s.take n) c') :
    wp (peek n) Q E c := by
  rw [peek, wp_bind]
  exact wp_ensure_feeds h hn fun c' hf hc hav => wp_buffered hf hav (hQ c' hf hc hav)

theorem wp_peek {Q : Bytes → Client → Prop} (h : c.Feeds s later)
    (hstall : Stalls c.deadline later)
    (hQ : ∀ c', c'.Feeds s later → c'.core = c.core → n ≤ c'.rb.available → Q (s.take n) c')
    (hE : ∀ stop c', ReadFails c s later stop c' → s.length < n → E stop c') :
    wp (peek n) Q E c := by
  rw [peek, wp_bind]
  exact wp_ensure h hstall (fun c' hf hc hav => wp_buffered hf hav (hQ c' hf hc hav)) hE

theorem wp_consume {Q : Unit → Client → Prop} (h : c.Feeds s later) (hn : n ≤ c.rb.available)
    (hQ : ∀ c', c'.Feeds (s.drop n) later → c'.core = c.core → Q ⟨⟩ c') :
    wp (consume n) Q E c := by
  rw [consume, wp_modify]
  exact hQ _ (h.advance hn) (core_rb _ _)

theorem wp_take_feeds {Q : Bytes → Client → Prop} (h : c.Feeds s later) (hn : n ≤ s.length)
    (hQ : ∀ c', c'.Feeds (s.drop n) later → c'.core = c.core → Q (s.take n) c') :
    wp (take n) Q E c := by
  simp only [take, wp_bind, wp_pure]
  exact wp_ensure_feeds h hn fun c₁ h₁ hc₁ hav => wp_buffered h₁ hav <|
    wp_consume h₁ hav fun c₂ h₂ hc₂ => hQ c₂ h₂ (hc₂.trans hc₁)

theorem wp_take {Q : Bytes → Client → Prop} (h : c.Feeds s later)
    (hstall : Stalls c.deadline later)
    (hQ : n ≤ s.length → ∀ c', c'.Feeds (s.drop n) later → c'.core = c.core → Q (s.take n) c')
    (hE : ∀ stop c', ReadFails c s later stop c' → s.length < n → E stop c') :
    wp (take n) Q E c := by
  by_cases hn : n ≤ s.length
  · exact wp_take_feeds h hn (hQ hn)
  · simp only [take, wp_bind, wp_pure]
    exact wp_ensure_starved h hstall (by omega) fun stop c' hf => hE stop c' hf (by omega)

/-! ### Lines -/

/-- What `scanLine` makes of the stream: it sees the buffered bytes `u`, of which those before
`searchFrom` start no terminator. -/
theorem scanLine_eq {rb : RecvBuf} {searchFrom : Nat} (hwf : rb.WF) (hfrom : searchFrom ≤ rb.available)
    (hseen : ∀ j < searchFrom, ¬ crlf <+: rb.unread.drop j) :
    scanLine rb.buf rb.start rb.stop searchFrom =
      match Text.findSub crlf rb.unread with
      | none =>
        if rb.available ≥ maxLineLen then
          .error (seedLinkError s!"Reply line exceeds {maxLineLen} bytes with no terminator")
        else .ok none
      | some i =>
        match Bytes.decodeAscii (rb.unread.take i) with
        | some line => .ok (some (line, rb.start + i + 2))
        | none => .error (seedLinkError s!"Reply is not ASCII: {reprBytes (rb.unread.take i)}") := by
  have hlen := hwf.length_unread
  have hfind : rb.buf.find crlf (rb.start + searchFrom) rb.stop =
      (Text.findSub crlf rb.unread).map (· + rb.start) := by
    rw [Text.findSub_drop (by omega : searchFrom ≤ rb.unread.length) hseen, Bytearray.find,
      RecvBuf.unread, Bytearray.slice_drop hwf.stop_le, Option.map_map]
    congr 1
    funext k
    simp only [Function.comp]
    omega
  unfold scanLine
  rw [hfind]
  cases hf : Text.findSub crlf rb.unread with
  | none => rfl
  | some i =>
    have hi := (Text.findSub_eq_some.1 hf).1
    have hslice : rb.buf.slice rb.start (i + rb.start) = rb.unread.take i := by
      rw [Nat.add_comm]; exact hwf.slice_unread (by omega)
    have hend : rb.start + i = i + rb.start := Nat.add_comm _ _
    cases hline : Bytes.decodeAscii (rb.unread.take i) <;> simp [hslice, hline, hend]

/-- A line that is found ends inside the contents. -/
theorem scanLine_found {buf : Bytearray} {start stop searchFrom newStart : Nat} {line : Text} (hstop : stop ≤ buf.size)
    (h : scanLine buf start stop searchFrom = .ok (some (line, newStart))) : start ≤ newStart ∧ newStart ≤ stop := by
  unfold scanLine at h
  cases hfind : buf.find crlf (start + searchFrom) stop with
  | none =>
    simp only [hfind] at h
    split_ifs at h
    cases h
  | some idx =>
    simp only [hfind] at h
    obtain ⟨i, hi, rfl⟩ := Option.map_eq_some_iff.1 hfind
    have hlen := (Text.findSub_eq_some.1 hi).2.1.length_le
    have hcrlf : crlf.length = 2 := rfl
    rw [List.length_drop, Bytearray.length_slice hstop] at hlen
    cases hline : Bytes.decodeAscii (buf.slice start (i + (start + searchFrom))) with
    | none =>
      rw [hline] at h
      cases h
    | some decoded =>
      rw [hline] at h
      cases h
      omega

theorem Client.ReadFails.of_core {c₁ : Client} {stop : Stop} {c' : Client} (hc : c₁.core = c.core)
    (h : ReadFails c₁ s later stop c') : ReadFails c s later stop c' := by
  have hk : c₁.cfg.transport = c.cfg.transport := by rw [cfg_of_core hc]
  have hs : c₁.inScope = c.inScope := inScope_of_core hc
  cases h with
  | closed he hs h hwf => exact .closed he hs (h.trans (closed_core_of_core hc)) hwf
  | timedOut h1 h2 h3 h4 h5 => exact .timedOut (hk ▸ h1) h2 h3 h4 (h5.trans hc)
  | cancelled h1 h2 h3 h4 h5 => exact .cancelled (hk ▸ h1) (hs ▸ h2) h3 h4 (h5.trans hc)
  | blocked h1 h2 h3 => exact .blocked h1 h2 (h3.trans hc)

/-- The line loop on a stream `s`, none of whose terminators starts before `searchFrom`. Either the
line is short and its bytes are there, or what stops the reads is to be told. -/
theorem wp_readLineLoop {Q : Text → Client → Prop}
    (hend : (∃ i, Text.findSub crlf s = some i ∧ i + 2 ≤ maxLineLen ∧
        (Bytes.decodeAscii (s.take i)).isSome = true) ∨
      (Stalls c.deadline later ∧ ∀ stop c', ReadFails c s later stop c' → E stop c'))
    (hQ : ∀ i line c', Text.findSub crlf s = some i → Bytes.decodeAscii (s.take i) = some line →
      c'.Feeds (s.drop (i + 2)) later → c'.core = c.core → Q line c') :
    ∀ (fuel searchFrom : Nat) (c₁ : Client), c₁.Feeds s later → c₁.core = c.core →
      searchFrom ≤ c₁.rb.available → (∀ j < searchFrom, ¬ crlf <+: s.drop j) →
      maxLineLen + 1 ≤ fuel + min c₁.rb.available maxLineLen →
      wp (readLineLoop fuel searchFrom) Q E c₁
  | 0, _, c₁, _, _, _, _, hfuel => by omega
  | fuel + 1, searchFrom, c₁, h₁, hc₁, hfrom, hseen, hfuel => by
    obtain ⟨t, ht⟩ := h₁.unread_prefix
    have hlen := h₁.wf.length_unread
    -- a terminator that starts early enough to be buffered is seen in the buffer
    have hbuf : ∀ j, j + 2 ≤ c₁.rb.available →
        (crlf <+: s.drop j ↔ crlf <+: c₁.rb.unread.drop j) := by
      intro j hj
      rw [← ht, List.drop_append_of_le_length (by omega)]
      exact List.isPrefix_append_of_length (by
        rw [List.length_drop]; show 2 ≤ _; omega)
    have hsub : ∀ j, crlf <+: c₁.rb.unread.drop j → crlf <+: s.drop j := fun j hp =>
      hp.trans (h₁.unread_prefix.drop j)
    simp only [readLineLoop, wp_bind, wp_get]
    rw [scanLine_eq h₁.wf hfrom fun j hj hp => hseen j hj (hsub j hp)]
    cases hf : Text.findSub crlf c₁.rb.unread with
    | none =>
      have hnone := Text.findSub_eq_none.1 hf
      -- the terminator of a short line lies behind the buffered bytes
      have hbehind : ∀ i, Text.findSub crlf s = some i → c₁.rb.available < i + 2 := by
        intro i hi
        by_contra hge
        exact hnone i ((hbuf i (by omega)).1 (Text.findSub_eq_some.1 hi).2.1)
      by_cases hlong : c₁.rb.available ≥ maxLineLen
      · simp only [hlong, if_true, wp_bind, wp_close, wp_raise]
        rcases hend with ⟨i, hi, hshort, -⟩ | ⟨-, hE⟩
        · have := hbehind i hi
          omega
        · have hs : s ≠ [] := fun h0 => by
            have hle := h₁.available_le
            have hpos : 0 < maxLineLen := by decide
            rw [h0, List.length_nil] at hle
            omega
          exact hE _ _ (.closed rfl (.inl hs) (closed_core_of_core hc₁) h₁.wf.reset)
      · have hnext : ∀ c₂ : Client, c₂.Feeds s later → c₂.core = c₁.core →
            c₁.rb.available + 1 ≤ c₂.rb.available →
            wp (readLineLoop fuel (c₁.rb.available - 1)) Q E c₂ := by
          intro c₂ h₂ hc₂ hav
          refine wp_readLineLoop hend hQ fuel _ c₂ h₂ (hc₂.trans hc₁) (by omega) ?_ (by omega)
          exact fun j hj hp => hnone j ((hbuf j (by omega)).1 hp)
        simp only [hlong, if_false, wp_bind]
        rcases hend with ⟨i, hi, hshort, -⟩ | ⟨hstall, hE⟩
        · have hle : i + 2 ≤ s.length := by
            have hp := (Text.findSub_eq_some.1 hi).2.1.length_le
            rw [List.length_drop] at hp
            have h2 : crlf.length = 2 := rfl
            omega
          have := hbehind i hi
          exact wp_ensure_feeds h₁ (by omega) hnext
        · exact wp_ensure h₁ (deadline_of_core hc₁ ▸ hstall) hnext fun stop c' hf' _ =>
            hE stop c' (hf'.of_core hc₁)
    | some i =>
      have hi := Text.findSub_eq_some.1 hf
      have hi2 : i + 2 ≤ c₁.rb.available := by
        have hp := hi.2.1.length_le
        rw [List.length_drop] at hp
        have h2 : crlf.length = 2 := rfl
        omega
      have htake : c₁.rb.unread.take i = s.take i := by
        rw [← ht, List.take_append_of_le_length (by omega)]
      have hs : Text.findSub crlf s = some i :=
        Text.findSub_eq_some.2 ⟨hi.1.trans h₁.unread_prefix.length_le, hsub i hi.2.1,
          fun j hj hp => hi.2.2 j hj ((hbuf j (by omega)).1 hp)⟩
      simp only [htake]
      cases hdec : Bytes.decodeAscii (s.take i) with
      | some line =>
        simp only [wp_bind, wp_modify, wp_pure]
        exact hQ i line _ hs hdec (h₁.advance hi2) ((core_rb _ _).trans hc₁)
      | none =>
        simp only [wp_bind, wp_close, wp_raise]
        rcases hend with ⟨i', hi', -, hasc⟩ | ⟨-, hE⟩
        · obtain rfl : i = i' := Option.some.inj (hs.symm.trans hi')
          rw [hdec] at hasc
          exact absurd hasc (by simp)
        · have hs : s ≠ [] := fun h0 => by
            have hle := h₁.available_le
            rw [h0, List.length_nil] at hle
            omega
          exact hE _ _ (.closed rfl (.inl hs) (closed_core_of_core hc₁) h₁.wf.reset)

/-- A short ASCII line whose bytes are there is read, whatever comes behind it. -/
theorem wp_readLine_feeds {Q : Text → Client → Prop} {i : Nat} {line : Text} (h : c.Feeds s later)
    (hi : Text.findSub crlf s = some i) (hshort : i + 2 ≤ maxLineLen)
    (hline : Bytes.decodeAscii (s.take i) = some line)
    (hQ : ∀ c', c'.Feeds (s.drop (i + 2)) later → c'.core = c.core → Q line c') :
    wp readLine Q E c := by
  refine wp_readLineLoop (.inl ⟨i, hi, hshort, by rw [hline]; rfl⟩) ?_ _ 0 c h rfl (Nat.zero_le _)
    (fun j hj => by omega) (by omega)
  intro i' line' c' hi' hline' h' hc'
  obtain rfl : i = i' := Option.some.inj (hi.symm.trans hi')
  obtain rfl : line = line' := Option.some.inj (hline.symm.trans hline')
  exact hQ c' h' hc'

/-- A line read is the one up to the first terminator. -/
theorem wp_readLine {Q : Text → Client → Prop} (h : c.Feeds s later)
    (hstall : Stalls c.deadline later)
    (hQ : ∀ i line c', Text.findSub crlf s = some i → Bytes.decodeAscii (s.take i) = some line →
      c'.Feeds (s.drop (i + 2)) later → c'.core = c.core → Q line c')
    (hE : ∀ stop c', ReadFails c s later stop c' → E stop c') : wp readLine Q E c :=
  wp_readLineLoop (.inr ⟨hstall, hE⟩) hQ _ 0 c h rfl (Nat.zero_le _) (fun j hj => by omega) (by omega)

end reads

end SeedLink
