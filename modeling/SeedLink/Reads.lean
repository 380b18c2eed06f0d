import SeedLink.Exchange

/-!
# What reading does

The functions that only read reach the connection through `ensure`, and consume what it has buffered. A
relation that these steps keep is kept by all of them (`Draws`); one that does not look at the buffer need
not know what is consumed (`Reads`). The first use is `OnlyReads`: reading sends nothing, and takes the
bytes to come off the front.
-/

namespace SeedLink

open StateExc

/-- The client after `x`, however it ended. -/
def Client.behind {α : Type} (x : ClientM α) (c : Client) : Client :=
  match x c with
  | .ok _ c' => c'
  | .error _ c' => c'

theorem behind_of_wp {α : Type} {x : ClientM α} {P : Client → Prop} {c : Client}
    (h : wp x (fun _ => P) (fun _ => P) c) : P (c.behind x) := by
  unfold Client.behind
  unfold wp at h
  split at h <;> rename_i heq <;> rw [heq] <;> exact h

section raising
variable {α : Type} {R : Client → Client → Prop} [IsPreorder Client R]

theorem keeps_raise (e : Exn) : Keeps R (raise e : ClientM α) := .throw _

theorem keeps_liftExcept (x : Except Exn α) : Keeps R (liftExcept x) := by
  cases x with
  | ok a => exact .pure a
  | error e => exact keeps_raise e

theorem keeps_tryExcept {x : ClientM α} {caught : Exn → Bool} {handler : Exn → ClientM α}
    (hx : Keeps R x) (hh : ∀ e, Keeps R (handler e)) : Keeps R (tryExcept x caught handler) := by
  refine .tryCatch hx fun stop => ?_
  cases stop with
  | raised e => exact .ite (hh e) (.throw _)
  | blocked => exact .throw _

end raising

theorem keeps_buffered {R : Client → Client → Prop} [IsPreorder Client R] (i j : Nat) :
    Keeps R (buffered i j) := .bind .get fun _ => .pure _

theorem keeps_unexpectedData {R : Client → Client → Prop} [IsPreorder Client R] :
    Keeps R unexpectedData := .bind (keeps_buffered 0 2) fun _ => keeps_raise _

/-! ### How `ensure` ends -/

/-- What `ensure` makes of a client, however it ends. -/
inductive Client.Ensured (n : Nat) (c : Client) : Client → Prop
  | kept (h : c.sock = none) : Ensured n c c
  | enough {rb : RecvBuf} (h : c.rb.prepareRoom n = (true, rb)) : Ensured n c { c with rb }
  | filled {sk : Sock} {stop : FillEnd} {rb rb' : RecvBuf} {incoming : List Recv} (hsk : c.sock = some sk)
      (hprep : c.rb.prepareRoom n = (false, rb))
      (hfill : fillLoop c.deadline n sk.incoming rb = (stop, rb', incoming)) :
      Ensured n c { c with rb := rb', sock := some { sk with incoming } }
  | closed {sk : Sock} {stop : FillEnd} {rb rb' : RecvBuf} {incoming : List Recv} (hsk : c.sock = some sk)
      (hprep : c.rb.prepareRoom n = (false, rb))
      (hfill : fillLoop c.deadline n sk.incoming rb = (stop, rb', incoming)) :
      Ensured n c ({ c with rb := rb', sock := some { sk with incoming } } : Client).closed

theorem ensured (n : Nat) (c : Client) : wp (ensure n) (fun _ => c.Ensured n) (fun _ => c.Ensured n) c := by
  unfold wp ensure
  cases hsk : c.sock with
  | none => exact .kept hsk
  | some sk =>
    rcases hprep : c.rb.prepareRoom n with ⟨_ | _, rb⟩
    · rcases hfill : fillLoop c.deadline n sk.incoming rb with ⟨stop, rb', incoming⟩
      have hfilled := Client.Ensured.filled hsk hprep hfill
      have hclosed := Client.Ensured.closed hsk hprep hfill
      simp only [hfill]
      cases stop with
      | timeout =>
        simp only [onTimeout]
        split <;> rename_i heq <;> split at heq
        · cases heq
        · split at heq <;> cases heq
        · cases heq; exact hfilled
        · split at heq <;> cases heq
          · exact hclosed
          · exact hfilled
      | filled | blocked => exact hfilled
      | oserror | eof => exact hclosed
    · have henough : c.Ensured n { c with rb } := .enough hprep
      rwa [hsk] at henough

/-- What relates a client to each of these is kept by `ensure`. -/
theorem keeps_ensure {R : Client → Client → Prop} {n : Nat} (h : ∀ c c', c.Ensured n c' → R c c') :
    Keeps R (ensure n) := fun c => wp_mono (ensured n c) (fun _ _ => h c _) fun _ _ => h c _

theorem start_fillLoop (deadline : Bool) (n : Nat) : ∀ (incoming : List Recv) (rb : RecvBuf),
    (fillLoop deadline n incoming rb).2.1.start = rb.start ∧
      ((fillLoop deadline n incoming rb).1 = .filled → n ≤ (fillLoop deadline n incoming rb).2.1.available)
  | [], rb => by
    unfold fillLoop
    split
    · exact ⟨rfl, fun _ => ‹_›⟩
    · exact ⟨rfl, by rintro ⟨⟩⟩
  | ev :: later, rb => by
    unfold fillLoop
    split
    · exact ⟨rfl, fun _ => ‹_›⟩
    cases ev with
    | timeout =>
      simp only
      split
      · exact ⟨rfl, by rintro ⟨⟩⟩
      · exact start_fillLoop deadline n later rb
    | oserror detail => exact ⟨rfl, by rintro ⟨⟩⟩
    | data chunk =>
      simp only
      split
      · exact ⟨rfl, by rintro ⟨⟩⟩
      split
      · exact start_fillLoop deadline n later _
      split
      · exact ⟨rfl, fun _ => ‹_›⟩
      · exact ⟨rfl, by rintro ⟨⟩⟩

/-- What `ensure` was asked for is there when it returns. -/
theorem available_ensure (n : Nat) (c : Client) :
    wp (ensure n) (fun _ c' => n ≤ c'.rb.available) (fun _ _ => True) c := by
  unfold wp ensure
  cases hsk : c.sock with
  | none => trivial
  | some sk =>
    rcases hprep : c.rb.prepareRoom n with ⟨_ | _, rb⟩
    · have hfilled := (start_fillLoop c.deadline n sk.incoming rb).2
      rcases hfill : fillLoop c.deadline n sk.incoming rb with ⟨stop, rb', incoming⟩
      rw [hfill] at hfilled
      simp only [hfill]
      cases stop with
      | filled => exact hfilled rfl
      | oserror | eof | blocked => trivial
      | timeout =>
        simp only [onTimeout]
        split <;> rename_i heq
        · split_ifs at heq
        · trivial
    · show n ≤ rb.available
      unfold RecvBuf.prepareRoom at hprep
      split_ifs at hprep with hav <;> cases hprep
      exact hav

/-- A relation that reading keeps, which consumes only what is buffered. -/
structure Draws (R : Client → Client → Prop) : Prop where
  ensure : ∀ n, Keeps R (ensure n)
  close : ∀ c : Client, R c c.closed
  consume : ∀ (c : Client) (n : Nat), n ≤ c.rb.available → R c { c with rb := c.rb.advance n }
  found : ∀ (c : Client) (searchFrom newStart : Nat) (line : Text),
    scanLine c.rb.buf c.rb.start c.rb.stop searchFrom = .ok (some (line, newStart)) →
    R c { c with rb := { c.rb with start := newStart } }
  drained : ∀ c : Client, R c { c with rb := c.rb.resetIfDrained }
  polls : ∀ (c : Client) (polls : Nat), R c { c with polls }

namespace Draws
variable {R : Client → Client → Prop} [IsPreorder Client R] (h : Draws R)
include h

/-- What follows a request has the bytes it asked for. -/
theorem ensure_bind {α : Type} {n : Nat} {f : Unit → ClientM α}
    (hf : ∀ c : Client, n ≤ c.rb.available → wp (f ⟨⟩) (fun _ => R c) (fun _ => R c) c) :
    Keeps R (SeedLink.ensure n >>= f) := by
  intro c
  rw [wp_bind]
  refine wp_mono (wp_and (h.ensure n c) (available_ensure n c)) (fun _ c₁ h₁ => ?_) fun _ _ h₁ => h₁.1
  exact wp_mono (hf c₁ h₁.2) (fun _ _ hr => IsTrans.trans _ _ _ h₁.1 hr) fun _ _ hr => IsTrans.trans _ _ _ h₁.1 hr

theorem peek (n : Nat) : Keeps R (peek n) := .bind (h.ensure n) fun _ => keeps_buffered 0 n

theorem take (n : Nat) : Keeps R (take n) := h.ensure_bind fun c hn => h.consume c n hn

theorem readLineLoop : ∀ fuel searchFrom, Keeps R (readLineLoop fuel searchFrom)
  | 0, _ => .throw _
  | fuel + 1, searchFrom => by
    intro c
    rw [SeedLink.readLineLoop, wp_bind, wp_get]
    cases hscan : scanLine c.rb.buf c.rb.start c.rb.stop searchFrom with
    | error e => exact h.close c
    | ok found =>
      cases found with
      | none =>
        have hloop : Keeps R (do
            SeedLink.ensure (c.rb.available + 1)
            SeedLink.readLineLoop fuel (c.rb.available - 1)) :=
          .bind (h.ensure _) fun _ => readLineLoop fuel _
        exact hloop c
      | some found => exact h.found c searchFrom found.2 found.1 hscan

theorem readLine : Keeps R readLine := h.readLineLoop _ _

theorem classifyNext : Keeps R classifyNext := by
  refine .bind (h.ensure 2) fun _ => .bind .get fun c => .ite (.pure _) (.ite ?_ keeps_unexpectedData)
  refine .bind (h.peek 3) fun three => .ite (.pure _) (.ite ?_ (.ite (.pure _) keeps_unexpectedData))
  exact .bind (h.peek 5) fun five => .ite (.pure _) keeps_unexpectedData

theorem recvFrameV4 : Keeps R recvFrameV4 := by
  refine .bind (h.ensure _) fun _ => .bind (keeps_buffered _ _) fun _ => .bind (keeps_liftExcept _) fun header =>
    h.ensure_bind fun c hn => ?_
  simp only [wp_bind, wp_get]
  cases decodeFrameV4Body c.rb.buf c.rb.start header with
  | error e => exact refl c
  | ok frame => exact h.consume c _ hn

theorem pollReadable : Keeps R pollReadable := by
  intro c
  have h₁ := h.polls c (c.polls + 1)
  simp only [SeedLink.pollReadable, wp_bind, wp_get, wp_ite, wp_pure, wp_set]
  split
  · exact refl c
  · split
    · exact h₁
    · split
      · exact h₁
      · exact wp_mono (h.ensure 1 _) (fun _ _ hr => IsTrans.trans _ _ _ h₁ hr)
          fun _ _ hr => IsTrans.trans _ _ _ h₁ hr

section frames
variable [Pymseed]

theorem readMseedPayloadLoop : ∀ fuel size, Keeps R (readMseedPayloadLoop fuel size)
  | 0, _ => .throw _
  | fuel + 1, size => by
    refine .bind (h.peek size) fun start => ?_
    cases detectRecordLength start with
    | error e => exact keeps_raise e
    | ok found =>
      cases found with
      | some reclen => exact h.take reclen
      | none => exact .ite (keeps_raise _) (readMseedPayloadLoop fuel _)

theorem recvFrameV3 : Keeps R recvFrameV3 :=
  .bind (h.take _) fun _ => .bind (keeps_liftExcept _) fun _ =>
    .bind (h.readMseedPayloadLoop _ _) fun _ => keeps_liftExcept _

theorem recvEvent (ev : StreamEvent) : Keeps R (recvEvent ev) := by
  have hpacket : Keeps R (do
      let c ← get
      let frame ← if c.protocol = some .v4 then SeedLink.recvFrameV4 else SeedLink.recvFrameV3
      return Received.packet frame) :=
    .bind .get fun c => .ite (.bind h.recvFrameV4 fun _ => .pure _) (.bind h.recvFrameV3 fun _ => .pure _)
  cases ev with
  | endOfStream => exact .bind (h.take 3) fun _ => .pure _
  | error => exact .bind h.readLine fun _ => .pure _
  | packet | other => exact hpacket

theorem recvFrame : Keeps R recvFrame :=
  .bind h.classifyNext fun ev => .bind (h.recvEvent ev) fun _ => .bind (.modify h.drained) fun _ => .pure _

end frames

end Draws

/-- A relation that the calls which read keep. -/
structure Reading (R : Client → Client → Prop) : Prop where
  readLine : Keeps R readLine
  recvFrame : ∀ [Pymseed], Keeps R recvFrame
  pollReadable : Keeps R pollReadable
  close : ∀ c : Client, R c c.closed

theorem Draws.reading {R : Client → Client → Prop} [IsPreorder Client R] (h : Draws R) : Reading R :=
  ⟨h.readLine, h.recvFrame, h.pollReadable, h.close⟩

/-- A relation that reading keeps. -/
structure Reads (R : Client → Client → Prop) : Prop where
  ensure : ∀ n, Keeps R (ensure n)
  close : ∀ c : Client, R c c.closed
  rb : ∀ (c : Client) (rb : RecvBuf), rb.buf = c.rb.buf ∨ rb = c.rb.reset → R c { c with rb }
  polls : ∀ (c : Client) (polls : Nat), R c { c with polls }

namespace Reads
variable {R : Client → Client → Prop} (h : Reads R)
include h

theorem draws : Draws R where
  ensure := h.ensure
  close := h.close
  consume c _ _ := h.rb c _ (.inl rfl)
  found c _ _ _ _ := h.rb c _ (.inl rfl)
  drained c := h.rb c _ (by
    unfold RecvBuf.resetIfDrained
    split
    · exact .inr rfl
    · exact .inl rfl)
  polls := h.polls

theorem reading [IsPreorder Client R] : Reading R := h.draws.reading

end Reads

namespace Reading
variable {R : Client → Client → Prop} [IsPreorder Client R] (h : Reading R)
include h

theorem awaitReply (parse : Option ReplyParser) : Keeps R (awaitReply parse) := by
  cases parse with
  | none => exact .pure _
  | some parser => exact .bind h.readLine fun line => .bind (keeps_liftExcept _) fun _ => .pure _

variable [Externals]

theorem infoLoop : ∀ fuel chunks, Keeps R (infoLoop fuel chunks)
  | 0, _ => .throw _
  | fuel + 1, chunks => by
    refine .bind h.recvFrame fun received => ?_
    cases received with
    | packet frame => exact .ite (.ite (infoLoop fuel _) (.pure _)) (keeps_raise _)
    | reply | endOfStream => exact keeps_raise _

theorem awaitFrame : Keeps R awaitFrame := by
  have hrecv : Keeps R (do let received ← SeedLink.recvFrame; return some received) :=
    .bind h.recvFrame fun _ => .pure _
  refine .bind h.pollReadable fun readable => ?_
  cases readable with
  | false => exact .pure _
  | true => exact hrecv

end Reading

/-! ### Reading sends nothing -/

/-- The connection, if there still is one, has sent the same lines to the same peer, and what it has
to deliver is an end of what it had. -/
def Client.OnlyReads (c c' : Client) : Prop :=
  ∀ sk', c'.sock = some sk' → ∃ sk, c.sock = some sk ∧ sk'.peer = sk.peer ∧ sk'.sent = sk.sent ∧
    delivered sk'.incoming <:+ delivered sk.incoming

instance : IsPreorder Client Client.OnlyReads where
  refl _ sk h := ⟨sk, h, rfl, rfl, List.suffix_refl _⟩
  trans _ _ _ h h' sk'' hs := by
    obtain ⟨sk', hs', hpeer', hsent', hsuf'⟩ := h' sk'' hs
    obtain ⟨sk, hs, hpeer, hsent, hsuf⟩ := h sk' hs'
    exact ⟨sk, hs, hpeer'.trans hpeer, hsent'.trans hsent, hsuf'.trans hsuf⟩

theorem delivered_fillLoop (deadline : Bool) (n : Nat) : ∀ (incoming : List Recv) (rb : RecvBuf),
    delivered (fillLoop deadline n incoming rb).2.2 <:+ delivered incoming
  | [], rb => List.suffix_refl _
  | ev :: later, rb => by
    have hlater : delivered later <:+ delivered (ev :: later) := List.suffix_append _ _
    unfold fillLoop
    split
    · exact List.suffix_refl _
    cases ev with
    | timeout =>
      simp only
      split
      · exact hlater
      · exact delivered_fillLoop deadline n later rb
    | oserror detail => exact hlater
    | data chunk =>
      simp only
      split
      · exact hlater
      split
      · exact (delivered_fillLoop deadline n later _).trans hlater
      split
      · rw [delivered_cons, delivered_cons, Recv.bytes_data, Recv.bytes_data]
        obtain ⟨t, ht⟩ := List.drop_suffix rb.room chunk
        exact ⟨t, by rw [← List.append_assoc, ht]⟩
      · exact hlater

theorem onlyReads_of_sock {c c' : Client} (h : c'.sock = c.sock) : c.OnlyReads c' := fun sk' hs =>
  ⟨sk', h ▸ hs, rfl, rfl, List.suffix_refl _⟩

theorem onlyReads_of_none {c c' : Client} (h : c'.sock = none) : c.OnlyReads c' := fun sk' hs => by
  rw [h] at hs
  cases hs

theorem onlyReads_ensure (n : Nat) : Keeps Client.OnlyReads (ensure n) := by
  refine keeps_ensure fun c c' h => ?_
  cases h with
  | kept h => exact onlyReads_of_none h
  | enough => exact onlyReads_of_sock rfl
  | @filled sk _ rb _ _ hsk _ hfill =>
    have hsuf := delivered_fillLoop c.deadline n sk.incoming rb
    rw [hfill] at hsuf
    intro sk' hs
    cases hs
    exact ⟨sk, hsk, rfl, rfl, hsuf⟩
  | closed => exact onlyReads_of_none rfl

theorem onlyReads : Reads Client.OnlyReads where
  ensure := onlyReads_ensure
  close _ := onlyReads_of_none rfl
  rb _ _ _ := onlyReads_of_sock rfl
  polls _ _ := onlyReads_of_sock rfl

end SeedLink
