import SeedLink.Calls
import SeedLink.Lib.Runs

/-!
# The receive buffer in use (`_base.py`, `_ensure`, `_recv_frame`)

A buffer in use is asked for bytes, filled by the reads that follow, consumed from, and reset when it is drained.
What is said of it here holds after any sequence of these (`Buffering.Sound`), above all that a read has room: then
one that gives nothing is the end of the stream. The functions that read work on the buffer by these operations
alone (`Client.Operates`).
-/

namespace SeedLink

open StateExc

/-! ### The operations -/

/-- A buffer in use. -/
structure Buffering where
  rb : RecvBuf
  /-- What the socket has still to give. -/
  rest : Bytes
  /-- What the request in progress asks for, `0` when there is none. -/
  demand : Nat

inductive BufferOp
  | request (n : Nat)
  | fill (k : Nat)
  | consume (k : Nat)
  | reset
  deriving DecidableEq, Repr

namespace BufferOp

/-- The bytes that an operation takes off the stream. -/
def consumed : BufferOp → Nat
  | consume k => k
  | _ => 0

end BufferOp

namespace Buffering

/-- A new buffer for the bytes of a stream. -/
def fresh (stream : Bytes) : Buffering := ⟨RecvBuf.fresh, stream, 0⟩

/-- The loop of `_ensure` goes on. -/
def Waiting (s : Buffering) : Prop := s.rb.available < s.demand

instance (s : Buffering) : Decidable s.Waiting := Nat.decLt _ _

/-- A request makes room, a read of its loop gives the next `k` bytes, as many as have room; what is consumed was
buffered, and what is reset is drained. -/
def step (s : Buffering) : BufferOp → Option Buffering
  | .request n => some { s with rb := (s.rb.prepareRoom n).2, demand := n }
  | .fill k =>
    if s.Waiting ∧ 0 < k ∧ k ≤ s.rb.room ∧ k ≤ s.rest.length then
      some { s with rb := s.rb.fill (s.rest.take k), rest := s.rest.drop k }
    else none
  | .consume k => if k ≤ s.rb.available then some { s with rb := s.rb.advance k, demand := 0 } else none
  | .reset => if s.rb.start = s.rb.stop then some { s with rb := s.rb.reset, demand := 0 } else none

def run (s : Buffering) (ops : List BufferOp) : Option Buffering := Machine.run step s ops

/-! ### What they keep -/

/-- The buffer is well formed, it and the socket hold what is ahead on the stream, and what is asked for fits. -/
structure Sound (ahead : Bytes) (s : Buffering) : Prop where
  wf : s.rb.WF
  ahead : s.rb.unread ++ s.rest = ahead
  fits : s.Waiting → s.rb.start + s.demand ≤ s.rb.buf.size

variable {s s' : Buffering} {ahead stream : Bytes} {op : BufferOp} {ops : List BufferOp} {k n : Nat}

theorem not_waiting_zero {rb : RecvBuf} {rest : Bytes} : ¬ (⟨rb, rest, 0⟩ : Buffering).Waiting := Nat.not_lt_zero _

theorem sound_fresh (stream : Bytes) : (fresh stream).Sound stream where
  wf := RecvBuf.wf_fresh
  ahead := by rw [fresh, RecvBuf.unread_fresh, List.nil_append]
  fits h := absurd h not_waiting_zero

/-- The bytes that a run takes off the stream. -/
def consumed (ops : List BufferOp) : Nat := (ops.map BufferOp.consumed).sum

theorem foldl_consumed : ∀ (ops : List BufferOp) (n : Nat),
    ops.foldl (fun n op => n + op.consumed) n = n + consumed ops
  | [], _ => rfl
  | op :: ops, n => by
    rw [List.foldl_cons, foldl_consumed ops, Nat.add_assoc, consumed, consumed, List.map_cons, List.sum_cons]

namespace Sound

/-- A read has room. -/
theorem room_pos (h : s.Sound ahead) (hwait : s.Waiting) : 0 < s.rb.room := by
  have hfits := h.fits hwait
  have hle := h.wf.start_le
  unfold Waiting RecvBuf.available at hwait
  unfold RecvBuf.room
  omega

/-- A read into all the room there is satisfies the request. -/
theorem demand_le (h : s.Sound ahead) (hwait : s.Waiting) : s.demand ≤ s.rb.available + s.rb.room := by
  have hfits := h.fits hwait
  have hle := h.wf.start_le
  unfold RecvBuf.available RecvBuf.room
  omega

theorem available_le (h : s.Sound ahead) : s.rb.available ≤ ahead.length := by
  rw [← h.ahead, List.length_append, h.wf.length_unread]
  exact Nat.le_add_right _ _

theorem request (h : s.Sound ahead) (n : Nat) :
    Sound ahead { s with rb := (s.rb.prepareRoom n).2, demand := n } := by
  by_cases hn : n ≤ s.rb.available
  · rw [RecvBuf.prepareRoom_true hn]
    exact ⟨h.wf, h.ahead, fun hwait => absurd hwait (Nat.not_lt_of_le hn)⟩
  · obtain ⟨rb, hprep, hroomy⟩ := RecvBuf.prepareRoom_false h.wf (Nat.lt_of_not_le hn)
    rw [hprep]
    exact ⟨hroomy.wf, hroomy.unread ▸ h.ahead, fun _ => hroomy.fits⟩

theorem fill (h : s.Sound ahead) (hwait : s.Waiting) (hroom : k ≤ s.rb.room) :
    Sound ahead { s with rb := s.rb.fill (s.rest.take k), rest := s.rest.drop k } := by
  have hlen : (s.rest.take k).length ≤ s.rb.room := (List.length_take_le k s.rest).trans hroom
  refine ⟨h.wf.fill hlen, ?_, fun _ => h.fits hwait⟩
  show (s.rb.fill (s.rest.take k)).unread ++ s.rest.drop k = ahead
  rw [h.wf.unread_fill hlen, List.append_assoc, List.take_append_drop, h.ahead]

theorem consume (h : s.Sound ahead) (hk : k ≤ s.rb.available) :
    Sound (ahead.drop k) { s with rb := s.rb.advance k, demand := 0 } := by
  refine ⟨h.wf.advance hk, ?_, fun hwait => absurd hwait not_waiting_zero⟩
  show (s.rb.advance k).unread ++ s.rest = ahead.drop k
  rw [h.wf.unread_advance, ← h.ahead, List.drop_append_of_le_length (h.wf.length_unread ▸ hk)]

theorem reset (h : s.Sound ahead) (hdrained : s.rb.start = s.rb.stop) :
    Sound ahead { s with rb := s.rb.reset, demand := 0 } := by
  refine ⟨h.wf.reset, ?_, fun hwait => absurd hwait not_waiting_zero⟩
  have hempty : s.rb.unread = [] := by rw [RecvBuf.unread, hdrained, Bytearray.slice_self]
  show s.rb.reset.unread ++ s.rest = ahead
  rw [RecvBuf.unread_reset, ← h.ahead, hempty]

/-- One operation: what it takes is gone from the stream, nothing else is. -/
theorem step (h : s.Sound ahead) (hstep : s.step op = some s') : s'.Sound (ahead.drop op.consumed) := by
  cases op with
  | request n =>
    cases hstep
    exact h.request n
  | fill k =>
    obtain ⟨⟨hwait, -, hroom, -⟩, hs'⟩ := Option.ite_none_right_eq_some.1 hstep
    cases hs'
    exact h.fill hwait hroom
  | consume k =>
    obtain ⟨hk, hs'⟩ := Option.ite_none_right_eq_some.1 hstep
    cases hs'
    exact h.consume hk
  | reset =>
    obtain ⟨hdrained, hs'⟩ := Option.ite_none_right_eq_some.1 hstep
    cases hs'
    exact h.reset hdrained

theorem consumed_le (h : s.Sound ahead) (hstep : s.step op = some s') : op.consumed ≤ ahead.length := by
  cases op with
  | consume k => exact (Option.ite_none_right_eq_some.1 hstep).1.trans h.available_le
  | _ => exact Nat.zero_le _

/-- Any run: what it took is gone from the stream, nothing else is. -/
theorem run (h : s.Sound ahead) (hrun : s.run ops = some s') :
    consumed ops ≤ ahead.length ∧ s'.Sound (ahead.drop (consumed ops)) := by
  have hstart : 0 ≤ ahead.length ∧ s.Sound (ahead.drop 0) := ⟨Nat.zero_le _, h⟩
  have hsim := Machine.run_simulates (R := fun n s => n ≤ ahead.length ∧ s.Sound (ahead.drop n))
    (f := fun n op => n + op.consumed) (fun {n s op s'} h hstep => ?_) hstart hrun
  · rwa [foldl_consumed, Nat.zero_add] at hsim
  · have hlen := h.2.consumed_le hstep
    have hsound := h.2.step hstep
    rw [List.length_drop] at hlen
    rw [List.drop_drop] at hsound
    exact ⟨by omega, hsound⟩

end Sound

/-! ### The loop of `_ensure` -/

section loop
variable {rb : RecvBuf} {chunk rest : Bytes}

/-- A read that gives `chunk`. -/
theorem step_fill (hwait : Waiting ⟨rb, chunk ++ rest, n⟩) (hne : chunk ≠ []) (hroom : chunk.length ≤ rb.room) :
    step ⟨rb, chunk ++ rest, n⟩ (.fill chunk.length) = some ⟨rb.fill chunk, rest, n⟩ := by
  have hpos := List.length_pos_iff.2 hne
  have hlen : chunk.length ≤ (chunk ++ rest).length := by
    rw [List.length_append]
    exact Nat.le_add_right _ _
  rw [step, if_pos ⟨hwait, hpos, hroom, hlen⟩, List.take_left, List.drop_left]

/-- How the loop leaves the buffer and the socket: after reads that each had room, and at the end of the stream
only if the peer closed. -/
structure Filled (n : Nat) (incoming : List Recv) (rb : RecvBuf) (r : FillEnd × RecvBuf × List Recv) : Prop where
  reads : ∃ ks, run ⟨rb, delivered incoming, n⟩ (List.map BufferOp.fill ks) = some ⟨r.2.1, delivered r.2.2, n⟩
  closed : r.1 = .eof → .data [] :: r.2.2 <:+ incoming

theorem Filled.stop {incoming : List Recv} {stop : FillEnd} (h : stop ≠ .eof) :
    Filled n incoming rb (stop, rb, incoming) := ⟨⟨[], rfl⟩, fun hstop => absurd hstop h⟩

/-- An event that gives no bytes. -/
theorem Filled.cons {ev : Recv} {later : List Recv} {r : FillEnd × RecvBuf × List Recv} (hev : ev.bytes = [])
    (h : Filled n later rb r) : Filled n (ev :: later) rb r := by
  obtain ⟨hreads, hclosed⟩ := h
  refine ⟨?_, fun hstop => (hclosed hstop).trans (List.suffix_cons ev later)⟩
  rwa [delivered_cons, hev, List.nil_append]

/-- A read that has room for `chunk`. -/
theorem Filled.read {incoming later : List Recv} {r : FillEnd × RecvBuf × List Recv}
    (hwait : Waiting ⟨rb, delivered incoming, n⟩) (hne : chunk ≠ []) (hroom : chunk.length ≤ rb.room)
    (hbytes : delivered incoming = chunk ++ delivered later)
    (hlater : r.1 = .eof → later <:+ incoming) (h : Filled n later (rb.fill chunk) r) : Filled n incoming rb r := by
  obtain ⟨⟨ks, hks⟩, hclosed⟩ := h
  rw [hbytes] at hwait
  refine ⟨⟨chunk.length :: ks, ?_⟩, fun hstop => (hclosed hstop).trans (hlater hstop)⟩
  rw [hbytes, List.map_cons, run, Machine.run_cons_of_step (step_fill hwait hne hroom)]
  exact hks

theorem filled_fillLoop (deadline : Bool) : ∀ (incoming : List Recv) (rb : RecvBuf) {ahead : Bytes},
    Sound ahead ⟨rb, delivered incoming, n⟩ → Filled n incoming rb (fillLoop deadline n incoming rb)
  | [], rb, ahead, h => by
    unfold fillLoop
    exact .stop (by split <;> rintro ⟨⟩)
  | ev :: later, rb, ahead, h => by
    unfold fillLoop
    by_cases hn : n ≤ rb.available
    · rw [if_pos hn]
      exact .stop (by rintro ⟨⟩)
    rw [if_neg hn]
    have hwait : Waiting ⟨rb, delivered (ev :: later), n⟩ := Nat.lt_of_not_le hn
    cases ev with
    | timeout =>
      simp only
      split
      · exact .cons rfl (.stop (by rintro ⟨⟩))
      · exact .cons rfl (filled_fillLoop deadline later rb h)
    | oserror detail => exact .cons rfl (.stop (by rintro ⟨⟩))
    | data chunk =>
      have hpos := h.room_pos hwait
      simp only
      by_cases hne : chunk = []
      · rw [if_pos (.inl hne)]
        subst hne
        exact ⟨⟨[], rfl⟩, fun _ => List.suffix_refl _⟩
      rw [if_neg (not_or.2 ⟨hne, Nat.ne_of_gt hpos⟩)]
      by_cases hroom : chunk.length ≤ rb.room
      · rw [if_pos hroom]
        have hread := h.step (step_fill hwait hne hroom)
        exact .read hwait hne hroom rfl (fun _ => List.suffix_cons _ _)
          (filled_fillLoop deadline later (rb.fill chunk) hread)
      · -- what has no room stays in the socket, and the request is satisfied
        rw [if_neg hroom]
        have hlen : (chunk.take rb.room).length = rb.room := List.length_take_of_le (Nat.le_of_not_le hroom)
        have hsplit : delivered (.data chunk :: later) =
            chunk.take rb.room ++ delivered (.data (chunk.drop rb.room) :: later) := by
          rw [delivered_cons, delivered_cons, Recv.bytes_data, Recv.bytes_data, ← List.append_assoc,
            List.take_append_drop]
        have hn : n ≤ (rb.fill (chunk.take rb.room)).available := by
          rw [h.wf.available_fill hlen.le, hlen]
          exact h.demand_le hwait
        rw [if_pos hn]
        have hsome : chunk.take rb.room ≠ [] := List.length_pos_iff.1 (Nat.lt_of_lt_of_eq hpos hlen.symm)
        exact .read hwait hsome hlen.le hsplit (by rintro ⟨⟩) (.stop (by rintro ⟨⟩))

end loop

end Buffering

/-! ### The functions that read -/

/-- The client works with this buffer on its connection. -/
def Client.Buffers (c : Client) (s : Buffering) : Prop :=
  c.rb = s.rb ∧ ∃ sk, c.sock = some sk ∧ delivered sk.incoming = s.rest

/-- From `c` to `c'` a sound buffer went through a run of operations, or the connection was closed. -/
structure Client.Operates (c c' : Client) : Prop where
  closed : c.sock = none → c'.sock = none
  runs : ∀ s ahead, c.Buffers s → s.Sound ahead → c'.sock = none ∨ ∃ ops s', s.run ops = some s' ∧ c'.Buffers s'

namespace Client.Operates
variable {c c' : Client}

theorem of_none (h : c'.sock = none) : c.Operates c' := ⟨fun _ => h, fun _ _ _ _ => .inl h⟩

theorem of_step (hsock : c'.sock = c.sock) (hstep : ∀ s ahead, c.Buffers s → s.Sound ahead →
    ∃ op s', s.step op = some s' ∧ c'.rb = s'.rb ∧ s'.rest = s.rest) : c.Operates c' := by
  refine ⟨fun h => hsock.trans h, fun s ahead hbuf hs => .inr ?_⟩
  obtain ⟨op, s', hs', hrb, hrest⟩ := hstep s ahead hbuf hs
  obtain ⟨-, sk, hsk, hin⟩ := hbuf
  exact ⟨[op], s', Machine.run_cons_of_step hs', hrb, sk, hsock.trans hsk, hin.trans hrest.symm⟩

end Client.Operates

instance : IsPreorder Client Client.Operates where
  refl _ := ⟨id, fun s _ hbuf _ => .inr ⟨[], s, rfl, hbuf⟩⟩
  trans _ _ _ h h' := by
    refine ⟨h'.closed ∘ h.closed, fun s ahead hbuf hs => ?_⟩
    rcases h.runs s ahead hbuf hs with hnone | ⟨ops, s₁, hrun, hbuf₁⟩
    · exact .inl (h'.closed hnone)
    · rcases h'.runs s₁ _ hbuf₁ (hs.run hrun).2 with hnone | ⟨ops', s₂, hrun', hbuf₂⟩
      · exact .inl hnone
      · exact .inr ⟨ops ++ ops', s₂, (Machine.run_append_of_run hrun).trans hrun', hbuf₂⟩

theorem operates_ensure (n : Nat) : Keeps Client.Operates (ensure n) := by
  refine keeps_ensure fun c c' h => ?_
  cases h with
  | kept h => exact .of_none h
  | closed => exact .of_none rfl
  | @enough rb hprep =>
    refine .of_step rfl fun s ahead hbuf _ => ⟨.request n, _, rfl, ?_, rfl⟩
    rw [← hbuf.1, hprep]
  | @filled sk stop rb rb' incoming hsk hprep hfill =>
    refine ⟨fun hnone => ?_, fun s ahead hbuf hs => .inr ?_⟩
    · rw [hsk] at hnone
      cases hnone
    · obtain ⟨hrb, sk', hsk', hin⟩ := hbuf
      obtain rfl : sk = sk' := Option.some.inj (hsk.symm.trans hsk')
      have hrequest := hs.request n
      rw [← hrb, hprep, ← hin] at hrequest
      obtain ⟨⟨ks, hks⟩, -⟩ := Buffering.filled_fillLoop c.deadline sk.incoming rb hrequest
      rw [hfill] at hks
      have hstep : s.step (.request n) = some ⟨rb, delivered sk.incoming, n⟩ := by
        rw [Buffering.step, ← hrb, hprep, hin]
      exact ⟨_, _, (Machine.run_cons_of_step hstep).trans hks, rfl, _, rfl, rfl⟩

theorem draws_operates : Draws Client.Operates where
  ensure := operates_ensure
  close _ := .of_none rfl
  consume c n hn := .of_step rfl fun s ahead hbuf _ =>
    ⟨.consume n, _, if_pos (hbuf.1 ▸ hn), by rw [hbuf.1], rfl⟩
  found c searchFrom newStart line hscan := .of_step rfl fun s ahead hbuf hs => by
    rw [hbuf.1] at hscan ⊢
    obtain ⟨hstart, hstop⟩ := scanLine_found hs.wf.stop_le hscan
    obtain ⟨k, rfl⟩ := Nat.exists_eq_add_of_le hstart
    have hk : k ≤ s.rb.available := Nat.le_sub_of_add_le' hstop
    exact ⟨.consume k, _, if_pos hk, rfl, rfl⟩
  drained c := by
    by_cases hdrained : c.rb.start = c.rb.stop
    · refine .of_step rfl fun s ahead hbuf _ => ⟨.reset, _, if_pos (hbuf.1 ▸ hdrained), ?_, rfl⟩
      rw [RecvBuf.resetIfDrained, if_pos hdrained, hbuf.1]
    · rw [RecvBuf.resetIfDrained, if_neg hdrained]
      exact refl c
  polls c polls := ⟨id, fun s _ hbuf _ => .inr ⟨[], s, rfl, hbuf⟩⟩

/-- The buffer of a client between its calls. -/
theorem Client.Usable.sound {c : Client} {sk : Sock} (h : c.Usable) (hsk : c.sock = some sk) :
    Buffering.Sound c.stream ⟨c.rb, delivered sk.incoming, 0⟩ where
  wf := h.wf (by rw [hsk]; rfl)
  ahead := by rw [Client.stream, hsk]; rfl
  fits hwait := absurd hwait Buffering.not_waiting_zero

/-- However `_recv_frame` ends, the connection is closed, or the buffer is sound at a later place of the stream. -/
theorem recvFrame_operates [Externals] {c : Client} (hc : c.Reachable) :
    wp recvFrame (fun _ c' => c'.sock = none ∨ ∃ s n, c'.Buffers s ∧ s.Sound (c.stream.drop n))
      (fun _ c' => c'.sock = none ∨ ∃ s n, c'.Buffers s ∧ s.Sound (c.stream.drop n)) c := by
  have hafter : ∀ c', c.Operates c' → c'.sock = none ∨ ∃ s n, c'.Buffers s ∧ s.Sound (c.stream.drop n) := by
    intro c' h
    cases hsk : c.sock with
    | none => exact .inl (h.closed hsk)
    | some sk =>
      have hsound := hc.usable.sound hsk
      refine (h.runs _ _ ⟨rfl, sk, hsk, rfl⟩ hsound).imp_right fun ⟨ops, s', hrun, hbuf⟩ => ?_
      exact ⟨s', Buffering.consumed ops, hbuf, (hsound.run hrun).2⟩
  exact wp_mono (draws_operates.recvFrame c) (fun _ c' h => hafter c' h) fun _ c' h => hafter c' h

/-! ### The buffer given back -/

/-- A frame that drains the buffer leaves it at its least size. -/
def Client.GivesBack [Pymseed] (c : Client) : Prop :=
  ∀ received c', recvFrame c = .ok received c' → c'.rb.start = c'.rb.stop → c'.rb.buf.size = recvBufSize

theorem Client.givesBack [Pymseed] {c : Client} (hc : recvBufSize ≤ c.rb.buf.size) : c.GivesBack := by
  have hdraws := keepsBuffer.toReads.draws
  have hrun : wp recvFrame (fun _ c' => c'.rb.start = c'.rb.stop → c'.rb.buf.size = recvBufSize)
      (fun _ _ => True) c := by
    rw [recvFrame, wp_bind]
    refine wp_mono (hdraws.classifyNext c) (fun event c₁ h₁ => ?_) fun _ _ _ => trivial
    rw [wp_bind]
    refine wp_mono (hdraws.recvEvent event c₁) (fun received c₂ h₂ => ?_) fun _ _ _ => trivial
    have hsize := h₂ (h₁ hc)
    show c₂.rb.resetIfDrained.start = c₂.rb.resetIfDrained.stop → c₂.rb.resetIfDrained.buf.size = recvBufSize
    unfold RecvBuf.resetIfDrained
    split
    · exact fun _ => RecvBuf.size_reset hsize
    · exact fun h => absurd h ‹_›
  exact fun received c' heq => wp_ok hrun heq

/-- Whatever is done with a buffer, its bounds hold, it and the socket hold what is ahead on the stream, every read
has room, and so only a peer that closed ends the loop of a request; a frame that drains it gives its memory back. -/
theorem buffer_in_use [Externals] :
    (∀ stream ops s, (Buffering.fresh stream).run ops = some s →
      (s.rb.start ≤ s.rb.stop ∧ s.rb.stop ≤ s.rb.buf.size ∧ recvBufSize ≤ s.rb.buf.size) ∧
      (Buffering.consumed ops ≤ stream.length ∧ s.rb.unread ++ s.rest = stream.drop (Buffering.consumed ops)) ∧
      (s.Waiting → 0 < s.rb.room) ∧
      (∀ deadline incoming, delivered incoming = s.rest → (fillLoop deadline s.demand incoming s.rb).1 = .eof →
        .data [] :: (fillLoop deadline s.demand incoming s.rb).2.2 <:+ incoming) ∧
      ∀ c : Client, c.rb = s.rb → c.GivesBack) ∧
    ∀ c : Client, c.Reachable → c.GivesBack := by
  refine ⟨fun stream ops s hrun => ?_, fun c hc => Client.givesBack hc.size_ge⟩
  obtain ⟨hlen, h⟩ := (Buffering.sound_fresh stream).run hrun
  refine ⟨⟨h.wf.start_le, h.wf.stop_le, h.wf.size_ge⟩, ⟨hlen, h.ahead⟩, h.room_pos, fun deadline incoming hin => ?_,
    fun c hc => Client.givesBack (hc ▸ h.wf.size_ge)⟩
  have hloop : Buffering.Sound (stream.drop (Buffering.consumed ops)) ⟨s.rb, delivered incoming, s.demand⟩ := by
    rw [hin]
    exact h
  exact (Buffering.filled_fillLoop deadline incoming s.rb hloop).closed

/-- Two requests and what is read for them: the second makes the buffer grow around what the first left there. -/
theorem buffer_in_use_growing : ∃ s,
    (Buffering.fresh [1, 2, 3, 4]).run [.request 2, .fill 3, .consume 1, .request 100000, .fill 1] = some s ∧
      s.rb.unread ++ s.rest = [2, 3, 4] ∧ 0 < s.rb.room := by
  have huse := (@buffer_in_use Externals.bare).1 [1, 2, 3, 4]
    [.request 2, .fill 3, .consume 1, .request 100000, .fill 1] _ rfl
  exact ⟨_, rfl, huse.2.1.2, huse.2.2.1 (by decide)⟩

end SeedLink
