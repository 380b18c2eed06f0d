import SeedLink.Protocol

/-!
# The receive buffer (`_base.py`)

One growing byte array per client; the bytes received and not yet consumed are those from `start`
to `stop`. `RecvBuf.WF` is what every operation keeps, and `unread` what each does to the
contents: making room and resetting a drained buffer change nothing, a read appends, a consumer
advances.
-/

namespace SeedLink

def recvBufSize : Nat := 65536

structure RecvBuf where
  buf : Bytearray
  start : Nat
  stop : Nat

namespace RecvBuf

def fresh : RecvBuf := ⟨Bytearray.zeros recvBufSize, 0, 0⟩

def available (rb : RecvBuf) : Nat := rb.stop - rb.start

/-- The cells a read may fill. -/
def room (rb : RecvBuf) : Nat := rb.buf.size - rb.stop

/-- The bytes received and not consumed. -/
def unread (rb : RecvBuf) : Bytes := rb.buf.slice rb.start rb.stop

/-- `_reset_recv_buf`. -/
def reset (rb : RecvBuf) : RecvBuf :=
  { buf := if rb.buf.size > recvBufSize then Bytearray.zeros recvBufSize else rb.buf,
    start := 0, stop := 0 }

/-- The last two branches of `_prepare_room`: grow, or move the contents to the front. -/
def makeRoom (n : Nat) (rb : RecvBuf) : RecvBuf :=
  let available := rb.available
  if n > rb.buf.size then
    { buf := (Bytearray.zeros (max n (rb.buf.size * 2))).write 0 rb.unread, start := 0,
      stop := available }
  else if rb.buf.size - rb.start < n then
    { buf := rb.buf.write 0 rb.unread, start := 0, stop := available }
  else rb

/-- `_prepare_room`: whether `n` bytes are there already, and the buffer with room for them. -/
def prepareRoom (n : Nat) (rb : RecvBuf) : Bool × RecvBuf :=
  if rb.available ≥ n then (true, rb)
  else if rb.available = 0 ∧ n ≤ recvBufSize then (false, makeRoom n rb.reset)
  else (false, makeRoom n rb)

/-- A read of `data` into the free cells. -/
def fill (data : Bytes) (rb : RecvBuf) : RecvBuf :=
  { rb with buf := rb.buf.write rb.stop data, stop := rb.stop + data.length }

/-- `n` bytes are consumed. -/
def advance (n : Nat) (rb : RecvBuf) : RecvBuf := { rb with start := rb.start + n }

/-- `_recv_frame`'s last step: a drained buffer gives its memory back. -/
def resetIfDrained (rb : RecvBuf) : RecvBuf := if rb.start = rb.stop then rb.reset else rb

structure WF (rb : RecvBuf) : Prop where
  start_le : rb.start ≤ rb.stop
  stop_le : rb.stop ≤ rb.buf.size
  size_ge : recvBufSize ≤ rb.buf.size

variable {rb : RecvBuf} {n : Nat}

theorem wf_fresh : fresh.WF := ⟨Nat.le_refl _, Nat.zero_le _, Nat.le_refl _⟩

theorem unread_fresh : fresh.unread = [] := Bytearray.slice_self

namespace WF

theorem length_unread (h : rb.WF) : rb.unread.length = rb.available :=
  Bytearray.length_slice h.stop_le

theorem reset (h : rb.WF) : rb.reset.WF := by
  refine ⟨Nat.le_refl _, Nat.zero_le _, ?_⟩
  unfold RecvBuf.reset
  split
  · exact Nat.le_refl _
  · exact h.size_ge

theorem fill {data : Bytes} (h : rb.WF) (hd : data.length ≤ rb.room) : (rb.fill data).WF := by
  have h1 := h.start_le
  have h2 := h.stop_le
  unfold RecvBuf.room at hd
  exact ⟨by show rb.start ≤ rb.stop + _; omega, by show rb.stop + _ ≤ rb.buf.size; omega, h.size_ge⟩

theorem unread_fill {data : Bytes} (h : rb.WF) (hd : data.length ≤ rb.room) :
    (rb.fill data).unread = rb.unread ++ data := by
  have h2 := h.stop_le
  unfold RecvBuf.room at hd
  exact Bytearray.slice_write_append h.start_le (by omega)

theorem advance (h : rb.WF) (hn : n ≤ rb.available) : (rb.advance n).WF := by
  have h1 := h.start_le
  unfold available at hn
  exact ⟨by show rb.start + n ≤ rb.stop; omega, h.stop_le, h.size_ge⟩

theorem unread_advance (h : rb.WF) : (rb.advance n).unread = rb.unread.drop n :=
  (Bytearray.slice_drop h.stop_le).symm

/-- The first `n` bytes of the contents, as `_peek` and `_take` copy them out. -/
theorem slice_unread (h : rb.WF) (hn : n ≤ rb.available) :
    rb.buf.slice rb.start (rb.start + n) = rb.unread.take n := by
  have h1 := h.start_le
  unfold available at hn
  exact (Bytearray.slice_take h.stop_le (by omega)).symm

/-- A slice inside the contents, by its offsets from their start. -/
theorem slice_unread_sub {i k : Nat} (h : rb.WF) (hk : i + k ≤ rb.available) :
    rb.buf.slice (rb.start + i) (rb.start + i + k) = (rb.unread.drop i).take k := by
  have h1 := h.start_le
  unfold available at hk
  rw [← h.unread_advance (n := i), ← (h.advance (n := i) (by unfold available; omega)).slice_unread]
  · rfl
  · show k ≤ rb.stop - (rb.start + i); omega

theorem get_unread {i : Nat} (h : rb.WF) (hi : i < rb.available) :
    rb.unread[i]? = some (rb.buf.get (rb.start + i)) :=
  Bytearray.getElem?_slice h.stop_le hi

end WF

theorem unread_reset : rb.reset.unread = [] := Bytearray.slice_self

/-- What `makeRoom` guarantees: the contents stay, and the demand fits. -/
structure Roomy (n : Nat) (rb rb' : RecvBuf) : Prop where
  wf : rb'.WF
  unread : rb'.unread = rb.unread
  fits : rb'.start + n ≤ rb'.buf.size
  size : rb'.buf.size ≤ max rb.buf.size (max n (rb.buf.size * 2))

theorem makeRoom_roomy (h : rb.WF) (hn : rb.available < n) : Roomy n rb (makeRoom n rb) := by
  have h1 := h.start_le
  have h2 := h.stop_le
  have h3 := h.size_ge
  have hlen : rb.unread.length = rb.stop - rb.start := h.length_unread
  have hav : rb.available = rb.stop - rb.start := rfl
  -- writing the contents at the front of an array that holds them gives them back
  have hcopy : ∀ b : Bytearray, rb.available ≤ b.size →
      (b.write 0 rb.unread).slice 0 rb.available = rb.unread := by
    intro b hb
    have : 0 + rb.unread.length ≤ b.size := by omega
    have := Bytearray.slice_write_self this
    rwa [Nat.zero_add, hlen] at this
  unfold makeRoom
  simp only
  split
  · have hmax : n ≤ max n (rb.buf.size * 2) := Nat.le_max_left _ _
    refine ⟨⟨Nat.zero_le _, ?_, ?_⟩, hcopy _ ?_, ?_, ?_⟩ <;>
      simp only [Bytearray.size_write, Bytearray.size_zeros] <;> omega
  · split
    · refine ⟨⟨Nat.zero_le _, ?_, h3⟩, hcopy _ (by omega), ?_, Nat.le_max_left _ _⟩
      · show rb.available ≤ rb.buf.size; omega
      · show 0 + n ≤ rb.buf.size; omega
    · exact ⟨h, rfl, by omega, Nat.le_max_left _ _⟩

theorem size_reset_le : rb.reset.buf.size ≤ rb.buf.size := by
  unfold reset
  split
  · simp only [Bytearray.size_zeros]; omega
  · exact Nat.le_refl _

theorem prepareRoom_true (hn : n ≤ rb.available) : prepareRoom n rb = (true, rb) := if_pos hn

theorem prepareRoom_false (h : rb.WF) (hn : rb.available < n) :
    ∃ rb', prepareRoom n rb = (false, rb') ∧ Roomy n rb rb' := by
  have hn' : ¬ rb.available ≥ n := by omega
  unfold prepareRoom
  simp only [hn', if_false]
  split
  · rename_i h0
    have hempty : rb.unread = [] := List.length_eq_zero_iff.1 (h.length_unread.trans h0.1)
    have hr := makeRoom_roomy h.reset (n := n) (by show 0 - 0 < n; omega)
    have hs : rb.reset.buf.size ≤ rb.buf.size := size_reset_le
    exact ⟨_, rfl, hr.wf, by rw [hr.unread, unread_reset, hempty], hr.fits,
      Nat.le_trans hr.size (by omega)⟩
  · exact ⟨_, rfl, makeRoom_roomy h hn⟩

theorem wf_resetIfDrained (h : rb.WF) : rb.resetIfDrained.WF := by
  unfold resetIfDrained
  split
  · exact h.reset
  · exact h

theorem unread_resetIfDrained : rb.resetIfDrained.unread = rb.unread := by
  unfold resetIfDrained
  split
  · rename_i h
    rw [unread_reset]
    show [] = rb.buf.slice rb.start rb.stop
    rw [h, Bytearray.slice_self]
  · rfl

end RecvBuf

end SeedLink
