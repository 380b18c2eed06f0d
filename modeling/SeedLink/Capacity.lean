import SeedLink.Servers
import SeedLink.Steady

/-!
# The size of the receive buffer

The buffer grows by what a read asks for. Lines, v4 headers and v4 frames are bounded before they are
asked for, and so is every look at the start of a v3 record; the length that the detector then gives is
not. As long as it is at most that of two v4 frames, and does not grow a buffer that is larger than one,
the buffer never gets larger than two such frames (`Reached.capacity_le`).
-/

namespace SeedLink

open StateExc Client

/-- The largest v4 frame. -/
def maxFrame : Nat := headsizeV4 + maxStationid + maxPayloadSize

def Client.capacity (c : Client) : Nat := c.rb.buf.size

/-! ### One read -/

theorem RecvBuf.size_makeRoom (n : Nat) (rb : RecvBuf) :
    (RecvBuf.makeRoom n rb).buf.size = if n > rb.buf.size then max n (rb.buf.size * 2) else rb.buf.size := by
  unfold RecvBuf.makeRoom
  simp only
  split
  · rfl
  · split <;> rfl

/-- How large the buffer of `c'` can be when `c` has made room for `n` bytes. -/
def Client.Grows (n : Nat) (c c' : Client) : Prop :=
  recvBufSize ≤ c.capacity → recvBufSize ≤ c'.capacity ∧ (c'.capacity = c.capacity ∨
    c'.capacity = recvBufSize ∨ (c.capacity < n ∧ c'.capacity = max n (c.capacity * 2)))

theorem RecvBuf.size_prepareRoom_eq {rb : RecvBuf} (h : recvBufSize ≤ rb.buf.size) (n : Nat) :
    (rb.prepareRoom n).2.buf.size = rb.buf.size ∨ (rb.prepareRoom n).2.buf.size = recvBufSize ∨
      (rb.buf.size < n ∧ (rb.prepareRoom n).2.buf.size = max n (rb.buf.size * 2)) := by
  unfold RecvBuf.prepareRoom
  split
  · exact .inl rfl
  split
  · rename_i hn
    right; left
    show (RecvBuf.makeRoom n rb.reset).buf.size = _
    rw [RecvBuf.size_makeRoom, RecvBuf.size_reset h, if_neg (by omega)]
  · show (RecvBuf.makeRoom n rb).buf.size = _ ∨ (RecvBuf.makeRoom n rb).buf.size = _ ∨
      _ ∧ (RecvBuf.makeRoom n rb).buf.size = _
    rw [RecvBuf.size_makeRoom]
    split
    · exact .inr (.inr ⟨‹_›, rfl⟩)
    · exact .inl rfl

theorem grows_ensure (n : Nat) : Keeps (Client.Grows n) (ensure n) := by
  refine keeps_ensure fun c c' h hc => ?_
  have hroom := @RecvBuf.size_prepareRoom c.rb n hc
  have heq := RecvBuf.size_prepareRoom_eq hc n
  rcases h.size with h | h | ⟨rb, hrb, h⟩
  · exact ⟨hc.trans_eq h.symm, .inl h⟩
  · rw [Client.capacity, h]
    exact ⟨hroom, heq⟩
  · have hreset : c'.capacity = recvBufSize := by
      rw [Client.capacity, h, RecvBuf.size_reset (hrb ▸ hroom)]
    exact ⟨hreset.ge, .inr (.inl hreset)⟩

/-! ### Bounded reads -/

/-- The buffer of `c'` is as large as that of `c`, or no larger than `N`. -/
def Client.Within (N : Nat) (c c' : Client) : Prop :=
  recvBufSize ≤ c.capacity →
    recvBufSize ≤ c'.capacity ∧ (c'.capacity = c.capacity ∨ c'.capacity ≤ N)

instance (N : Nat) : IsPreorder Client (Client.Within N) where
  refl _ h := ⟨h, .inl rfl⟩
  trans _ _ _ h h' h₀ := by
    obtain ⟨h₁, hc₁⟩ := h h₀
    obtain ⟨h₂, hc₂⟩ := h' h₁
    refine ⟨h₂, ?_⟩
    rcases hc₂ with hc₂ | hc₂
    · rw [hc₂]; exact hc₁
    · exact .inr hc₂

section within
variable {N n : Nat}

theorem Client.within_of_size {c c' : Client} (h : c'.rb.buf.size = c.rb.buf.size) : c.Within N c' :=
  fun h₀ => ⟨h₀.trans_eq h.symm, .inl h⟩

theorem Client.within_of_reset (hN : recvBufSize ≤ N) {c c' : Client} (h : c'.rb = c.rb.reset) :
    c.Within N c' := by
  intro h₀
  have hreset : c'.capacity = recvBufSize := by rw [Client.capacity, h, RecvBuf.size_reset h₀]
  exact ⟨hreset ▸ Nat.le_refl _, .inr (hreset ▸ hN)⟩

variable (hN : recvBufSize ≤ N)
include hN

theorem within_ensure (hn : 2 * n ≤ N) : Keeps (Client.Within N) (ensure n) := by
  intro c
  refine wp_mono (grows_ensure n c) (fun _ c' h h₀ => ?_) fun _ c' h h₀ => ?_
  all_goals
    obtain ⟨h₁, h₂⟩ := h h₀
    refine ⟨h₁, ?_⟩
    omega

theorem within_peek (hn : 2 * n ≤ N) : Keeps (Client.Within N) (peek n) :=
  .bind (within_ensure hN hn) fun _ => keeps_buffered 0 n

theorem within_take (hn : 2 * n ≤ N) : Keeps (Client.Within N) (take n) :=
  .bind (within_ensure hN hn) fun _ => .bind (keeps_buffered 0 n) fun _ =>
    .bind (.modify fun _ => Client.within_of_size rfl) fun _ => .pure _

/-- A line that is still incomplete is shorter than a line may be. -/
theorem within_readLineLoop (hmax : 2 * maxLineLen ≤ N) : ∀ fuel searchFrom,
    Keeps (Client.Within N) (readLineLoop fuel searchFrom)
  | 0, _ => .throw _
  | fuel + 1, searchFrom => by
    intro c
    simp only [readLineLoop, wp_bind, wp_get]
    rcases hscan : scanLine c.rb.buf c.rb.start c.rb.stop searchFrom with e | _ | ⟨line, newStart⟩
    · simp only [wp_bind, wp_close, wp_raise]
      exact Client.within_of_reset hN rfl
    · have hshort : c.rb.available < maxLineLen := by
        unfold scanLine at hscan
        split at hscan
        · split at hscan
          · cases hscan
          · exact Nat.lt_of_not_ge ‹_›
        · split at hscan <;> cases hscan
      have hloop := (within_ensure hN (n := c.rb.available + 1) (by omega)).bind fun _ =>
        within_readLineLoop hmax fuel (c.rb.available - 1)
      exact hloop c
    · simp only [wp_bind, wp_modify, wp_pure]
      exact Client.within_of_size rfl

theorem within_readLine (hmax : 2 * maxLineLen ≤ N) : Keeps (Client.Within N) readLine :=
  within_readLineLoop hN hmax _ _

theorem within_classifyNext : Keeps (Client.Within N) classifyNext := by
  have h2 : 2 * 5 ≤ N := Nat.le_trans (by decide) hN
  refine .bind (within_ensure hN (by omega)) fun _ => .bind .get fun c => .ite (.pure _)
    (.ite ?_ keeps_unexpectedData)
  refine .bind (within_peek hN (by omega)) fun three => .ite (.pure _) (.ite ?_ (.ite (.pure _) keeps_unexpectedData))
  exact .bind (within_peek hN h2) fun five => .ite (.pure _) keeps_unexpectedData

end within

theorem total_le_of_parseHeaderV4 {head : Bytes} {header : HeaderV4} (h : parseHeaderV4 head = .ok header) :
    header.total ≤ maxFrame := by
  obtain ⟨hlen, hsid, -⟩ := parseHeaderV4_ok h
  unfold HeaderV4.total maxFrame
  omega

/-- A v4 frame is bounded by its header. -/
theorem within_recvFrameV4 : Keeps (Client.Within (2 * maxFrame)) recvFrameV4 := by
  have hN : recvBufSize ≤ 2 * maxFrame := by decide
  refine .bind (within_ensure hN (by decide)) fun _ => .bind (keeps_buffered _ _) fun head => ?_
  cases hp : parseHeaderV4 head with
  | error e => exact keeps_raise e
  | ok header =>
    have htotal := total_le_of_parseHeaderV4 hp
    have hrest : Keeps (Client.Within (2 * maxFrame)) (do
        ensure header.total
        let c ← get
        let frame ← liftExcept (decodeFrameV4Body c.rb.buf c.rb.start header)
        consume header.total
        return frame) :=
      .bind (within_ensure hN (by omega)) fun _ => .bind .get fun _ => .bind (keeps_liftExcept _) fun _ =>
        .bind (.modify fun _ => Client.within_of_size rfl) fun _ => .pure _
    exact hrest

/-! ### v3 frames -/

/-- A record of `n` bytes does not make the buffer outgrow two v4 frames. -/
def Client.Fits (c : Client) (n : Nat) : Prop := n ≤ 2 * maxFrame ∧ (c.capacity ≤ maxFrame ∨ n ≤ c.capacity)

/-- The buffer has its least size and is not larger than two v4 frames. -/
def Client.Bounded (c : Client) : Prop := recvBufSize ≤ c.capacity ∧ c.capacity ≤ 2 * maxFrame

/-- However `x` ends, the buffer is bounded. -/
abbrev Bounds {α : Type} (x : ClientM α) (c : Client) : Prop :=
  wp x (fun _ => Client.Bounded) (fun _ => Client.Bounded) c

theorem Client.Within.bounded {N : Nat} {c c' : Client} (h : c.Within N c') (hN : N ≤ 2 * maxFrame)
    (hc : c.Bounded) : c'.Bounded := by
  obtain ⟨hge, hle⟩ := h hc.1
  refine ⟨hge, ?_⟩
  rcases hle with hle | hle
  · exact hle.trans_le hc.2
  · exact hle.trans hN

theorem Client.Within.fits {N n : Nat} {c c' : Client} (h : c.Within N c') (hN : N ≤ maxFrame)
    (hc : c.Bounded) (hn : c.Fits n) : c'.Fits n := by
  obtain ⟨-, hle⟩ := h hc.1
  refine ⟨hn.1, ?_⟩
  rcases hle with hle | hle
  · rw [hle]; exact hn.2
  · exact .inl (hle.trans hN)

theorem bounds_of_within {α : Type} {x : ClientM α} {N : Nat} (hx : Keeps (Client.Within N) x)
    (hN : N ≤ 2 * maxFrame) {c : Client} (hc : c.Bounded) : Bounds x c :=
  wp_mono (hx c) (fun _ _ h => h.bounded hN hc) fun _ _ h => h.bounded hN hc

theorem bounds_take {c : Client} {n : Nat} (hc : c.Bounded) (hn : c.Fits n) : Bounds (take n) c := by
  have hgrows : ∀ c' : Client, c.Grows n c' → c'.Bounded := by
    intro c' h
    obtain ⟨hge, hle⟩ := h hc.1
    have hbuf : recvBufSize ≤ maxFrame := by decide
    have hmax := hc.2
    obtain ⟨hn, hfits⟩ := hn
    exact ⟨hge, by omega⟩
  simp only [take, wp_bind, wp_pure]
  exact wp_mono (grows_ensure n c) (fun _ c' h => hgrows c' h) fun _ c' h => hgrows c' h

section framesV3
variable [Pymseed] {c : Client} {s : Bytes} {later : List Recv}

theorem bounds_readMseedPayloadLoop : ∀ (fuel size : Nat) {c : Client}, c.Feeds s later →
    Stalls c.deadline later → size ≤ maxRecordLen → c.Bounded →
    (∀ n, detectOn fuel size s = some (.ok n) → c.Fits n) → Bounds (readMseedPayloadLoop fuel size) c
  | 0, _, _, _, _, _, hc, _ => hc
  | fuel + 1, size, c, h, hstall, hsize, hc, hfits => by
    have hbuf : recvBufSize ≤ 2 * maxRecordLen := by decide
    have hlen : 2 * maxRecordLen ≤ maxFrame := by decide
    have hlen' : 2 * maxRecordLen ≤ 2 * maxFrame := by decide
    rw [readMseedPayloadLoop, Bounds, wp_bind]
    have hwithin := within_peek hbuf (n := size) (by omega) c
    refine wp_mono (wp_and hwithin (wp_peek h hstall (Q := fun start c' => start = s.take size ∧
      size ≤ s.length ∧ c'.Feeds s later ∧ c'.core = c.core) (fun c' h' hc' hav => ?_) fun _ _ _ _ => trivial))
      (fun start c₁ hr => ?_) fun _ _ hr => hr.1.bounded hlen' hc
    · exact ⟨rfl, hav.trans h'.available_le, h', hc'⟩
    obtain ⟨hw, rfl, hle, h₁, hcore⟩ := hr
    have hc₁ := hw.bounded hlen' hc
    rw [detectOn, if_neg (by omega)] at hfits
    rcases hd : detectRecordLength (s.take size) with e | _ | reclen
    · exact hc₁
    · rw [hd] at hfits
      simp only at hfits
      rw [wp_ite]
      split
      · exact hc₁
      · rename_i hmax
        rw [if_neg hmax] at hfits
        exact bounds_readMseedPayloadLoop fuel _ h₁ (deadline_of_core hcore ▸ hstall) (Nat.min_le_right _ _) hc₁
          fun n hn => hw.fits hlen hc (hfits n hn)
    · rw [hd] at hfits
      exact bounds_take hc₁ (hw.fits hlen hc (hfits reclen rfl))

/-- The front of the stream is a v3 header, and the record behind it is said to be `n` bytes long. -/
structure DeclaresV3 (s : Bytes) (n : Nat) : Prop where
  announces : Announces s .packet
  header_le : headsizeV3 ≤ s.length
  header : ∃ header, parseHeaderV3 (s.take headsizeV3) = .ok header
  record : recordLength (s.drop headsizeV3) = some (.ok n)

theorem DeclaresV3.append {n : Nat} (h : DeclaresV3 s n) (t : Bytes) : DeclaresV3 (s ++ t) n := by
  obtain ⟨ha, hle, ⟨header, hh⟩, hr⟩ := h
  refine ⟨ha.append t, by rw [List.length_append]; omega, ⟨header, ?_⟩, ?_⟩
  · rwa [List.take_append_of_le_length hle]
  · rw [List.drop_append_of_le_length hle]
    exact detectOn_append t hr

theorem bounds_recvFrameV3 (h : c.Feeds s later) (hstall : Stalls c.deadline later) (ha : Announces s .packet)
    (hc : c.Bounded) (hfits : ∀ n, DeclaresV3 s n → c.Fits n) : Bounds recvFrameV3 c := by
  have hbuf : recvBufSize ≤ recvBufSize := Nat.le_refl _
  have hlen : recvBufSize ≤ maxFrame := by decide
  have hlen' : recvBufSize ≤ 2 * maxFrame := by decide
  rw [recvFrameV3, Bounds, wp_bind]
  refine wp_mono (wp_and (within_take hbuf (n := headsizeV3) (by decide) c) (wp_take h hstall
    (Q := fun head c' => head = s.take headsizeV3 ∧ headsizeV3 ≤ s.length ∧
      c'.Feeds (s.drop headsizeV3) later ∧ c'.core = c.core)
    (fun hle c' h' hc' => ⟨rfl, hle, h', hc'⟩) fun _ _ _ _ => trivial)) (fun head c₁ hr => ?_)
    fun _ _ hr => hr.1.bounded hlen' hc
  obtain ⟨hw, rfl, hle, h₁, hcore⟩ := hr
  have hc₁ := hw.bounded hlen' hc
  rw [wp_bind, wp_liftExcept]
  cases hp : parseHeaderV3 (s.take headsizeV3) with
  | error e => exact hc₁
  | ok header =>
    simp only [wp_bind, wp_liftExcept]
    refine wp_mono (bounds_readMseedPayloadLoop _ _ h₁ (deadline_of_core hcore ▸ hstall) (by decide) hc₁
      fun n hn => hw.fits hlen hc (hfits n ⟨ha, hle, ⟨header, hp⟩, hn⟩)) (fun payload c₂ hc₂ => ?_) fun _ _ hc₂ => hc₂
    cases decodeFrameV3 header payload <;> exact hc₂

end framesV3

/-! ### Calls -/

section calls
variable [Pymseed] {c : Client}

/-- The next frame of the client's stream is a v3 frame with a record of `n` bytes. -/
def Client.Declares (c : Client) (n : Nat) : Prop :=
  c.protocol ≠ some .v4 ∧ ∃ s later, c.Feeds s later ∧ DeclaresV3 s n

/-- What the next frame declares fits. -/
def Client.Capped (c : Client) : Prop := ∀ n, c.Declares n → c.Fits n

theorem bounds_recvFrame {s : Bytes} {later : List Recv} (h : c.Feeds s later)
    (hstall : Stalls c.deadline later) (hc : c.Bounded) (hcap : c.Capped) : Bounds recvFrame c := by
  have hbuf : recvBufSize ≤ recvBufSize := Nat.le_refl _
  have hlen : recvBufSize ≤ maxFrame := by decide
  have hlen' : recvBufSize ≤ 2 * maxFrame := by decide
  simp only [recvFrame, Bounds, wp_bind, wp_modify, wp_pure]
  refine wp_mono (wp_and (within_classifyNext hbuf c) (wp_classifyNext h (.inr ⟨hstall, fun _ _ _ _ => trivial,
    fun _ _ _ _ _ => trivial⟩) (Q := fun ev c' => Announces s ev ∧ c'.Feeds s later ∧ c'.core = c.core)
      fun ev c' ha h' hc' => ⟨ha, h', hc'⟩)) (fun ev c₁ hr => ?_) fun _ _ hr => hr.1.bounded hlen' hc
  obtain ⟨hw, ha, h₁, hcore⟩ := hr
  have hc₁ := hw.bounded hlen' hc
  have hevent : Bounds (recvEvent ev) c₁ := by
    cases ha with
    | endOfStream =>
      exact bounds_of_within (.bind (within_take hbuf (by decide)) fun _ => .pure _) hlen' hc₁
    | error =>
      exact bounds_of_within (.bind (within_readLine hbuf (by decide)) fun _ => .pure _) hlen' hc₁
    | packet hsig =>
      simp only [recvEvent, Bounds, wp_bind, wp_get, wp_pure, wp_ite]
      split
      · exact bounds_of_within within_recvFrameV4 (Nat.le_refl _) hc₁
      · rename_i hp
        rw [protocol_of_core hcore] at hp
        exact bounds_recvFrameV3 h₁ (deadline_of_core hcore ▸ hstall) (.packet hsig) hc₁
          fun n hn => hw.fits hlen hc (hcap n ⟨hp, s, later, h, hn⟩)
  refine wp_mono hevent (fun _ c₂ hc₂ => ?_) fun _ _ hc₂ => hc₂
  refine Client.Within.bounded (N := recvBufSize) ?_ hlen' hc₂
  by_cases hdrained : c₂.rb.start = c₂.rb.stop
  · exact Client.within_of_reset hbuf (if_pos hdrained)
  · exact Client.within_of_size (by simp only [RecvBuf.resetIfDrained, if_neg hdrained])

end calls

/-! ### Runs -/

/-- The first `k` events, and `j` bytes of the next. -/
def cutEvents (k j : Nat) (evs : List Recv) : List Recv :=
  evs.take k ++
    match evs[k]?, j with
    | some (.data chunk), j + 1 => [.data (chunk.take (j + 1))]
    | _, _ => []

theorem eq_of_cutEvents {k j : Nat} {evs now later : List Recv} (h : cutEvents k j evs = now ++ later) :
    (∃ rest, evs = now ++ rest) ∨
      ∃ first chunk m rest, now = first ++ [.data (chunk.take m)] ∧ evs = first ++ .data chunk :: rest := by
  have hfront : ∀ {l : List Recv}, evs.take k = now ++ l → ∃ rest, evs = now ++ rest := by
    intro l hl
    exact ⟨l ++ evs.drop k, by rw [← List.append_assoc, ← hl, List.take_append_drop]⟩
  unfold cutEvents at h
  split at h
  · rename_i chunk j hk
    rcases List.append_eq_append_iff.1 h with ⟨a, rfl, ha⟩ | ⟨l, hl, -⟩
    · rcases List.append_eq_cons_iff.1 ha.symm with ⟨rfl, -⟩ | ⟨b, rfl, hb⟩
      · exact .inl ⟨evs.drop k, by rw [List.append_nil, List.take_append_drop]⟩
      · obtain ⟨rfl, -⟩ := List.append_eq_nil_iff.1 hb.symm
        obtain ⟨hlt, hget⟩ := List.getElem?_eq_some_iff.1 hk
        refine .inr ⟨evs.take k, chunk, j + 1, evs.drop (k + 1), rfl, ?_⟩
        rw [← hget, List.cons_getElem_drop_succ, List.take_append_drop]
    · exact .inl (hfront hl)
  · rw [List.append_nil] at h
    exact .inl (hfront h)

/-- The client where the server falls silent after the first `k` events and `j` bytes. -/
def Client.cut (k j : Nat) (c : Client) : Client :=
  { c with sock := c.sock.map fun sk => { sk with incoming := cutEvents k j sk.incoming } }

theorem Client.Feeds.of_cut {c : Client} {k j : Nat} {s : Bytes} {later : List Recv}
    (h : (c.cut k j).Feeds s later) : ∃ t later', c.Feeds (s ++ t) later' := by
  obtain ⟨u, now, ⟨hwf, hu, sk', hsk', hin⟩, hnow, rfl⟩ := h
  obtain ⟨sk, hsk, rfl⟩ := Option.map_eq_some_iff.1 hsk'
  rcases eq_of_cutEvents hin with ⟨rest, hevs⟩ | ⟨first, chunk, m, rest, rfl, hevs⟩
  · exact ⟨[], rest, u, now, ⟨hwf, hu, sk, hsk, hevs⟩, hnow, (List.append_nil _).symm⟩
  · refine ⟨chunk.drop m, rest, u, first ++ [.data chunk], ⟨hwf, hu, sk, hsk, by simpa using hevs⟩, ?_, ?_⟩
    · intro ev hev
      rcases List.mem_append.1 hev with hev | hev
      · exact hnow ev (List.mem_append_left _ hev)
      · obtain rfl := List.mem_singleton.1 hev
        have hne : chunk.take m ≠ [] := hnow _ (List.mem_append_right _ List.mem_cons_self)
        exact fun h0 => hne (by rw [h0, List.take_nil])
    · simp

section runs
variable [Pymseed] {c : Client} {may : Client → Prop}

/-- The states of a client that calls `recvFrame` where `may` allows it and `readLine`, polls, and
otherwise keeps its buffer or resets it. A call is also followed into each of its reads, as the one to
which the server sends nothing more. -/
inductive Reached (may : Client → Prop) : Client → Prop
  | opened {c : Client} (hrb : c.rb = .fresh) : Reached may c
  | recvFrame {c : Client} (h : Reached may c) (hmay : may c) (k j : Nat) :
      Reached may ((c.cut k j).behind recvFrame)
  | readLine {c : Client} (h : Reached may c) (k j : Nat) : Reached may ((c.cut k j).behind readLine)
  | poll {c : Client} (h : Reached may c) (k j : Nat) : Reached may ((c.cut k j).behind (ensure 1))
  | reset {c c' : Client} (h : Reached may c) (hrb : c'.rb = c.rb.reset) : Reached may c'
  | kept {c c' : Client} (h : Reached may c) (hrb : c'.rb = c.rb)
      (hsock : c'.sock.isSome = true → c.sock.isSome = true) : Reached may c'

/-- What holds of such a client when every frame it receives fits. -/
structure Client.Sound (c : Client) : Prop where
  bounded : c.Bounded
  wf : c.sock.isSome = true → c.rb.WF

omit [Pymseed] in
/-- A call that only reads, is bounded, and leaves a well-formed buffer to a client with a connection. -/
theorem sound_of_reads {α : Type} {x : ClientM α} (hc : c.Sound) (hreads : Keeps Client.OnlyReads x)
    (hwf : ∀ s later, c.Feeds s later → Stalls c.deadline later →
      Bounds x c ∧ wp x (fun _ c' => c'.rb.WF) (fun _ c' => c'.rb.WF) c)
    (hbound : c.sock = none → Bounds x c) : (c.behind x).Sound := by
  refine behind_of_wp ?_
  cases hsk : c.sock with
  | none =>
    refine wp_mono (wp_and (hbound hsk) (hreads c)) (fun _ c' h => ⟨h.1, fun hs => ?_⟩)
      fun _ c' h => ⟨h.1, fun hs => ?_⟩
    all_goals
      obtain ⟨sk', hsk'⟩ := Option.isSome_iff_exists.1 hs
      obtain ⟨sk, hsk₀, -⟩ := h.2 sk' hsk'
      rw [hsk] at hsk₀
      cases hsk₀
  | some sk =>
    have hsome : c.sock.isSome = true := by rw [hsk]; rfl
    obtain ⟨s, later, h, hstall⟩ := Client.exists_feeds (hc.wf hsome) hsome
    obtain ⟨hbound, hwf⟩ := hwf s later h hstall
    exact wp_mono (wp_and hbound hwf) (fun _ _ h => ⟨h.1, fun _ => h.2⟩) fun _ _ h => ⟨h.1, fun _ => h.2⟩

theorem Client.Capped.cut {k j : Nat} (h : c.Capped) : (c.cut k j).Capped := by
  rintro n ⟨hp, s, later, hf, hd⟩
  obtain ⟨t, later', hf'⟩ := hf.of_cut
  exact h n ⟨hp, _, later', hf', hd.append t⟩

omit [Pymseed] in
theorem Client.Sound.cut {k j : Nat} (h : c.Sound) : (c.cut k j).Sound :=
  ⟨h.bounded, fun hs => h.wf (by rwa [Client.cut, Option.isSome_map] at hs)⟩

theorem sound_recvFrame (hc : c.Sound) (hcap : c.Capped) : (c.behind recvFrame).Sound := by
  refine sound_of_reads hc onlyReads.reading.recvFrame
    (fun s later h hstall => ⟨bounds_recvFrame h hstall hc.bounded hcap, ?_⟩)
    fun hsk => ?_
  · exact wp_mono (wp_recvFrame_total h hstall) (fun _ _ ⟨_, _, h', _⟩ => h'.wf) fun _ _ hf => hf.wf
  · exact (wp_iff_of_error (recvFrame_of_not_connected hsk)).2 hc.bounded

omit [Pymseed] in
theorem sound_readLine (hc : c.Sound) : (c.behind readLine).Sound := by
  have hbound : Bounds readLine c :=
    bounds_of_within (within_readLine (N := recvBufSize) (Nat.le_refl _) (by decide)) (by decide) hc.bounded
  refine sound_of_reads hc onlyReads.reading.readLine (fun s later h hstall => ⟨hbound, ?_⟩) fun _ => hbound
  exact wp_readLine h hstall (fun _ _ _ _ _ h' _ => h'.wf) fun _ _ hf => hf.wf

omit [Pymseed] in
theorem sound_poll (hc : c.Sound) : (c.behind (ensure 1)).Sound := by
  have hbound : Bounds (ensure 1) c :=
    bounds_of_within (within_ensure (N := recvBufSize) (Nat.le_refl _) (by decide)) (by decide) hc.bounded
  refine sound_of_reads hc (onlyReads.ensure 1) (fun s later h hstall => ⟨hbound, ?_⟩) fun _ => hbound
  exact wp_ensure h hstall (fun _ h' _ _ => h'.wf) fun _ _ hf _ => hf.wf

theorem Reached.sound (h : Reached Client.Capped c) : c.Sound := by
  induction h with
  | opened hrb =>
    have hsize : recvBufSize ≤ 2 * maxFrame := by decide
    refine ⟨⟨?_, ?_⟩, fun _ => hrb ▸ RecvBuf.wf_fresh⟩
    · rw [Client.capacity, hrb]; exact Nat.le_refl _
    · rw [Client.capacity, hrb]; exact hsize
  | recvFrame _ hmay k j ih => exact sound_recvFrame ih.cut hmay.cut
  | readLine _ k j ih => exact sound_readLine ih.cut
  | poll _ k j ih => exact sound_poll ih.cut
  | @reset c c' _ hrb ih =>
    have hwithin : c.Within recvBufSize c' := Client.within_of_reset (Nat.le_refl _) hrb
    refine ⟨hwithin.bounded (by decide) ih.bounded, fun _ => ?_⟩
    rw [hrb]
    exact ⟨Nat.le_refl _, Nat.zero_le _, RecvBuf.size_reset_ge ih.bounded.1⟩
  | @kept c c' _ hrb hsock ih =>
    have hwithin : c.Within recvBufSize c' := Client.within_of_size (by rw [hrb])
    exact ⟨hwithin.bounded (by decide) ih.bounded, fun hs => hrb ▸ ih.wf (hsock hs)⟩

/-- As long as the records that v3 frames declare fit, the buffer never gets larger than two v4 frames. -/
theorem Reached.capacity_le (h : Reached Client.Capped c) : c.capacity ≤ 2 * maxFrame := h.sound.bounded.2

theorem Client.Declares.stream {n : Nat} (h : c.Declares n) : DeclaresV3 c.stream n := by
  obtain ⟨-, s, later, hf, hd⟩ := h
  exact hf.stream ▸ hd.append _

end runs

/-- miniSEED 3 records as their headers declare them. -/
abbrev Pymseed.miniseed3 : Pymseed :=
  { Pymseed.bare with
    ms3Detect := fun buf =>
      if buf.take 3 ≠ Bytes.lit "MS" ++ [3] then -1
      else if buf.length < 40 then 0
      else 40 + (buf.getD 33 0).toNat + Bytes.leNat ((buf.drop 34).take 2) + Bytes.leNat ((buf.drop 36).take 4) }

/-- A packet with the start of a record that declares so many bytes of data. -/
def declaring (length : Nat) : Bytes :=
  Bytes.lit "SL000001MS" ++ [3] ++ List.replicate 30 0 ++ [13, 0, 0] ++ Bytes.leBytes 4 length ++
    Bytes.lit "FDSN:XX_ABC__" ++ List.replicate 11 0

def clientDeclaring (length : Nat) : Client := .listening .v3 [.data (declaring length)]

/-- A record of a kibibyte, of which only the first bytes come. -/
theorem capacity_le_declaring :
    (((clientDeclaring 1024).cut 1 0).behind (@recvFrame Pymseed.miniseed3)).capacity ≤ 2 * maxFrame := by
  have hrecord : @recordLength Pymseed.miniseed3 ((clientDeclaring 1024).stream.drop headsizeV3) = some (.ok 1077) := by
    decide +kernel
  let _ : Pymseed := Pymseed.miniseed3
  have hcap : Client.Capped (clientDeclaring 1024) := by
    intro n hn
    have hn' := hn.stream.record
    rw [hrecord] at hn'
    obtain rfl : 1077 = n := Except.ok.inj (Option.some.inj hn')
    exact ⟨by decide, .inl (by decide)⟩
  exact Reached.capacity_le (.recvFrame (.opened rfl) hcap 1 0)

/-- A record header that declares a gibibyte makes the buffer that large. -/
theorem capacity_declaring_gibibyte :
    ¬ ∀ c : Client, @Reached Pymseed.miniseed3 (fun _ => True) c → c.capacity ≤ 2 * maxFrame := by
  intro h
  let _ : Pymseed := Pymseed.miniseed3
  have hle := h _ (.recvFrame (c := clientDeclaring (2 ^ 30)) (.opened rfl) trivial 1 0)
  have hlarge : (((clientDeclaring (2 ^ 30)).cut 1 0).behind (@recvFrame Pymseed.miniseed3)).capacity = 2 ^ 30 + 53 := by
    decide +kernel
  rw [hlarge] at hle
  exact absurd hle (by decide)

end SeedLink
