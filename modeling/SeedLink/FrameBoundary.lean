import SeedLink.Frames

/-!
# Frame boundaries after a failure

When `recvFrame` raises a `SeedLinkError` and leaves the connection open, the stream should still
start at the frame's first byte. In v4 mode it does, since a frame is consumed whole. In v3 mode the
header is consumed first, and everything that can go wrong behind it without closing the connection
loses it: `keepsFrame_iff`.
-/

namespace SeedLink

open StateExc Client

theorem parseHeaderV3_error {buf : Bytes} {e : Exn} (h : parseHeaderV3 buf = .error e) :
    e.isSeedLinkError = true := by
  unfold parseHeaderV3 at h
  split at h
  · cases h; rfl
  · split at h
    · cases h
    · split at h
      · split at h <;> cases h
        rfl
      · cases h; rfl

section boundary
variable [Pymseed]

/-- A failure that leaves the connection open leaves the stream where it was. -/
def KeepsFrame (c : Client) : Prop :=
  ∀ e c', recvFrame c = .error (.raised e) c' → e.isSeedLinkError = true → c'.sock.isSome = true →
    c'.stream = c.stream

/-- A v3 frame is next whose header is refused, whose record length or record is refused, or behind
whose header the stream is silent until the timeout. -/
inductive LosesFrame (c : Client) : Prop
  | refused {s : Bytes} {later : List Recv} {e : Exn} {n : Nat} (h : c.Feeds s later)
      (hstall : Stalls c.deadline later) (hp : c.protocol ≠ some .v4) (ha : Announces s .packet)
      (hl : LosesV3 s e n)
  | timedOut {s : Bytes} {rest : List Recv} {header : HeaderV3} (h : c.Feeds s (.timeout :: rest))
      (hstall : Stalls c.deadline (.timeout :: rest)) (hp : c.protocol ≠ some .v4)
      (ha : Announces s .packet) (hlen : s.length = headsizeV3)
      (hh : parseHeaderV3 s = .ok header)

section exclusive
variable {s : Bytes} {e : Exn} {n : Nat}

theorem LosesV3.not_decodes (h : LosesV3 s e n) {frame : RawFrame} {n' : Nat} :
    ¬ DecodesV3 s frame n' := by
  intro hd
  obtain ⟨header', m', hp', hm', -, hf', -⟩ := hd.body
  cases h with
  | header _ h => rw [hp'] at h; cases h
  | length header _ hp h => rw [hm'] at h; cases h
  | record header m _ hp hm _ h =>
    obtain rfl : header = header' := Except.ok.inj (hp.symm.trans hp')
    obtain rfl : m = m' := Except.ok.inj (Option.some.inj (hm.symm.trans hm'))
    rw [hf'] at h
    cases h

theorem LosesV3.not_awaits (h : LosesV3 s e n) : ¬ AwaitsV3 s := by
  intro hw
  obtain ⟨header', hp'⟩ := hw.header
  cases h with
  | header _ h => rw [hp'] at h; cases h
  | length header _ hp h => obtain ⟨m, hm, -⟩ := hw.record _ h; cases hm
  | record header m _ hp hm hlen _ =>
    obtain ⟨m', hm', hlt⟩ := hw.record _ hm
    cases hm'
    omega

theorem AwaitsV3.not_decodes (h : AwaitsV3 s) {frame : RawFrame} {n' : Nat} :
    ¬ DecodesV3 s frame n' := by
  intro hd
  obtain ⟨header', m', -, hm', hlen, -, -⟩ := hd.body
  obtain ⟨m, hm, hlt⟩ := h.record _ hm'
  cases hm
  omega

theorem LosesV3.bounds (h : LosesV3 s e n) : headsizeV3 ≤ n ∧ n ≤ s.length := by
  have h8 : headsizeV3 = 8 := rfl
  cases h with
  | header hle _ => omega
  | length _ hle _ _ => omega
  | record header m hle _ _ hlen _ => rw [List.length_drop] at hlen; omega

theorem detectRecordLength_error {buf : Bytes} (h : detectRecordLength buf = .error e) :
    e.isSeedLinkError = true := by
  unfold detectRecordLength at h
  simp only at h
  split at h
  · cases h; rfl
  · split at h <;> cases h

theorem detectOn_error {fuel size : Nat} {r : Bytes} (h : detectOn fuel size r = some (.error e)) :
    e.isSeedLinkError = true := by
  induction fuel generalizing size with
  | zero => cases h
  | succ fuel ih =>
    rw [detectOn] at h
    split at h
    · cases h
    · split at h
      · rename_i e' hd
        obtain rfl : e' = e := Except.error.inj (Option.some.inj h)
        exact detectRecordLength_error hd
      · cases h
      · split at h
        · cases h; rfl
        · exact ih h

theorem decodeFrameV3_error {header : HeaderV3} {payload : Bytes}
    (h : decodeFrameV3 header payload = .error e) : e.isSeedLinkError = true := by
  have hinfo : ∀ e, extractInfoText payload = .error e → e.isSeedLinkError = true := by
    intro e h
    unfold extractInfoText at h
    split at h
    · cases h; rfl
    · split at h <;> cases h
      rfl
  have hrecord : ∀ e, parseRecord payload = .error e → e.isSeedLinkError = true := by
    intro e h
    unfold parseRecord at h
    split at h <;> cases h
    rfl
  unfold decodeFrameV3 at h
  split at h
  · cases ht : extractInfoText payload with
    | ok text => rw [ht] at h; cases h
    | error e' => rw [ht] at h; cases h; exact hinfo _ ht
  · cases hr : parseRecord payload with
    | ok record => rw [hr] at h; cases h
    | error e' => rw [hr] at h; cases h; exact hrecord _ hr

theorem LosesV3.isSeedLinkError (h : LosesV3 s e n) : e.isSeedLinkError = true := by
  cases h with
  | header _ h => exact parseHeaderV3_error h
  | length _ _ _ h => exact detectOn_error h
  | record _ _ _ _ _ _ h => exact decodeFrameV3_error h

end exclusive

variable {c : Client}

theorem keepsFrame_of_not_losesFrame (hk : c.cfg.transport = .socket) (hwf : c.rb.WF)
    (h : ¬ LosesFrame c) : KeepsFrame c := by
  intro e c' hrun he hopen
  cases hsk : c.sock with
  | none =>
    rw [recvFrame_of_not_connected hsk] at hrun
    cases hrun
    rw [hsk] at hopen
  | some sk =>
    obtain ⟨s, later, hf, hstall, -⟩ := Feeds.exists_of_at (c := c) ⟨hwf, rfl, sk, hsk, rfl⟩
    have hclosed : ∀ {s' later'}, ¬ (∃ rest, s' = [] ∧ later' = Recv.timeout :: rest ∧ c'.At [] rest) →
        ¬ ReadFails c s' later' (.raised e) c' := by
      intro s' later' hno hr
      cases hr with
      | closed _ _ hc => rw [sock_eq_none_of_closed hc] at hopen; cases hopen
      | timedOut _ hs hlater hat => exact hno ⟨_, hs, hlater, hat⟩
      | cancelled hk' => rw [hk] at hk'; cases hk'
    cases recvFrame_error hf hstall hrun with
    | read hr =>
      by_contra hne
      refine hclosed ?_ hr
      rintro ⟨rest, rfl, rfl, hat⟩
      exact hne (by rw [hf.stream, hat.stream]; rfl)
    | unexpected _ h' => rw [hf.stream, h'.stream]
    | rejected _ _ _ h' => rw [hf.stream, h'.stream]
    | lost hp ha hl => exact absurd (.refused hf hstall hp ha hl) h
    | awaiting hp ha hw hr =>
      exfalso
      refine hclosed ?_ hr
      rintro ⟨rest, hs, rfl, -⟩
      have hle := hw.header_le
      have hlen : s.length = headsizeV3 := by
        have := congrArg List.length hs
        rw [List.length_drop, List.length_nil] at this
        omega
      obtain ⟨header, hh⟩ := hw.header
      rw [List.take_of_length_le (Nat.le_of_eq hlen)] at hh
      exact h (.timedOut hf hstall hp ha hlen hh)

/-- A refused v3 frame: its failure is a `SeedLinkError`, the connection stays open, and the bytes
read so far are gone. -/
theorem not_keepsFrame_of_refused {s : Bytes} {later : List Recv} {e : Exn} {n : Nat}
    (hf : c.Feeds s later) (hstall : Stalls c.deadline later) (hp : c.protocol ≠ some .v4)
    (ha : Announces s .packet) (hl : LosesV3 s e n) : ¬ KeepsFrame c := by
  intro hkeep
  cases hrun : recvFrame c with
  | ok x c' =>
    obtain ⟨n', ht, -, -⟩ := recvFrame_ok hf hstall hrun
    cases ht with
    | endOfStream h => cases ha.unique (.endOfStream h)
    | reply h => cases ha.unique (.error h)
    | packetV4 hp' => exact hp hp'
    | packetV3 _ _ hd => exact hl.not_decodes hd
  | error stop c' =>
    cases recvFrame_error hf hstall hrun with
    | read _ _ hshort =>
      have hle := hl.bounds.2
      have hlt := (hshort ha).2 hp
      have := hl.bounds.1
      omega
    | unexpected hno => exact hno [] ⟨_, ha.append []⟩
    | rejected hp' => exact hp hp'
    | awaiting _ _ hw => exact hl.not_awaits hw
    | lost _ _ hl' h' hc =>
      have hs := hkeep _ c' hrun hl'.isSeedLinkError ((isSome_of_core hc).trans hf.isSome)
      rw [hf.stream, h'.stream, List.append_cancel_right_eq] at hs
      have hlen := congrArg List.length hs
      have hb := hl'.bounds
      have h8 : 0 < headsizeV3 := by decide
      rw [List.length_drop] at hlen
      omega

/-- Silence right behind a v3 header: the timeout finds nothing buffered and leaves the connection
open. -/
theorem not_keepsFrame_of_timedOut {s : Bytes} {rest : List Recv} {header : HeaderV3}
    (hk : c.cfg.transport = .socket) (hf : c.Feeds s (.timeout :: rest))
    (hstall : Stalls c.deadline (.timeout :: rest)) (hp : c.protocol ≠ some .v4)
    (ha : Announces s .packet) (hlen : s.length = headsizeV3) (hh : parseHeaderV3 s = .ok header) :
    ¬ KeepsFrame c := by
  intro hkeep
  have hdrop : s.drop headsizeV3 = [] := List.drop_of_length_le (Nat.le_of_eq hlen)
  have hawaits : AwaitsV3 s := by
    refine ⟨Nat.le_of_eq hlen.symm, ⟨header, ?_⟩, fun x hx => ?_⟩
    · rw [List.take_of_length_le (Nat.le_of_eq hlen), hh]
    · rw [hdrop] at hx
      cases hx
  cases hrun : recvFrame c with
  | ok x c' =>
    obtain ⟨n', ht, -, -⟩ := recvFrame_ok hf hstall hrun
    cases ht with
    | endOfStream h => cases ha.unique (.endOfStream h)
    | reply h => cases ha.unique (.error h)
    | packetV4 hp' => exact hp hp'
    | packetV3 _ _ hd => exact hawaits.not_decodes hd
  | error stop c' =>
    cases recvFrame_error hf hstall hrun with
    | read _ _ hshort =>
      have := (hshort ha).2 hp
      omega
    | unexpected hno => exact hno [] ⟨_, ha.append []⟩
    | rejected hp' => exact hp hp'
    | lost _ _ hl => exact hl.not_awaits hawaits
    | awaiting _ _ _ hr =>
      rw [hdrop] at hr
      cases hr with
      | closed _ hs => simp at hs
      | cancelled hk' => rw [hk] at hk'; cases hk'
      | blocked hlater => cases hlater
      | timedOut _ _ hlater hat hc =>
        cases hlater
        have hs := hkeep _ c' hrun rfl ((isSome_of_core hc).trans hf.isSome)
        rw [hf.stream, hat.stream, delivered_cons, Recv.bytes_timeout, List.nil_append] at hs
        have h8 : 0 < headsizeV3 := by decide
        have := congrArg List.length hs
        rw [List.length_append] at this
        omega

/-- On a socket client the frame is kept exactly where `LosesFrame` does not hold; in v4 mode it
never does. -/
theorem keepsFrame_iff (hk : c.cfg.transport = .socket) (hwf : c.rb.WF) :
    KeepsFrame c ↔ ¬ LosesFrame c := by
  refine ⟨fun hkeep hl => ?_, keepsFrame_of_not_losesFrame hk hwf⟩
  cases hl with
  | refused h hstall hp ha hl => exact not_keepsFrame_of_refused h hstall hp ha hl hkeep
  | timedOut h hstall hp ha hlen hh =>
    exact not_keepsFrame_of_timedOut hk h hstall hp ha hlen hh hkeep

end boundary

/-- A v3 header and nothing behind it until the timeout. -/
def headerThenSilence : Client := .listening .v3 [.data (Bytes.lit "SL000001"), .timeout]

theorem not_keepsFrame_headerThenSilence : ¬ @KeepsFrame Pymseed.bare headerThenSilence := by
  have hstall : Stalls headerThenSilence.deadline [.timeout] := by
    rintro ev ⟨⟩
    exact Bool.noConfusion
  have hfeeds : headerThenSilence.Feeds (Bytes.lit "SL000001") [.timeout] := by
    refine ⟨[], [.data (Bytes.lit "SL000001")], ⟨RecvBuf.wf_fresh, RecvBuf.unread_fresh, _, rfl, rfl⟩,
      ?_, rfl⟩
    rintro ev (_ | ⟨_, ⟨⟩⟩)
    exact List.cons_ne_nil _ _
  have hheader : parseHeaderV3 (Bytes.lit "SL000001") = .ok ⟨some 1, false, false⟩ := by rfl
  exact @not_keepsFrame_of_timedOut Pymseed.bare _ _ _ _ rfl hfeeds hstall (by decide)
    (.packet (.inl (by decide))) rfl hheader

theorem keepsFrame_iff_headerThenSilence :
    @KeepsFrame Pymseed.bare headerThenSilence ↔ ¬ @LosesFrame Pymseed.bare headerThenSilence :=
  @keepsFrame_iff Pymseed.bare headerThenSilence rfl RecvBuf.wf_fresh

end SeedLink
