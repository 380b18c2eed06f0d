import SeedLink.Client
import SeedLink.Feeds

/-!
# Reading frames

What the frame readers make of a stream that begins with the bytes `s`. Each lemma has two ways to
be used: where `s` holds the whole item nothing has to be known of the events behind it, and where
they stall, every way the reader can fail is told.
-/

namespace SeedLink

open StateExc Client

/-- What the first bytes of a stream announce. -/
inductive Announces (s : Bytes) : StreamEvent → Prop
  | packet (h : signatureV3 <+: s ∨ signatureV4 <+: s) : Announces s .packet
  | endOfStream (h : Bytes.lit "END" <+: s) : Announces s .endOfStream
  | error (h : Bytes.lit "ERROR" <+: s) : Announces s .error

section classify
variable {c : Client} {s : Bytes} {later : List Recv} {E : Stop → Client → Prop}

theorem isPacketSignature_iff {first second : UInt8} {t : Bytes} :
    isPacketSignature first second = true ↔
      signatureV3 <+: first :: second :: t ∨ signatureV4 <+: first :: second :: t := by
  have h3 : signatureV3 = [83, 76] := by decide
  have h4 : signatureV4 = [83, 69] := by decide
  rw [h3, h4]
  simp only [isPacketSignature, List.cons_prefix_cons, List.nil_prefix, and_true, Bool.and_eq_true,
    Bool.or_eq_true, decide_eq_true_eq]
  grind

theorem signature_not_prefix {t : Bytes} : ¬ signatureV3 <+: 69 :: t ∧ ¬ signatureV4 <+: 69 :: t := by
  have h3 : signatureV3 = [83, 76] := by decide
  have h4 : signatureV4 = [83, 69] := by decide
  rw [h3, h4]
  simp [List.cons_prefix_cons]

theorem classifyStreamPrefix_take {t : Bytes} {n : Nat} (hn : 3 ≤ n) :
    classifyStreamPrefix ((69 :: t).take n) =
      if Bytes.lit "END" <+: 69 :: t then .endOfStream
      else if Bytes.lit "ERROR" <+: 69 :: t ∧ 5 ≤ n then .error else .other := by
  obtain ⟨hs3, hs4⟩ := signature_not_prefix (t := t)
  have hend : (Bytes.lit "END").length ≤ n := hn
  have herr : (Bytes.lit "ERROR").length = 5 := rfl
  simp only [classifyStreamPrefix, List.isPrefixOf_iff_prefix, List.prefix_take_iff, hend, and_true,
    herr, hs3, hs4, false_and, Bool.or_eq_true, or_self, if_false]

theorem wp_unexpectedData {Q : StreamEvent → Client → Prop} (h : c.Feeds s later)
    (hav : 2 ≤ c.rb.available)
    (hE : ∀ m c', c'.Feeds s later → c'.core = c.core → E (.raised (seedLinkError m)) c') :
    wp unexpectedData Q E c := by
  rw [unexpectedData, wp_bind]
  exact wp_buffered h hav (hE _ c h rfl)

theorem Announces.two_le {ev : StreamEvent} (h : Announces s ev) : 2 ≤ s.length := by
  cases h with
  | packet h => rcases h with h | h <;> exact h.length_le
  | endOfStream h => exact Nat.le_trans (by decide) h.length_le
  | error h => exact Nat.le_trans (by decide) h.length_le

theorem Announces.append {ev : StreamEvent} (h : Announces s ev) (t : Bytes) : Announces (s ++ t) ev := by
  cases h with
  | packet h => exact .packet (h.imp (·.trans (List.prefix_append _ _)) (·.trans (List.prefix_append _ _)))
  | endOfStream h => exact .endOfStream (h.trans (List.prefix_append _ _))
  | error h => exact .error (h.trans (List.prefix_append _ _))

theorem Client.Feeds.get (h : c.Feeds s later) {i : Nat} (hi : i < c.rb.available) :
    s[i]? = some (c.rb.buf.get (c.rb.start + i)) := by
  obtain ⟨t, ht⟩ := h.unread_prefix
  rw [← ht, List.getElem?_append_left (by rw [h.wf.length_unread]; exact hi)]
  exact h.wf.get_unread hi

/-- Three and five bytes are peeked only where the first byte is an `E`. -/
theorem wp_classifyNext {Q : StreamEvent → Client → Prop} (h : c.Feeds s later)
    (hend : (∃ ev, Announces s ev) ∨
      (Stalls c.deadline later ∧
        (∀ stop c', ReadFails c s later stop c' → s.length < 5 → E stop c') ∧
        ∀ m c', (∀ t, ¬ ∃ ev, Announces (s ++ t) ev) → c'.Feeds s later → c'.core = c.core →
          E (.raised (seedLinkError m)) c'))
    (hQ : ∀ ev c', Announces s ev → c'.Feeds s later → c'.core = c.core → Q ev c') :
    wp classifyNext Q E c := by
  -- a read of `n` bytes, where an announcement says that they are there
  have hread : ∀ n c₁, n ≤ 5 → c₁.Feeds s later → c₁.core = c.core →
      ((∃ ev, Announces s ev) → n ≤ s.length) →
      ∀ Q' : Bytes → Client → Prop, (∀ c₂, n ≤ s.length → c₂.Feeds s later → c₂.core = c.core →
        n ≤ c₂.rb.available → Q' (s.take n) c₂) → wp (peek n) Q' E c₁ := by
    intro n c₁ hn5 h₁ hc₁ hn Q' hQ'
    rcases hend with hev | ⟨hstall, hE, -⟩
    · exact wp_peek_feeds h₁ (hn hev) fun c₂ h₂ hc₂ hav =>
        hQ' c₂ (hn hev) h₂ (hc₂.trans hc₁) hav
    · refine wp_peek h₁ (deadline_of_core hc₁ ▸ hstall) (fun c₂ h₂ hc₂ hav => ?_)
        fun stop c₂ hf hlt => hE _ _ (hf.of_core hc₁) (Nat.lt_of_lt_of_le hlt hn5)
      exact hQ' c₂ (Nat.le_trans hav h₂.available_le) h₂ (hc₂.trans hc₁) hav
  have hunexpected : ∀ c₁, c₁.Feeds s later → c₁.core = c.core → 2 ≤ c₁.rb.available →
      (∀ t, ¬ ∃ ev, Announces (s ++ t) ev) → wp unexpectedData Q E c₁ := by
    intro c₁ h₁ hc₁ hav hno
    rcases hend with ⟨ev, hev⟩ | ⟨-, -, hE⟩
    · exact absurd ⟨ev, hev.append []⟩ (hno [])
    · exact wp_unexpectedData h₁ hav fun m c' h' hc' => hE m c' hno h' (hc'.trans hc₁)
  have hens : ∀ Q' : Unit → Client → Prop, (∀ c₁, c₁.Feeds s later → c₁.core = c.core →
      2 ≤ c₁.rb.available → Q' ⟨⟩ c₁) → wp (ensure 2) Q' E c := by
    intro Q' hQ'
    rcases hend with ⟨ev, hev⟩ | ⟨hstall, hE, -⟩
    · exact wp_ensure_feeds h hev.two_le hQ'
    · exact wp_ensure h hstall hQ' fun stop c' hf hlt => hE stop c' hf (by omega)
  rw [classifyNext, wp_bind]
  refine hens _ fun c₁ h₁ hc₁ hav => ?_
  have h0 := h₁.get (i := 0) (by omega)
  have h1 := h₁.get (i := 1) (by omega)
  rcases s with _ | ⟨first, _ | ⟨second, t⟩⟩
  · simp at h0
  · simp at h1
  have hfirst : c₁.rb.buf.get c₁.rb.start = first := (Option.some.inj h0).symm
  have hsecond : c₁.rb.buf.get (c₁.rb.start + 1) = second := (Option.some.inj h1).symm
  simp only [wp_bind, wp_get, wp_ite, wp_pure, hfirst, hsecond]
  by_cases hsig : isPacketSignature first second = true
  · simp only [hsig, if_true]
    exact hQ _ _ (.packet (isPacketSignature_iff.1 hsig)) h₁ hc₁
  have hnosig : ∀ t, ¬ (signatureV3 <+: first :: second :: t ∨ signatureV4 <+: first :: second :: t) :=
    fun t h => hsig (isPacketSignature_iff.2 h)
  rw [if_neg hsig]
  by_cases hE : first = 69
  · subst hE
    simp only [if_true]
    have hthree : (∃ ev, Announces (69 :: second :: t) ev) → 3 ≤ (69 :: second :: t).length := by
      rintro ⟨ev, hev⟩
      cases hev with
      | packet h => exact absurd h (hnosig t)
      | endOfStream h => exact h.length_le
      | error h => exact Nat.le_trans (by decide) h.length_le
    refine hread 3 c₁ (by omega) h₁ hc₁ hthree _ fun c₂ hle₂ h₂ hc₂ hav₂ => ?_
    rw [classifyStreamPrefix_take (Nat.le_refl 3)]
    by_cases hEND : Bytes.lit "END" <+: 69 :: second :: t
    · simp only [hEND, if_true]
      exact hQ _ _ (.endOfStream hEND) h₂ hc₂
    have hfive : (∃ ev, Announces (69 :: second :: t) ev) → 5 ≤ (69 :: second :: t).length := by
      rintro ⟨ev, hev⟩
      cases hev with
      | packet h => exact absurd h (hnosig t)
      | endOfStream h => exact absurd h hEND
      | error h => exact h.length_le
    have h35 : ¬ (5 ≤ 3) := by omega
    simp only [hEND, if_false, h35, and_false, reduceCtorEq, if_true]
    refine hread 5 c₂ (by omega) h₂ hc₂ hfive _ fun c₃ hle₃ h₃ hc₃ hav₃ => ?_
    rw [classifyStreamPrefix_take (by omega)]
    by_cases hERR : Bytes.lit "ERROR" <+: 69 :: second :: t
    · simp only [hEND, if_false, hERR, Nat.le_refl, and_true, if_true, or_true]
      exact hQ _ _ (.error hERR) h₃ hc₃
    · have hno : ∀ u, ¬ ∃ ev, Announces (69 :: second :: t ++ u) ev := by
        rintro u ⟨ev, hev⟩
        cases hev with
        | packet h => exact hnosig (t ++ u) h
        | endOfStream h => exact hEND ((List.isPrefix_append_of_length (show (Bytes.lit "END").length ≤ _ from hle₂)).1 h)
        | error h => exact hERR ((List.isPrefix_append_of_length (show (Bytes.lit "ERROR").length ≤ _ from hle₃)).1 h)
      simp only [hEND, if_false, hERR, false_and, reduceCtorEq, or_self]
      exact hunexpected c₃ h₃ hc₃ (by omega) hno
  · have hno : ∀ u, ¬ ∃ ev, Announces (first :: second :: t ++ u) ev := by
      rintro u ⟨ev, hev⟩
      cases hev with
      | packet h => exact hnosig (t ++ u) h
      | endOfStream h => exact hE (List.cons_prefix_cons.1 h).1.symm
      | error h => exact hE (List.cons_prefix_cons.1 h).1.symm
    simp only [hE, if_false]
    exact hunexpected c₁ h₁ hc₁ hav hno

end classify

/-! ### v4 frames -/

def HeaderV4.total (header : HeaderV4) : Nat :=
  headsizeV4 + header.stationIdLength + header.payloadLength

/-- A header that parses declares lengths within the limits and has a number of eight bytes. -/
theorem parseHeaderV4_ok {buf : Bytes} {header : HeaderV4} (h : parseHeaderV4 buf = .ok header) :
    header.payloadLength ≤ maxPayloadSize ∧ header.stationIdLength ≤ maxStationid ∧
      header.seqnum < 2 ^ 64 := by
  unfold parseHeaderV4 unpackV4 at h
  split at h
  · cases h
  simp only at h
  split at h
  · cases h
  split at h
  · cases h
  rename_i hlen
  split at h
  · cases h
  rename_i hsid
  split at h
  · cases h
    refine ⟨Nat.not_lt.1 hlen, Nat.not_lt.1 hsid, ?_⟩
    have hle : 256 ^ ((buf.drop 8).take 8).length ≤ 256 ^ 8 :=
      Nat.pow_le_pow_right (by decide) (List.length_take_le _ _)
    exact Nat.lt_of_lt_of_le (Bytes.leNat_lt _) hle
  · cases h

/-- The frame that the bytes behind a header hold. -/
def frameV4 (header : HeaderV4) (s : Bytes) : Except Exn RawFrame :=
  match Bytes.decodeAscii ((s.drop headsizeV4).take header.stationIdLength) with
  | none => .error .unicodeDecodeError
  | some stationId =>
    .ok { stationId, seqnum := some header.seqnum, payloadFormat := header.payloadFormat,
          payloadSubformat := header.payloadSubformat,
          payload := (s.drop (headsizeV4 + header.stationIdLength)).take header.payloadLength,
          infoContinues := false }

/-- A whole v4 frame of `n` bytes stands at the front. -/
structure DecodesV4 (s : Bytes) (frame : RawFrame) (n : Nat) : Prop where
  header_le : headsizeV4 ≤ s.length
  body : ∃ header, parseHeaderV4 (s.take headsizeV4) = .ok header ∧ header.total = n ∧
    n ≤ s.length ∧ frameV4 header s = .ok frame

/-- The frame at the front is refused, by its header or, once all of it is there, by its station
ID. -/
inductive RejectsV4 (s : Bytes) (e : Exn) : Prop
  | header (hle : headsizeV4 ≤ s.length) (h : parseHeaderV4 (s.take headsizeV4) = .error e)
  | body (header : HeaderV4) (hle : headsizeV4 ≤ s.length)
      (hp : parseHeaderV4 (s.take headsizeV4) = .ok header) (hn : header.total ≤ s.length)
      (h : frameV4 header s = .error e)

theorem RejectsV4.header_le {s : Bytes} {e : Exn} (h : RejectsV4 s e) : headsizeV4 ≤ s.length := by
  cases h <;> assumption

theorem DecodesV4.unique {s : Bytes} {frame frame' : RawFrame} {n n' : Nat} (h : DecodesV4 s frame n)
    (h' : DecodesV4 s frame' n') : frame = frame' ∧ n = n' := by
  obtain ⟨header, hp, rfl, -, hf⟩ := h.body
  obtain ⟨header', hp', rfl, -, hf'⟩ := h'.body
  obtain rfl : header = header' := Except.ok.inj (hp.symm.trans hp')
  exact ⟨Except.ok.inj (hf.symm.trans hf'), rfl⟩

/-- The number of the frame is the one in its header. -/
theorem DecodesV4.seqnum {s : Bytes} {frame : RawFrame} {n : Nat} (h : DecodesV4 s frame n) :
    ∃ header, parseHeaderV4 (s.take headsizeV4) = .ok header ∧ frame.seqnum = some (header.seqnum : Int) := by
  obtain ⟨header, hp, -, -, hf⟩ := h.body
  refine ⟨header, hp, ?_⟩
  unfold frameV4 at hf
  split at hf <;> cases hf
  rfl

section framesV4
variable {c : Client} {s : Bytes} {later : List Recv} {E : Stop → Client → Prop}

theorem decodeFrameV4Body_eq (h : c.Feeds s later) {header : HeaderV4}
    (hav : header.total ≤ c.rb.available) :
    decodeFrameV4Body c.rb.buf c.rb.start header = frameV4 header s := by
  unfold HeaderV4.total at hav
  have hsid := h.slice (Nat.le_trans (Nat.le_add_right _ _) hav)
  have hpay := h.slice hav
  rw [← Nat.add_assoc] at hpay
  unfold decodeFrameV4Body frameV4
  simp only
  rw [hsid]
  cases Bytes.decodeAscii ((s.drop headsizeV4).take header.stationIdLength) with
  | none => rfl
  | some stationId => simp only [hpay]

/-- The whole frame is waited for before any of it is consumed. -/
theorem wp_recvFrameV4 {Q : RawFrame → Client → Prop} (h : c.Feeds s later)
    (hend : (∃ frame n, DecodesV4 s frame n) ∨
      (Stalls c.deadline later ∧
        (∀ stop c', ReadFails c s later stop c' → (¬ ∃ e, RejectsV4 s e) → E stop c') ∧
        ∀ e c', RejectsV4 s e → c'.Feeds s later → c'.core = c.core → E (.raised e) c'))
    (hQ : ∀ frame n c', DecodesV4 s frame n → c'.Feeds (s.drop n) later → c'.core = c.core →
      Q frame c') :
    wp recvFrameV4 Q E c := by
  have hens : ∀ n c₁, c₁.Feeds s later → c₁.core = c.core →
      ((∃ frame n, DecodesV4 s frame n) → n ≤ s.length) →
      ((∃ e, RejectsV4 s e) → n ≤ s.length) → ∀ Q' : Unit → Client → Prop,
      (∀ c₂, n ≤ s.length → c₂.Feeds s later → c₂.core = c.core → n ≤ c₂.rb.available → Q' ⟨⟩ c₂) →
      wp (ensure n) Q' E c₁ := by
    intro n c₁ h₁ hc₁ hn hn' Q' hQ'
    rcases hend with hev | ⟨hstall, hE, -⟩
    · exact wp_ensure_feeds h₁ (hn hev) fun c₂ h₂ hc₂ hav => hQ' c₂ (hn hev) h₂ (hc₂.trans hc₁) hav
    · refine wp_ensure h₁ (deadline_of_core hc₁ ▸ hstall) (fun c₂ h₂ hc₂ hav => ?_)
        fun stop c₂ hf hlt => hE _ _ (hf.of_core hc₁) fun hr => absurd (hn' hr) (by omega)
      exact hQ' c₂ (Nat.le_trans hav h₂.available_le) h₂ (hc₂.trans hc₁) hav
  have hreject : ∀ e c₁, RejectsV4 s e → (¬ ∃ frame n, DecodesV4 s frame n) → c₁.Feeds s later →
      c₁.core = c.core → E (.raised e) c₁ := by
    intro e c₁ hr hno h₁ hc₁
    rcases hend with hev | ⟨-, -, hE⟩
    · exact absurd hev hno
    · exact hE e c₁ hr h₁ hc₁
  simp only [recvFrameV4, wp_bind, wp_get, wp_pure]
  refine hens headsizeV4 c h rfl (fun ⟨_, _, hd⟩ => hd.header_le) (fun ⟨_, hr⟩ => hr.header_le) _
    fun c₁ hle h₁ hc₁ hav₁ => ?_
  refine wp_buffered h₁ hav₁ ?_
  cases hp : parseHeaderV4 (s.take headsizeV4) with
  | error e =>
    refine hreject e c₁ (.header hle hp) ?_ h₁ hc₁
    rintro ⟨frame, n, -, header, hp', -⟩
    rw [hp] at hp'
    cases hp'
  | ok header =>
    have hn : (∃ frame n, DecodesV4 s frame n) → header.total ≤ s.length := by
      rintro ⟨frame, n, -, header', hp', rfl, hn, -⟩
      rw [hp] at hp'
      cases hp'
      exact hn
    have hn' : (∃ e, RejectsV4 s e) → header.total ≤ s.length := by
      rintro ⟨e, hr⟩
      cases hr with
      | header _ hp' => rw [hp] at hp'; cases hp'
      | body header' _ hp' hn _ => rw [hp] at hp'; cases hp'; exact hn
    simp only [liftExcept, wp_pure]
    refine hens header.total c₁ h₁ hc₁ hn hn' _ fun c₂ hn h₂ hc₂ hav₂ => ?_
    rw [decodeFrameV4Body_eq h₂ hav₂]
    cases hf : frameV4 header s with
    | error e =>
      refine hreject e c₂ (.body header hle hp hn hf) ?_ h₂ hc₂
      rintro ⟨frame, n, -, header', hp', rfl, -, hf'⟩
      rw [hp] at hp'
      cases hp'
      rw [hf] at hf'
      cases hf'
    | ok frame =>
      simp only [wp_pure]
      exact wp_consume h₂ hav₂ fun c₃ h₃ hc₃ =>
        hQ frame _ c₃ ⟨hle, header, hp, rfl, hn, hf⟩ h₃ (hc₃.trans hc₂)

end framesV4

/-! ### v3 frames -/

section framesV3
variable [Pymseed]

/-- The record length that ever longer starts of `r` give, `none` when `r` is too short to tell. -/
def detectOn : Nat → Nat → Bytes → Option (Except Exn Nat)
  | 0, _, _ => none
  | fuel + 1, size, r =>
    if r.length < size then none
    else
      match detectRecordLength (r.take size) with
      | .error e => some (.error e)
      | .ok (some reclen) => some (.ok reclen)
      | .ok none =>
        if size ≥ maxRecordLen then
          some (.error (seedLinkError "Could not determine miniSEED record length"))
        else detectOn fuel (min (size * 2) maxRecordLen) r

def recordLength (r : Bytes) : Option (Except Exn Nat) := detectOn 15 minPayloadDetect r

/-- A whole v3 frame of `n` bytes stands at the front. -/
structure DecodesV3 (s : Bytes) (frame : RawFrame) (n : Nat) : Prop where
  header_le : headsizeV3 ≤ s.length
  body : ∃ header m, parseHeaderV3 (s.take headsizeV3) = .ok header ∧
    recordLength (s.drop headsizeV3) = some (.ok m) ∧ m ≤ (s.drop headsizeV3).length ∧
    decodeFrameV3 header ((s.drop headsizeV3).take m) = .ok frame ∧ n = headsizeV3 + m

/-- The frame at the front is refused after the first `n` bytes have been consumed. -/
inductive LosesV3 (s : Bytes) (e : Exn) : Nat → Prop
  | header (hle : headsizeV3 ≤ s.length) (h : parseHeaderV3 (s.take headsizeV3) = .error e) :
      LosesV3 s e headsizeV3
  | length (header : HeaderV3) (hle : headsizeV3 ≤ s.length)
      (hp : parseHeaderV3 (s.take headsizeV3) = .ok header)
      (h : recordLength (s.drop headsizeV3) = some (.error e)) : LosesV3 s e headsizeV3
  | record (header : HeaderV3) (m : Nat) (hle : headsizeV3 ≤ s.length)
      (hp : parseHeaderV3 (s.take headsizeV3) = .ok header)
      (hm : recordLength (s.drop headsizeV3) = some (.ok m)) (hlen : m ≤ (s.drop headsizeV3).length)
      (h : decodeFrameV3 header ((s.drop headsizeV3).take m) = .error e) :
      LosesV3 s e (headsizeV3 + m)

/-- The header at the front is good and the record behind it is not all there. -/
structure AwaitsV3 (s : Bytes) : Prop where
  header_le : headsizeV3 ≤ s.length
  header : ∃ header, parseHeaderV3 (s.take headsizeV3) = .ok header
  record : ∀ x, recordLength (s.drop headsizeV3) = some x →
    ∃ m, x = .ok m ∧ (s.drop headsizeV3).length < m

variable {c : Client} {s : Bytes} {later : List Recv} {E : Stop → Client → Prop}

theorem wp_readMseedPayloadLoop {Q : Bytes → Client → Prop} (x : Option (Except Exn Nat))
    (hend : (∃ m, x = some (.ok m) ∧ m ≤ s.length) ∨
      (Stalls c.deadline later ∧
        (∀ stop c', ReadFails c s later stop c' →
          (∀ y, x = some y → ∃ m, y = .ok m ∧ s.length < m) → E stop c') ∧
        ∀ e c', x = some (.error e) → c'.Feeds s later → c'.core = c.core → E (.raised e) c'))
    (hQ : ∀ m c', x = some (.ok m) → m ≤ s.length → c'.Feeds (s.drop m) later →
      c'.core = c.core → Q (s.take m) c') :
    ∀ (fuel size : Nat) (c₁ : Client), c₁.Feeds s later → c₁.core = c.core →
      maxRecordLen ≤ size * 2 ^ (fuel - 1) → 0 < fuel → detectOn fuel size s = x →
      wp (readMseedPayloadLoop fuel size) Q E c₁
  | 0, _, _, _, _, _, hpos, _ => by omega
  | fuel + 1, size, c₁, h₁, hc₁, hsize, _, hx => by
    rw [readMseedPayloadLoop, wp_bind]
    rw [detectOn] at hx
    by_cases hlen : s.length < size
    · rw [if_pos hlen] at hx
      subst hx
      rcases hend with ⟨m, hm, -⟩ | ⟨hstall, hE, -⟩
      · cases hm
      · refine wp_peek h₁ (deadline_of_core hc₁ ▸ hstall) (fun c₂ h₂ _ hav => ?_) fun stop c₂ hf _ =>
          hE _ _ (hf.of_core hc₁) (fun y hy => by cases hy)
        have := h₂.available_le
        omega
    rw [if_neg hlen] at hx
    refine wp_peek_feeds h₁ (by omega) fun c₂ h₂ hc₂ _ => ?_
    have hc₂' := hc₂.trans hc₁
    cases hd : detectRecordLength (s.take size) with
    | error e =>
      rw [hd] at hx
      subst hx
      rcases hend with ⟨m, hm, -⟩ | ⟨-, -, hE⟩
      · cases hm
      · exact hE e c₂ rfl h₂ hc₂'
    | ok found =>
      rw [hd] at hx
      cases found with
      | some m =>
        subst hx
        rcases hend with ⟨m', hm', hle⟩ | ⟨hstall, hE, -⟩
        · cases hm'
          exact wp_take_feeds h₂ hle fun c₃ h₃ hc₃ => hQ m c₃ rfl hle h₃ (hc₃.trans hc₂')
        · exact wp_take h₂ (deadline_of_core hc₂' ▸ hstall)
            (fun hle c₃ h₃ hc₃ => hQ m c₃ rfl hle h₃ (hc₃.trans hc₂'))
            fun stop c₃ hf hlt => hE _ _ (hf.of_core hc₂') fun y hy => ⟨m, (Option.some.inj hy).symm, hlt⟩
      | none =>
        simp only [wp_ite] at hx ⊢
        split
        · rename_i hmax
          rw [if_pos hmax] at hx
          subst hx
          rcases hend with ⟨m, hm, -⟩ | ⟨-, -, hE⟩
          · cases hm
          · exact hE _ c₂ rfl h₂ hc₂'
        · rename_i hmax
          rw [if_neg hmax] at hx
          cases fuel with
          | zero => simp only [Nat.zero_add, Nat.sub_self, Nat.pow_zero] at hsize; omega
          | succ fuel =>
            refine wp_readMseedPayloadLoop x hend hQ (fuel + 1) _ c₂ h₂ hc₂' ?_ (by omega) hx
            rcases Nat.le_total (size * 2) maxRecordLen with hle | hle
            · rw [Nat.min_eq_left hle]
              simp only [Nat.add_sub_cancel] at hsize ⊢
              rw [Nat.pow_succ] at hsize
              rw [Nat.mul_assoc, Nat.mul_comm 2]; exact hsize
            · rw [Nat.min_eq_right hle]
              exact Nat.le_mul_of_pos_right _ (Nat.two_pow_pos _)

theorem wp_readMseedPayload {Q : Bytes → Client → Prop} (h : c.Feeds s later)
    (hend : (∃ m, recordLength s = some (.ok m) ∧ m ≤ s.length) ∨
      (Stalls c.deadline later ∧
        (∀ stop c', ReadFails c s later stop c' →
          (∀ y, recordLength s = some y → ∃ m, y = .ok m ∧ s.length < m) → E stop c') ∧
        ∀ e c', recordLength s = some (.error e) → c'.Feeds s later → c'.core = c.core →
          E (.raised e) c'))
    (hQ : ∀ m c', recordLength s = some (.ok m) → m ≤ s.length → c'.Feeds (s.drop m) later →
      c'.core = c.core → Q (s.take m) c') :
    wp readMseedPayload Q E c :=
  wp_readMseedPayloadLoop _ hend hQ 15 _ c h rfl (by decide) (by decide) rfl

/-- The header is consumed before the record is looked at. -/
theorem wp_recvFrameV3 {Q : RawFrame → Client → Prop} (h : c.Feeds s later)
    (hend : (∃ frame n, DecodesV3 s frame n) ∨
      (Stalls c.deadline later ∧
        (∀ stop c', ReadFails c s later stop c' → s.length < headsizeV3 → E stop c') ∧
        (∀ stop c', ReadFails c (s.drop headsizeV3) later stop c' → AwaitsV3 s → E stop c') ∧
        ∀ e n c', LosesV3 s e n → c'.Feeds (s.drop n) later → c'.core = c.core →
          E (.raised e) c'))
    (hQ : ∀ frame n c', DecodesV3 s frame n → c'.Feeds (s.drop n) later → c'.core = c.core →
      Q frame c') :
    wp recvFrameV3 Q E c := by
  simp only [recvFrameV3, wp_bind]
  have hheader : ∀ Q' : Bytes → Client → Prop, (∀ c₁, headsizeV3 ≤ s.length →
      c₁.Feeds (s.drop headsizeV3) later → c₁.core = c.core → Q' (s.take headsizeV3) c₁) →
      wp (take headsizeV3) Q' E c := by
    intro Q' hQ'
    rcases hend with ⟨frame, n, hd⟩ | ⟨hstall, hE, -⟩
    · exact wp_take_feeds h hd.header_le fun c₁ h₁ hc₁ => hQ' c₁ hd.header_le h₁ hc₁
    · exact wp_take h hstall (fun hle c₁ h₁ hc₁ => hQ' c₁ hle h₁ hc₁) hE
  refine hheader _ fun c₁ hle h₁ hc₁ => ?_
  cases hp : parseHeaderV3 (s.take headsizeV3) with
  | error e =>
    rcases hend with ⟨frame, n, -, header, m, hp', -⟩ | ⟨-, -, -, hE⟩
    · rw [hp] at hp'; cases hp'
    · exact hE e _ c₁ (.header hle hp) h₁ hc₁
  | ok header =>
    simp only [liftExcept, wp_pure]
    have hcases : (∃ m, recordLength (s.drop headsizeV3) = some (.ok m) ∧
        m ≤ (s.drop headsizeV3).length ∧
        ∃ frame, decodeFrameV3 header ((s.drop headsizeV3).take m) = .ok frame) ∨ _ :=
      hend.imp_left fun ⟨frame, n, hd⟩ => by
        obtain ⟨header', m, hp', hm, hle', hf, -⟩ := hd.body
        rw [hp] at hp'
        cases hp'
        exact ⟨m, hm, hle', frame, hf⟩
    refine wp_readMseedPayload h₁ ?_ fun m c₂ hm hle' h₂ hc₂ => ?_
    · refine hcases.imp (fun ⟨m, hm, hle', _⟩ => ⟨m, hm, hle'⟩) fun ⟨hstall, _, hE, hL⟩ => ?_
      refine ⟨deadline_of_core hc₁ ▸ hstall, fun stop c₂ hf hr => ?_, fun e c₂ he h₂ hc₂ => ?_⟩
      · exact hE _ _ (hf.of_core hc₁) ⟨hle, ⟨header, hp⟩, hr⟩
      · exact hL e _ c₂ (.length header hle hp he) h₂ (hc₂.trans hc₁)
    · have hdrop : s.drop (headsizeV3 + m) = (s.drop headsizeV3).drop m := by rw [List.drop_drop]
      cases hf : decodeFrameV3 header ((s.drop headsizeV3).take m) with
      | ok frame =>
        exact hQ frame _ c₂ ⟨hle, header, m, hp, hm, hle', hf, rfl⟩ (hdrop ▸ h₂) (hc₂.trans hc₁)
      | error e =>
        rcases hcases with ⟨m', hm', -, frame, hf'⟩ | ⟨-, -, -, hL⟩
        · rw [hm] at hm'
          cases hm'
          rw [hf] at hf'
          cases hf'
        · exact hL e _ c₂ (.record header m hle hp hm hle' hf) (hdrop ▸ h₂) (hc₂.trans hc₁)

end framesV3

/-! ### The next frame -/

theorem Announces.unique {s : Bytes} {ev ev' : StreamEvent} (h : Announces s ev)
    (h' : Announces s ev') : ev = ev' := by
  have hsig : ∀ t : Bytes, (signatureV3 <+: t ∨ signatureV4 <+: t) → t.head? = some 83 := by
    intro t ht
    rcases ht with ⟨r, rfl⟩ | ⟨r, rfl⟩ <;> rfl
  have hE : ∀ t : Bytes, Bytes.lit "END" <+: t → t.head? = some 69 ∧ t[1]? = some 78 := by
    rintro t ⟨r, rfl⟩; exact ⟨rfl, rfl⟩
  have hR : ∀ t : Bytes, Bytes.lit "ERROR" <+: t → t.head? = some 69 ∧ t[1]? = some 82 := by
    rintro t ⟨r, rfl⟩; exact ⟨rfl, rfl⟩
  cases h with
  | packet h =>
    have h83 := hsig s h
    cases h' with
    | packet => rfl
    | endOfStream h' => rw [(hE s h').1] at h83; cases h83
    | error h' => rw [(hR s h').1] at h83; cases h83
  | endOfStream h =>
    cases h' with
    | packet h' => have := hsig s h'; rw [(hE s h).1] at this; cases this
    | endOfStream => rfl
    | error h' => have := (hR s h').2; rw [(hE s h).2] at this; cases this
  | error h =>
    cases h' with
    | packet h' => have := hsig s h'; rw [(hR s h).1] at this; cases this
    | endOfStream h' => have := (hE s h').2; rw [(hR s h).2] at this; cases this
    | error => rfl

theorem Client.Feeds.resetIfDrained {c : Client} {s : Bytes} {later : List Recv}
    (h : c.Feeds s later) : ({ c with rb := c.rb.resetIfDrained } : Client).Feeds s later := by
  obtain ⟨u, now, hat, hnow, hs⟩ := h
  exact ⟨u, now, ⟨RecvBuf.wf_resetIfDrained hat.wf,
    RecvBuf.unread_resetIfDrained.trans hat.unread, hat.conn⟩, hnow, hs⟩

section recv
variable [Pymseed]

/-- The item at the front of the stream and the number of its bytes. -/
inductive Takes (p : Option Protocol) (s : Bytes) : Received → Nat → Prop
  | endOfStream (h : Bytes.lit "END" <+: s) : Takes p s .endOfStream 3
  | reply {i : Nat} {line : Text} (h : Bytes.lit "ERROR" <+: s)
      (hi : Text.findSub crlf s = some i) (hline : Bytes.decodeAscii (s.take i) = some line) :
      Takes p s (.reply (parseReply line)) (i + 2)
  | packetV4 {frame : RawFrame} {n : Nat} (hp : p = some .v4)
      (hsig : signatureV3 <+: s ∨ signatureV4 <+: s) (h : DecodesV4 s frame n) :
      Takes p s (.packet frame) n
  | packetV3 {frame : RawFrame} {n : Nat} (hp : p ≠ some .v4)
      (hsig : signatureV3 <+: s ∨ signatureV4 <+: s) (h : DecodesV3 s frame n) :
      Takes p s (.packet frame) n

/-- An item that every chunking reads: its line, if it is one, is not too long. -/
def Received.Short : Received → Nat → Prop
  | .reply _, n => n ≤ maxLineLen
  | _, _ => True

/-- How `_recv_frame` fails where the bytes `s` come before a stalled `later`. -/
inductive RecvFails (c : Client) (s : Bytes) (later : List Recv) : Stop → Client → Prop
  | read {stop : Stop} {c' : Client} (h : ReadFails c s later stop c')
      (hlen : (∃ ev, Announces s ev) ∨ s.length < 5)
      (hshort : Announces s .packet →
        (c.protocol = some .v4 → ¬ ∃ e, RejectsV4 s e) ∧
          (c.protocol ≠ some .v4 → s.length < headsizeV3)) : RecvFails c s later stop c'
  | unexpected {m : String} {c' : Client} (hno : ∀ t, ¬ ∃ ev, Announces (s ++ t) ev) (h : c'.Feeds s later)
      (hc : c'.core = c.core) : RecvFails c s later (.raised (seedLinkError m)) c'
  | rejected {e : Exn} {c' : Client} (hp : c.protocol = some .v4) (ha : Announces s .packet)
      (hr : RejectsV4 s e) (h : c'.Feeds s later) (hc : c'.core = c.core) :
      RecvFails c s later (.raised e) c'
  | lost {e : Exn} {n : Nat} {c' : Client} (hp : c.protocol ≠ some .v4) (ha : Announces s .packet)
      (hl : LosesV3 s e n) (h : c'.Feeds (s.drop n) later) (hc : c'.core = c.core) :
      RecvFails c s later (.raised e) c'
  | awaiting {stop : Stop} {c' : Client} (hp : c.protocol ≠ some .v4) (ha : Announces s .packet)
      (hw : AwaitsV3 s) (h : ReadFails c (s.drop headsizeV3) later stop c') :
      RecvFails c s later stop c'

variable {p : Option Protocol} {c : Client} {s : Bytes} {later : List Recv}
  {E : Stop → Client → Prop} {x : Received} {n : Nat}

theorem Takes.announces (h : Takes p s x n) :
    (∃ frame, x = .packet frame ∧ Announces s .packet) ∨ (x = .endOfStream ∧ Announces s .endOfStream) ∨
      ∃ resp, x = .reply resp ∧ Announces s .error := by
  cases h with
  | endOfStream h => exact .inr (.inl ⟨rfl, .endOfStream h⟩)
  | reply h => exact .inr (.inr ⟨_, rfl, .error h⟩)
  | packetV4 _ hsig => exact .inl ⟨_, rfl, .packet hsig⟩
  | packetV3 _ hsig => exact .inl ⟨_, rfl, .packet hsig⟩

theorem DecodesV3.unique {frame frame' : RawFrame} {n' : Nat} (h : DecodesV3 s frame n)
    (h' : DecodesV3 s frame' n') : frame = frame' ∧ n = n' := by
  obtain ⟨header, m, hp, hm, -, hf, rfl⟩ := h.body
  obtain ⟨header', m', hp', hm', -, hf', rfl⟩ := h'.body
  obtain rfl : header = header' := Except.ok.inj (hp.symm.trans hp')
  obtain rfl : m = m' := Except.ok.inj (Option.some.inj (hm.symm.trans hm'))
  exact ⟨Except.ok.inj (hf.symm.trans hf'), rfl⟩

theorem Takes.unique {x' : Received} {n' : Nat} (h : Takes p s x n) (h' : Takes p s x' n') :
    x = x' ∧ n = n' := by
  cases h with
  | endOfStream h =>
    cases h' with
    | endOfStream => exact ⟨rfl, rfl⟩
    | reply h' => cases (Announces.endOfStream h).unique (.error h')
    | packetV4 _ hsig => cases (Announces.endOfStream h).unique (.packet hsig)
    | packetV3 _ hsig => cases (Announces.endOfStream h).unique (.packet hsig)
  | reply h hi hline =>
    cases h' with
    | endOfStream h' => cases (Announces.error h).unique (.endOfStream h')
    | packetV4 _ hsig => cases (Announces.error h).unique (.packet hsig)
    | packetV3 _ hsig => cases (Announces.error h).unique (.packet hsig)
    | reply _ hi' hline' =>
      cases hi.symm.trans hi'
      cases hline.symm.trans hline'
      exact ⟨rfl, rfl⟩
  | packetV4 hp hsig hd =>
    cases h' with
    | endOfStream h' => cases (Announces.endOfStream h').unique (.packet hsig)
    | reply h' => cases (Announces.error h').unique (.packet hsig)
    | packetV3 hp' => exact absurd hp hp'
    | packetV4 _ _ hd' => obtain ⟨rfl, rfl⟩ := hd.unique hd'; exact ⟨rfl, rfl⟩
  | packetV3 hp hsig hd =>
    cases h' with
    | endOfStream h' => cases (Announces.endOfStream h').unique (.packet hsig)
    | reply h' => cases (Announces.error h').unique (.packet hsig)
    | packetV4 hp' => exact absurd hp' hp
    | packetV3 _ _ hd' => obtain ⟨rfl, rfl⟩ := hd.unique hd'; exact ⟨rfl, rfl⟩

/-- The item an announcement leads to. -/
theorem wp_recvEvent {Q : Received → Client → Prop} {ev : StreamEvent} (ha : Announces s ev)
    (h : c.Feeds s later)
    (hend : (∃ x n, Takes c.protocol s x n ∧ x.Short n) ∨
      (Stalls c.deadline later ∧ ∀ stop c', RecvFails c s later stop c' → E stop c'))
    (hQ : ∀ x n c', Takes c.protocol s x n → c'.Feeds (s.drop n) later → c'.core = c.core → Q x c') :
    wp (recvEvent ev) Q E c := by
  cases ha with
  | endOfStream hE =>
    simp only [recvEvent, wp_bind, wp_pure]
    exact wp_take_feeds h (Nat.le_trans (by decide) hE.length_le) fun c' h' hc' =>
      hQ _ _ c' (.endOfStream hE) h' hc'
  | error hR =>
    simp only [recvEvent, wp_bind, wp_pure]
    have hnot : ¬ Announces s .packet := fun hp => by cases (Announces.error hR).unique hp
    rcases hend with ⟨x, n, ht, hshort⟩ | ⟨hstall, hE⟩
    · cases ht with
      | endOfStream h' => cases (Announces.error hR).unique (.endOfStream h')
      | packetV4 _ hsig => exact absurd (.packet hsig) hnot
      | packetV3 _ hsig => exact absurd (.packet hsig) hnot
      | reply hR' hi hline =>
        exact wp_readLine_feeds h hi hshort hline fun c' h' hc' =>
          hQ _ _ c' (.reply hR hi hline) h' hc'
    · exact wp_readLine h hstall
        (fun i line c' hi hline h' hc' => hQ _ _ c' (.reply hR hi hline) h' hc')
        fun stop c' hf => hE _ _ (.read hf (.inl ⟨_, .error hR⟩) fun hp => absurd hp hnot)
  | packet hsig =>
    have hpkt : ∀ x n, Takes c.protocol s x n → ∃ frame, x = .packet frame := by
      intro x n ht
      rcases ht.announces with ⟨frame, hx, -⟩ | ⟨-, ha⟩ | ⟨resp, -, ha⟩
      · exact ⟨frame, hx⟩
      · cases (Announces.packet hsig).unique ha
      · cases (Announces.packet hsig).unique ha
    simp only [recvEvent, wp_bind, wp_get, wp_ite, wp_pure]
    by_cases hp : c.protocol = some .v4
    · rw [if_pos hp]
      refine wp_recvFrameV4 h (hend.imp (fun ⟨x, n, ht, _⟩ => ?_) fun ⟨hstall, hE⟩ => ?_)
        fun frame n c' hd h' hc' => hQ _ _ c' (.packetV4 hp hsig hd) h' hc'
      · cases ht with
        | endOfStream h' => obtain ⟨_, h⟩ := hpkt _ _ (.endOfStream h'); cases h
        | reply h1 h2 h3 => obtain ⟨_, h⟩ := hpkt _ _ (.reply h1 h2 h3); cases h
        | packetV4 _ _ hd => exact ⟨_, _, hd⟩
        | packetV3 hp' => exact absurd hp hp'
      · exact ⟨hstall, fun stop c' hf hno => hE _ _
          (.read hf (.inl ⟨_, .packet hsig⟩) fun _ => ⟨fun _ => hno, fun h => absurd hp h⟩),
          fun e c' hr h' hc' => hE _ _ (.rejected hp (.packet hsig) hr h' hc')⟩
    · rw [if_neg hp]
      refine wp_recvFrameV3 h (hend.imp (fun ⟨x, n, ht, _⟩ => ?_) fun ⟨hstall, hE⟩ => ?_)
        fun frame n c' hd h' hc' => hQ _ _ c' (.packetV3 hp hsig hd) h' hc'
      · cases ht with
        | endOfStream h' => obtain ⟨_, h⟩ := hpkt _ _ (.endOfStream h'); cases h
        | reply h1 h2 h3 => obtain ⟨_, h⟩ := hpkt _ _ (.reply h1 h2 h3); cases h
        | packetV4 hp' => exact absurd hp' hp
        | packetV3 _ _ hd => exact ⟨_, _, hd⟩
      · exact ⟨hstall,
          fun stop c' hf hlt => hE _ _
            (.read hf (.inl ⟨_, .packet hsig⟩) fun _ => ⟨fun h => absurd h hp, fun _ => hlt⟩),
          fun stop c' hf hw => hE _ _ (.awaiting hp (.packet hsig) hw hf),
          fun e n c' hl h' hc' => hE _ _ (.lost hp (.packet hsig) hl h' hc')⟩

theorem RecvFails.of_core {c₁ : Client} {stop : Stop} {c' : Client} (hc : c₁.core = c.core)
    (h : RecvFails c₁ s later stop c') : RecvFails c s later stop c' := by
  have hp : c₁.protocol = c.protocol := protocol_of_core hc
  cases h with
  | read h hlen hs => exact .read (h.of_core hc) hlen (hp ▸ hs)
  | unexpected hno h h' => exact .unexpected hno h (h'.trans hc)
  | rejected h1 h2 h3 h4 h5 => exact .rejected (hp ▸ h1) h2 h3 h4 (h5.trans hc)
  | lost h1 h2 h3 h4 h5 => exact .lost (hp ▸ h1) h2 h3 h4 (h5.trans hc)
  | awaiting h1 h2 h3 h4 => exact .awaiting (hp ▸ h1) h2 h3 (h4.of_core hc)

/-- `_recv_frame` takes the item at the front, or fails in one of the listed ways. -/
theorem wp_recvFrame {Q : Received → Client → Prop} (h : c.Feeds s later)
    (hend : (∃ x n, Takes c.protocol s x n ∧ x.Short n) ∨
      (Stalls c.deadline later ∧ ∀ stop c', RecvFails c s later stop c' → E stop c'))
    (hQ : ∀ x n c', Takes c.protocol s x n → c'.Feeds (s.drop n) later → c'.core = c.core → Q x c') :
    wp recvFrame Q E c := by
  simp only [recvFrame, wp_bind, wp_modify, wp_pure]
  refine wp_classifyNext h ?_ fun ev c₁ ha h₁ hc₁ => ?_
  · rcases hend with ⟨x, n, ht, -⟩ | ⟨hstall, hE⟩
    · rcases ht.announces with ⟨_, -, ha⟩ | ⟨-, ha⟩ | ⟨_, -, ha⟩ <;> exact .inl ⟨_, ha⟩
    refine .inr ⟨hstall, fun stop c' hf hlt => hE _ _
        (.read hf (.inr hlt) fun _ => ⟨fun _ ⟨e, hr⟩ => ?_, fun _ => ?_⟩),
      fun m c' hno h' hc' => hE _ _ (.unexpected hno h' hc')⟩
    · have := hr.header_le
      have h17 : headsizeV4 = 17 := rfl
      omega
    · have h8 : headsizeV3 = 8 := rfl
      omega
  · have hp : c₁.protocol = c.protocol := protocol_of_core hc₁
    refine wp_recvEvent ha h₁ ?_ fun x n c₂ ht h₂ hc₂ =>
      hQ x n _ (hp ▸ ht) h₂.resetIfDrained (hc₂.trans hc₁)
    rw [hp]
    exact hend.imp_right fun ⟨hstall, hE⟩ =>
      ⟨deadline_of_core hc₁ ▸ hstall, fun stop c' hf => hE _ _ (hf.of_core hc₁)⟩

theorem recvFrame_of_not_connected (h : c.sock = none) :
    recvFrame c = .error (.raised (seedLinkError "Not connected")) c := by
  have hensure : ensure 2 c = .error (.raised (seedLinkError "Not connected")) c := ensure_of_not_connected h
  have hclassify : classifyNext c = .error (.raised (seedLinkError "Not connected")) c := seq_error hensure
  exact seq_error hclassify

theorem wp_recvFrame_total (h : c.Feeds s later) (hstall : Stalls c.deadline later) :
    wp recvFrame (fun x c' => ∃ n, Takes c.protocol s x n ∧ c'.Feeds (s.drop n) later ∧
      c'.core = c.core) (RecvFails c s later) c :=
  wp_recvFrame h (.inr ⟨hstall, fun _ _ hf => hf⟩) fun _ n _ ht h' hc' => ⟨n, ht, h', hc'⟩

theorem recvFrame_ok (h : c.Feeds s later) (hstall : Stalls c.deadline later) {c' : Client}
    (hrun : recvFrame c = .ok x c') :
    ∃ n, Takes c.protocol s x n ∧ c'.Feeds (s.drop n) later ∧ c'.core = c.core :=
  wp_ok (wp_recvFrame_total h hstall) hrun

theorem recvFrame_error (h : c.Feeds s later) (hstall : Stalls c.deadline later) {stop : Stop}
    {c' : Client} (hrun : recvFrame c = .error stop c') : RecvFails c s later stop c' :=
  wp_error (wp_recvFrame_total h hstall) hrun

end recv

end SeedLink
