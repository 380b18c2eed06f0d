import SeedLink.FrameBoundary
import SeedLink.Passes

/-!
# Exceptions that bytes can cause

The callers of `recvFrame` catch `SeedLinkError` only. In v3 mode nothing else is raised; in v4 mode a
frame whose format, subformat or station ID is not ASCII raises `UnicodeDecodeError`
(`surfaces_recvFrame_iff`). `info_dict` adds what its document readers raise, and `collect` what the
message of a JSON error packet does.
-/

namespace SeedLink

open StateExc Client

/-! ### Non-ASCII frames -/

/-- A v4 frame within its limits of which a byte that is decoded as ASCII is not. Its header is
decoded as soon as it is there, its station ID once the whole frame is. -/
structure NonAsciiFrame (s : Bytes) : Prop where
  signature : signatureV4 <+: s
  header_le : headsizeV4 ≤ s.length
  length_le : Bytes.leNat ((s.drop 4).take 4) ≤ maxPayloadSize
  sidlen_le : Bytes.leNat ((s.drop 16).take 1) ≤ maxStationid
  nonAscii : (∃ b ∈ (s.drop 2).take 2, 128 ≤ b.toNat) ∨
    (headsizeV4 + Bytes.leNat ((s.drop 16).take 1) + Bytes.leNat ((s.drop 4).take 4) ≤ s.length ∧
      ∃ b ∈ (s.drop headsizeV4).take (Bytes.leNat ((s.drop 16).take 1)), 128 ≤ b.toNat)

section header
variable {s : Bytes}

theorem unpackV4_take : unpackV4 (s.take headsizeV4) = unpackV4 s := by
  simp [unpackV4, headsizeV4, List.drop_take, List.take_take]

theorem take_two_eq_iff : s.take 2 = signatureV4 ↔ signatureV4 <+: s :=
  ⟨fun h => h ▸ List.take_prefix _ _, fun ⟨t, ht⟩ => by rw [← ht]; exact List.take_left' rfl⟩

/-- The header's checks in order: signature, lengths, then the two format bytes. -/
theorem parseHeaderV4_take (hle : headsizeV4 ≤ s.length) :
    parseHeaderV4 (s.take headsizeV4) =
      if ¬ signatureV4 <+: s then
        .error (seedLinkError s!"Unrecognized v4 header signature: {reprBytes (s.take 2)}")
      else if Bytes.leNat ((s.drop 4).take 4) > maxPayloadSize then
        .error (seedLinkError s!"Declared payload length {
          Bytes.leNat ((s.drop 4).take 4)} exceeds sanity limit {maxPayloadSize}")
      else if Bytes.leNat ((s.drop 16).take 1) > maxStationid then
        .error (seedLinkError s!"Declared station ID length {
          Bytes.leNat ((s.drop 16).take 1)} exceeds sanity limit {maxStationid}")
      else
        match Bytes.decodeAscii ((s.drop 2).take 1), Bytes.decodeAscii ((s.drop 3).take 1) with
        | some fmt, some subfmt =>
          .ok { payloadFormat := fmt, payloadSubformat := subfmt,
                payloadLength := Bytes.leNat ((s.drop 4).take 4),
                seqnum := Bytes.leNat ((s.drop 8).take 8),
                stationIdLength := Bytes.leNat ((s.drop 16).take 1) }
        | _, _ => .error .unicodeDecodeError := by
  have hlen : ¬ (s.take headsizeV4).length < headsizeV4 := by
    rw [List.length_take, Nat.min_eq_left hle]; omega
  unfold parseHeaderV4
  rw [if_neg hlen, unpackV4_take]
  simp only [unpackV4, ne_eq, take_two_eq_iff]
  rfl

theorem mem_format_iff {p : UInt8 → Prop} :
    (∃ b ∈ (s.drop 2).take 2, p b) ↔ (∃ b ∈ (s.drop 2).take 1, p b) ∨ ∃ b ∈ (s.drop 3).take 1, p b := by
  have h : (s.drop 2).take 2 = (s.drop 2).take 1 ++ (s.drop 3).take 1 := by
    rw [show (2 : Nat) = 1 + 1 from rfl, List.take_add, List.drop_drop]
  rw [h]
  simp only [List.mem_append, or_and_right, exists_or]

theorem rejectsV4_unicode_iff : RejectsV4 s .unicodeDecodeError ↔ NonAsciiFrame s := by
  constructor
  · intro h
    cases h with
    | header hle h =>
      rw [parseHeaderV4_take hle] at h
      split at h
      · cases h
      · split at h
        · cases h
        · split at h
          · cases h
          · rename_i hsig hpay hsid
            refine ⟨not_not.1 hsig, hle, by omega, by omega, .inl (mem_format_iff.2 ?_)⟩
            simp only [← Bytes.decodeAscii_eq_none_iff]
            split at h
            · cases h
            · rename_i hnone
              by_contra hno
              rw [not_or] at hno
              obtain ⟨f, hf⟩ := Option.ne_none_iff_exists'.1 hno.1
              obtain ⟨g, hg⟩ := Option.ne_none_iff_exists'.1 hno.2
              exact hnone f g hf hg
    | body header hle hp hn h =>
      rw [parseHeaderV4_take hle] at hp
      split at hp
      · cases hp
      · split at hp
        · cases hp
        · split at hp
          · cases hp
          · rename_i hsig hpay hsid
            split at hp
            · cases hp
              refine ⟨not_not.1 hsig, hle, by omega, by omega, .inr ⟨hn, ?_⟩⟩
              rw [← Bytes.decodeAscii_eq_none_iff]
              unfold frameV4 at h
              split at h
              · assumption
              · cases h
            · cases hp
  · intro h
    have hparse := parseHeaderV4_take h.header_le
    rw [if_neg (not_not.2 h.signature), if_neg (Nat.not_lt.2 h.length_le),
      if_neg (Nat.not_lt.2 h.sidlen_le)] at hparse
    by_cases hfmt : ∃ b ∈ (s.drop 2).take 2, 128 ≤ b.toNat
    · refine .header h.header_le (hparse.trans ?_)
      rw [mem_format_iff, ← Bytes.decodeAscii_eq_none_iff, ← Bytes.decodeAscii_eq_none_iff] at hfmt
      rcases hfmt with hf | hf
      · rw [hf]
      · rw [hf]
        cases Bytes.decodeAscii ((s.drop 2).take 1) <;> rfl
    · obtain ⟨hn, hsid⟩ := h.nonAscii.resolve_left hfmt
      rw [mem_format_iff, ← Bytes.decodeAscii_eq_none_iff, ← Bytes.decodeAscii_eq_none_iff, not_or] at hfmt
      obtain ⟨f, hf⟩ := Option.ne_none_iff_exists'.1 hfmt.1
      obtain ⟨g, hg⟩ := Option.ne_none_iff_exists'.1 hfmt.2
      rw [hf, hg] at hparse
      refine .body _ h.header_le hparse hn ?_
      rw [← Bytes.decodeAscii_eq_none_iff] at hsid
      simp only [frameV4, hsid]

/-- The checks of the header raise `SeedLinkError`; what decodes raises `UnicodeDecodeError`. -/
theorem RejectsV4.cases {e : Exn} (h : RejectsV4 s e) :
    e.isSeedLinkError = true ∨ e = .unicodeDecodeError := by
  cases h with
  | header hle h =>
    rw [parseHeaderV4_take hle] at h
    split at h
    · cases h; exact .inl rfl
    · split at h
      · cases h; exact .inl rfl
      · split at h
        · cases h; exact .inl rfl
        · split at h <;> cases h
          exact .inr rfl
  | body _ _ _ _ h =>
    unfold frameV4 at h
    split at h <;> cases h
    exact .inr rfl

theorem RejectsV4.unique {e e' : Exn} (h : RejectsV4 s e) (h' : RejectsV4 s e') : e = e' := by
  cases h with
  | header _ h =>
    cases h' with
    | header _ h' => exact Except.error.inj (h.symm.trans h')
    | body _ _ hp' => rw [h] at hp'; cases hp'
  | body header _ hp _ h =>
    cases h' with
    | header _ h' => rw [hp] at h'; cases h'
    | body header' _ hp' _ h' =>
      obtain rfl : header = header' := Except.ok.inj (hp.symm.trans hp')
      exact Except.error.inj (h.symm.trans h')

theorem RejectsV4.not_decodes {e : Exn} (h : RejectsV4 s e) {frame : RawFrame} {n : Nat} :
    ¬ DecodesV4 s frame n := by
  rintro ⟨-, header', hp', -, -, hf'⟩
  cases h with
  | header _ h => rw [hp'] at h; cases h
  | body header _ hp _ h =>
    obtain rfl : header = header' := Except.ok.inj (hp.symm.trans hp')
    rw [hf'] at h
    cases h

end header

/-! ### Receiving a frame -/

/-- What can be read up to the next failure of a read satisfies `P`. -/
def Client.CanRead (c : Client) (P : Bytes → Prop) : Prop :=
  ∃ s later, c.Feeds s later ∧ Stalls c.deadline later ∧ P s

/-- Only a `SeedLinkError` leaves the call. -/
def Surfaces {α : Type} (x : ClientM α) (c : Client) : Prop :=
  ∀ e c', x c = .error (.raised e) c' → e.isSeedLinkError = true

section recv
variable {c c' : Client} {s : Bytes} {later : List Recv} {e : Exn}

theorem Client.ReadFails.cases (h : ReadFails c s later (.raised e) c') :
    e.isSeedLinkError = true ∨
      (e = .cancelledError ∧ c.cfg.transport = .asyncio ∧ c.inScope = true) := by
  cases h with
  | closed he => exact .inl he
  | timedOut => exact .inl rfl
  | cancelled hk hscope => exact .inr ⟨rfl, hk, hscope⟩

variable [Pymseed]

theorem RecvFails.cases (h : RecvFails c s later (.raised e) c') :
    e.isSeedLinkError = true ∨
      (e = .cancelledError ∧ c.cfg.transport = .asyncio ∧ c.inScope = true) ∨
      (e = .unicodeDecodeError ∧ c.protocol = some .v4 ∧ NonAsciiFrame s) := by
  cases h with
  | read h => exact h.cases.imp_right .inl
  | unexpected => exact .inl rfl
  | lost _ _ hl => exact .inl hl.isSeedLinkError
  | awaiting _ _ _ h => exact h.cases.imp_right .inl
  | rejected hp _ hr =>
    rcases hr.cases with he | rfl
    · exact .inl he
    · exact .inr (.inr ⟨rfl, hp, rejectsV4_unicode_iff.1 hr⟩)

section nonAscii
variable {x : Received} {n : Nat} {stop : Stop}

theorem NonAsciiFrame.not_takes (h : NonAsciiFrame s) : ¬ Takes (some .v4) s x n := by
  have ha : Announces s .packet := .packet (.inr h.signature)
  intro ht
  cases ht with
  | endOfStream h => cases ha.unique (.endOfStream h)
  | reply h => cases ha.unique (.error h)
  | packetV4 _ _ hd => exact (rejectsV4_unicode_iff.2 h).not_decodes hd
  | packetV3 hp => exact hp rfl

theorem NonAsciiFrame.recvFails (h : NonAsciiFrame s) (hp : c.protocol = some .v4)
    (hr : RecvFails c s later stop c') : stop = .raised .unicodeDecodeError ∧ c'.core = c.core := by
  have ha : Announces s .packet := .packet (.inr h.signature)
  have hrej := rejectsV4_unicode_iff.2 h
  cases hr with
  | read _ _ hshort => exact absurd ⟨_, hrej⟩ ((hshort ha).1 hp)
  | unexpected hno => exact absurd ⟨_, ha.append []⟩ (hno [])
  | lost hp' => exact absurd hp hp'
  | awaiting hp' => exact absurd hp hp'
  | rejected _ _ hr' _ hc => exact ⟨by rw [hrej.unique hr'], hc⟩

theorem recvFrame_of_nonAsciiFrame (hp : c.protocol = some .v4) (h : NonAsciiFrame s)
    (hf : c.Feeds s later) (hstall : Stalls c.deadline later) :
    ∃ c', recvFrame c = .error (.raised .unicodeDecodeError) c' ∧ c'.core = c.core := by
  cases hrun : recvFrame c with
  | ok x c' =>
    obtain ⟨n, ht, -, -⟩ := recvFrame_ok hf hstall hrun
    exact absurd (hp ▸ ht) h.not_takes
  | error stop c' =>
    obtain ⟨rfl, hc⟩ := h.recvFails hp (recvFrame_error hf hstall hrun)
    exact ⟨c', rfl, hc⟩

end nonAscii

/-- Frame by frame, only what is not ASCII in v4 mode escapes. -/
theorem surfaces_recvFrame_iff (hwf : c.rb.WF) (hscope : c.inScope = false) :
    Surfaces recvFrame c ↔ ¬ (c.protocol = some .v4 ∧ c.CanRead NonAsciiFrame) := by
  constructor
  · rintro hsurf ⟨hp, s, later, hf, hstall, h⟩
    obtain ⟨c', hrun, -⟩ := recvFrame_of_nonAsciiFrame hp h hf hstall
    exact absurd (hsurf _ _ hrun) Bool.false_ne_true
  · intro hno e c' hrun
    cases hsk : c.sock with
    | none => rw [recvFrame_of_not_connected hsk] at hrun; cases hrun; rfl
    | some sk =>
      obtain ⟨s, later, hf, hstall⟩ := exists_feeds hwf (by rw [hsk]; rfl)
      rcases (recvFrame_error hf hstall hrun).cases with he | ⟨-, -, hin⟩ | ⟨-, hp, h⟩
      · exact he
      · rw [hscope] at hin; cases hin
      · exact absurd ⟨hp, s, later, hf, hstall, h⟩ hno

end recv

/-! ### INFO -/

/-- What the walk over an XML document raises. -/
def WalkError (e : Exn) : Prop := e = .attributeError ∨ e = .recursionError

namespace Element

theorem appendUnder_error {tag : Text} {value : Except Exn XmlValue} {e : Exn}
    (hval : ∀ e, value = .error e → WalkError e) : ∀ entries : List (Text × XmlValue),
    appendUnder tag value entries = .error e → WalkError e
  | [], h => by
    cases value with
    | error e' => cases h; exact hval _ rfl
    | ok v => cases h
  | (key, entry) :: rest, h => by
    unfold appendUnder at h
    split at h
    · split at h
      · cases value with
        | error e' => cases h; exact hval _ rfl
        | ok v => cases h
      · cases h; exact .inl rfl
    · cases hrest : appendUnder tag value rest with
      | error e' =>
        rw [hrest] at h
        cases h
        exact appendUnder_error hval rest hrest
      | ok entries => rw [hrest] at h; cases h

theorem walk_error {e : Exn} : ∀ {depth : Nat} {el : Element}, el.walk depth = .error e → WalkError e
  | 0, _, h => by cases h; exact .inr rfl
  | depth + 1, mk _ attrib children, h => by
    have hfold : ∀ (children : List Element) (entries : List (Text × XmlValue)),
        children.foldlM (fun entries child => appendUnder child.tag (walk depth child) entries)
          entries = .error e → WalkError e := by
      intro children
      induction children with
      | nil => intro entries h; cases h
      | cons child children ih =>
        intro entries h
        rw [List.foldlM_cons] at h
        cases happ : appendUnder child.tag (walk depth child) entries with
        | error e' =>
          rw [happ] at h
          cases h
          exact appendUnder_error (fun _ hw => by exact walk_error hw) _ happ
        | ok entries' => rw [happ] at h; exact ih _ h
    rw [walk] at h
    cases hres : children.foldlM (fun entries child => appendUnder child.tag (walk depth child) entries)
      (attrib.map fun a => (a.1, XmlValue.text a.2)) with
    | error e' => rw [hres] at h; cases h; exact hfold _ _ hres
    | ok entries => rw [hres] at h; cases h

end Element

theorem parseInfoXml_error [XmlReader] {text : Text} {e : Exn} (h : parseInfoXml text = .error e) :
    e.isSeedLinkError = true ∨ WalkError e := by
  unfold parseInfoXml at h
  split at h
  · cases h; exact .inl rfl
  · rename_i root _
    cases hw : root.walk XmlReader.stackDepth with
    | error e' => rw [hw] at h; cases h; exact .inr (Element.walk_error hw)
    | ok value => rw [hw] at h; cases h

theorem loadsJson_error [JsonReader] {text : Text} {e : Exn} (h : loadsJson text = .error e) :
    e.isSeedLinkError = false ∧ e ≠ .unicodeEncodeError := by
  unfold loadsJson at h
  split at h <;> cases h <;> exact ⟨rfl, by simp⟩

theorem Command.wire_error {cmd : Command} {e : Exn} (h : cmd.wire = .error e) :
    e.isSeedLinkError = true ∨ e = .unicodeEncodeError := by
  unfold Command.wire at h
  split at h
  · cases h; exact .inr rfl
  · simp only at h
    split at h <;> cases h
    exact .inl rfl

section info
variable [Externals] {c : Client} {level : Text}

/-- A server's answer from which `info_dict` raises something else: a frame that is not ASCII, or a
text that the JSON or XML reader gives up on. -/
inductive InfoRaises (p : Option Protocol) (s : Bytes) : Prop
  | frame (hp : p = some .v4) (h : NonAsciiFrame s)
  | json {text : Text} {e : Exn} (hp : p = some .v4) (h : InfoText p s text)
      (he : loadsJson text = .error e)
  | xml {text : Text} {e : Exn} (hp : p ≠ some .v4) (h : InfoText p s text)
      (he : parseInfoXml text = .error e) (hw : WalkError e)

/-- The command is sent and such an answer comes. -/
def Client.InfoEscapes (level : Text) (c : Client) : Prop :=
  ∃ s, c.Answers level s ∧ InfoRaises c.protocol s

/-- Only a `SeedLinkError` leaves `info_dict`, or the complaint that the caller's `level` is not
ASCII. -/
def InfoSurfaces (level : Text) (c : Client) : Prop :=
  ∀ e c', infoDict level c = .error (.raised e) c' →
    e.isSeedLinkError = true ∨ e = .unicodeEncodeError

/-- `info` returns the text of the answer, and raises what receiving its frames does. -/
theorem wp_info (hwf : c.rb.WF) :
    wp (Client.info level)
      (fun text c' => c'.protocol = c.protocol ∧ ∃ s, c.Answers level s ∧ InfoText c.protocol s text)
      (fun stop _ => ∀ e, stop = .raised e → e.isSeedLinkError = true ∨ e = .unicodeEncodeError ∨
        (c.protocol = some .v4 ∧ ∃ s, c.Answers level s ∧ NonAsciiFrame s)) c := by
  simp only [Client.info, wp_bind, wp_get, wp_ite, wp_raise]
  by_cases hstr : c.streaming = true
  · rw [if_pos hstr]
    rintro e ⟨⟩
    exact .inl rfl
  rw [if_neg hstr]
  -- what is raised inside the scope, and is no deadline, is raised behind it
  have hraised : ∀ (e : Exn) (c' : Client), c'.cfg = c.cfg →
      (e.isSeedLinkError = true ∨ e = .unicodeEncodeError ∨
        (c.protocol = some .v4 ∧ ∃ s, c.Answers level s ∧ NonAsciiFrame s) ∨
        (e = .cancelledError ∧ c.cfg.transport = .asyncio)) →
      c'.cfg = c.cfg ∧ if c.cfg.transport = .asyncio ∧ Stop.raised e = .raised .cancelledError then
        ∀ e', Stop.raised (.seedLinkTimeout s!"Timed out waiting for INFO {String.ofList level} reply")
          = .raised e' → e'.isSeedLinkError = true ∨ e' = .unicodeEncodeError ∨
            (c.protocol = some .v4 ∧ ∃ s, c.Answers level s ∧ NonAsciiFrame s)
      else ∀ e', Stop.raised e = .raised e' → e'.isSeedLinkError = true ∨ e' = .unicodeEncodeError ∨
            (c.protocol = some .v4 ∧ ∃ s, c.Answers level s ∧ NonAsciiFrame s) := by
    intro e c' hcfg he
    refine ⟨hcfg, ?_⟩
    split
    · rintro e' ⟨⟩; exact .inl rfl
    · rename_i hno
      rintro e' ⟨⟩
      rcases he with he | he | he | ⟨rfl, hk⟩
      · exact .inl he
      · exact .inr (.inl he)
      · exact .inr (.inr he)
      · exact absurd ⟨hk, rfl⟩ hno
  refine wp_timeoutScope ?_
  simp only [wp_bind]
  refine wp_sendCommand (fun _ => hraised _ _ scoped_cfg (.inl rfl)) (fun e he _ => ?_)
    (fun detail _ => hraised _ _ scoped_cfg (.inl rfl)) fun wire c₁ hw hsend => ?_
  · exact hraised _ _ scoped_cfg ((Command.wire_error he).imp_right .inl)
  have hcfg₁ : c₁.cfg = c.cfg := (cfg_of_frame hsend.frame).trans scoped_cfg
  have hp₁ : c₁.protocol = c.protocol := (protocol_of_frame hsend.frame).trans scoped_protocol
  obtain ⟨s, later, hf, hstall⟩ := exists_feeds (c := c₁) (by rw [hsend.rb, scoped_rb]; exact hwf)
    hsend.isSome
  have hans : c.Answers level s := ⟨by simpa using hstr, wire, c₁, later, hw, hsend, hf, hstall⟩
  -- in v4 mode only the first frame is looked at
  have hloop := wp_infoLoop c₁ hstall (fun t => c.protocol = some .v4 → t = s)
    (fun t frame n _ ht hcont hp => by rw [ht.infoContinues (hp₁.trans hp)] at hcont; cases hcont)
    (E := fun stop c' => c'.cfg = c.cfg ∧ ∀ e, stop = .raised e → e.isSeedLinkError = true ∨
      (c.protocol = some .v4 ∧ NonAsciiFrame s) ∨ (e = .cancelledError ∧ c.cfg.transport = .asyncio))
    (fun t c₂ stop c' ht hc hr => ?_)
    (fun c' hc' => ⟨(cfg_of_core hc').trans hcfg₁, by rintro e ⟨⟩; exact .inl rfl⟩)
    (c₁.bytesAhead + 1) [] s c₁ (fun _ => rfl) hf rfl (Nat.lt_succ_of_le hf.length_le_bytesAhead)
  · show wp (infoLoop (c₁.bytesAhead + 1) []) _ _ c₁
    refine wp_mono hloop ?_ ?_
    · rintro text c' ⟨hc', t, ht, rfl⟩
      refine ⟨(cfg_of_core hc').trans hcfg₁, ?_, s, hans, hp₁ ▸ ht⟩
      rw [unscoped_protocol, protocol_of_core hc', hp₁]
    · rintro stop c' ⟨hcfg', hraise⟩
      cases stop with
      | blocked => exact ⟨hcfg', by rw [if_neg (by simp)]; rintro e ⟨⟩⟩
      | raised e =>
        refine hraised e c' hcfg' ?_
        rcases hraise e rfl with he | ⟨hp, he⟩ | he
        · exact .inl he
        · exact .inr (.inr (.inl ⟨hp, s, hans, he⟩))
        · exact .inr (.inr (.inr he))
  · refine ⟨hr.cfg.trans ((cfg_of_core hc).trans hcfg₁), ?_⟩
    rintro e rfl
    have hp₂ : c₂.protocol = c.protocol := (protocol_of_core hc).trans hp₁
    rcases hr.cases with he | ⟨he, hk, -⟩ | ⟨-, hp, hn⟩
    · exact .inl he
    · exact .inr (.inr ⟨he, by rw [← hcfg₁, ← cfg_of_core hc]; exact hk⟩)
    · have hp' := hp₂.symm.trans hp
      exact .inr (.inl ⟨hp', ht hp' ▸ hn⟩)

theorem infoSurfaces_of_not_escapes (hwf : c.rb.WF) (hno : ¬ c.InfoEscapes level) :
    InfoSurfaces level c := by
  have hwp : wp (infoDict level) (fun _ _ => True) (fun stop _ => ∀ e, stop = .raised e →
      e.isSeedLinkError = true ∨ e = .unicodeEncodeError) c := by
    simp only [infoDict, wp_bind, wp_get, wp_ite, wp_pure]
    refine wp_mono (wp_info hwf) ?_ ?_
    · rintro text c' ⟨hp, s, hans, ht⟩
      by_cases hv4 : c'.protocol = some .v4
      · rw [if_pos hv4]
        cases hj : loadsJson text with
        | ok value => trivial
        | error e => exact absurd ⟨s, hans, .json (hp ▸ hv4) ht hj⟩ hno
      · rw [if_neg hv4]
        cases hx : parseInfoXml text with
        | ok value => trivial
        | error e =>
          rintro e' ⟨⟩
          rcases parseInfoXml_error hx with he | hw
          · exact .inl he
          · exact absurd ⟨s, hans, .xml (hp ▸ hv4) ht hx hw⟩ hno
    · intro stop c' hraise e he
      rcases hraise e he with h | h | ⟨hp, s, hans, hn⟩
      · exact .inl h
      · exact .inr h
      · exact absurd ⟨s, hans, .frame hp hn⟩ hno
  intro e c' hrun
  exact wp_error hwp hrun e rfl

/-- What `info` does with an answer, from the loop on. -/
theorem wp_info_of_answers {Q : Text → Client → Prop} {E : Stop → Client → Prop} {s : Bytes}
    (h : c.Answers level s)
    (hloop : ∀ c₁ later, c₁.Feeds s later → Stalls c₁.deadline later → c₁.cfg = c.cfg →
      c₁.protocol = c.protocol → wp (infoLoop (c₁.bytesAhead + 1) [])
        (fun text c' => c'.cfg = c.cfg ∧ Q text c'.unscoped)
        (fun stop c' => c'.cfg = c.cfg ∧ stop ≠ .raised .cancelledError ∧ E stop c'.unscoped) c₁) :
    wp (Client.info level) Q E c := by
  obtain ⟨hstr, wire, c₁, later, hw, hsend, hf, hstall⟩ := h
  simp only [Client.info, wp_bind, wp_get, hstr, Bool.false_eq_true, if_false]
  refine wp_timeoutScope ?_
  rw [wp_bind]
  refine (wp_iff_of_ok (sendCommand_of_sends hw hsend)).2 ?_
  simp only [wp_bind, wp_get]
  refine wp_mono (hloop c₁ later hf hstall ((cfg_of_frame hsend.frame).trans scoped_cfg)
    ((protocol_of_frame hsend.frame).trans scoped_protocol))
    (fun _ _ h => h) fun stop c' ⟨hcfg, hne, hE⟩ => ⟨hcfg, ?_⟩
  rwa [if_neg fun h => hne h.2]

theorem not_infoSurfaces_of_escapes (h : c.InfoEscapes level) : ¬ InfoSurfaces level c := by
  obtain ⟨s, hans, hr⟩ := h
  intro hsurf
  have hwp : wp (infoDict level) (fun _ _ => False) (fun stop _ => ∃ e, stop = .raised e ∧
      e.isSeedLinkError = false ∧ e ≠ .unicodeEncodeError) c := by
    simp only [infoDict, wp_bind, wp_get, wp_ite, wp_pure]
    refine wp_info_of_answers hans fun c₁ later hf hstall hcfg hp₁ => ?_
    have htext : ∀ text, InfoText c.protocol s text →
        ∃ c', infoLoop (c₁.bytesAhead + 1) [] c₁ = .ok text c' ∧ c'.core = c₁.core := by
      intro text ht
      exact infoLoop_of_infoText (hp₁ ▸ ht) (Nat.lt_succ_of_le hf.length_le_bytesAhead) [] hf
    cases hr with
    | frame hp hn =>
      obtain ⟨c', hrun, hc'⟩ := recvFrame_of_nonAsciiFrame (hp₁.trans hp) hn hf hstall
      rw [infoLoop, wp_bind]
      exact (wp_iff_of_error hrun).2
        ⟨(cfg_of_core hc').trans hcfg, by simp, _, rfl, rfl, by simp⟩
    | json hp ht he =>
      obtain ⟨c', hrun, hc'⟩ := htext _ ht
      refine (wp_iff_of_ok hrun).2 ⟨(cfg_of_core hc').trans hcfg, ?_⟩
      rw [if_pos (by rw [unscoped_protocol, protocol_of_core hc', hp₁, hp]), wp_liftExcept, he]
      exact ⟨_, rfl, loadsJson_error he⟩
    | xml hp ht he hw =>
      obtain ⟨c', hrun, hc'⟩ := htext _ ht
      refine (wp_iff_of_ok hrun).2 ⟨(cfg_of_core hc').trans hcfg, ?_⟩
      rw [if_neg (by rw [unscoped_protocol, protocol_of_core hc', hp₁]; exact hp), wp_liftExcept, he]
      refine ⟨_, rfl, ?_⟩
      rcases hw with rfl | rfl <;> exact ⟨rfl, by simp⟩
  cases hrun : infoDict level c with
  | ok a c' => exact wp_ok hwp hrun
  | error stop c' =>
    obtain ⟨e, rfl, he, hne⟩ := wp_error hwp hrun
    rcases hsurf e c' hrun with h | h
    · rw [he] at h; cases h
    · exact hne h

theorem infoSurfaces_iff (hwf : c.rb.WF) : InfoSurfaces level c ↔ ¬ c.InfoEscapes level :=
  ⟨fun h hesc => not_infoSurfaces_of_escapes hesc h, infoSurfaces_of_not_escapes hwf⟩

end info

/-! ### Streaming -/

section collect
variable [Externals] {c c' : Client} {last : Int} {next : Option Int} {e : Exn}

/-- A frame that `collect` does not survive: one that is not ASCII, or a JSON error packet whose
message the JSON reader gives up on. -/
inductive PassRaises (p : Option Protocol) (s : Bytes) : Prop
  | frame (hp : p = some .v4) (h : NonAsciiFrame s)
  | message {frame : RawFrame} {n : Nat} {e : Exn} (ht : Takes p s (.packet frame) n)
      (hj : isJsonErrorFrame frame = true) (he : jsonErrorMessage frame.payload = .error e)

/-- The pass gets to such a frame. -/
def Client.PassEscapes (last : Int) (c : Client) : Prop :=
  c.Current last ∧ c.Readable ∧ c.CanRead (PassRaises c.protocol)

/-- A pass of `collect(reconnect=True)` raises nothing, and where receiving a frame fails it closes
the connection, so that the next pass reconnects. -/
structure Survives (last : Int) (next : Option Int) (c : Client) : Prop where
  not_raised : ∀ e c', collectStep true (.looping last next) c ≠ .error (.raised e) c'
  reconnects : ∀ e c', c.sock.isSome = true → c.Current last →
    awaitFrame c.ticked = .error (.raised e) c' →
    collectStep true (.looping last next) c = .ok (none, .looping last next) c'.closed ∧
      collectStep true (.looping last next) c'.closed = .ok (none, .reconnecting) c'.closed

theorem jsonErrorMessage_error {payload : Bytes} (h : jsonErrorMessage payload = .error e) : e.Plain := by
  unfold jsonErrorMessage at h
  simp only at h
  split at h
  · cases h
  · cases h; exact ⟨rfl, nofun⟩
  · cases h; exact ⟨rfl, nofun⟩
  · split at h <;> cases h
  · cases h

/-- A frame ends the stream, closes the connection or lets the loop go on. -/
theorem wp_handleFrame {reconnect : Bool} {x : Received} {Q : Option SeedLinkPacket × Collect → Client → Prop}
    {E : Stop → Client → Prop}
    (hmessage : ∀ frame, x = .packet frame → isJsonErrorFrame frame = true →
      ∃ message, jsonErrorMessage frame.payload = .ok message)
    (hend : x = .endOfStream → Q (none, .finished) { c with streaming := false })
    (hclose : ∀ e : Exn, e.isSeedLinkError = true →
      wp (closeAndRaise reconnect e (.looping last next)) Q E c)
    (hnext : ∀ pkt last' c', c'.sock = c.sock → c'.rb = c.rb → c'.inScope = c.inScope →
      Q (pkt, .looping last' next) c') :
    wp (handleFrame reconnect last next x) Q E c := by
  cases x with
  | endOfStream => exact hend rfl
  | reply resp => exact hclose _ rfl
  | packet frame =>
    simp only [handleFrame, wp_ite, wp_bind, wp_liftExcept]
    split
    · rename_i hj
      obtain ⟨message, hm⟩ := hmessage frame rfl hj
      rw [hm]
      exact hclose _ rfl
    · split
      · exact hnext _ _ _ rfl rfl rfl
      · exact hnext _ _ _ rfl rfl rfl

/-- What a pass receives when nothing escapes from it: something it can handle, and a connection to go on
with. -/
structure Client.Gets (c : Client) (received : Option Received) (c' : Client) : Prop where
  connected : c'.sock.isSome = true
  wf : c'.rb.WF
  inScope : c'.inScope = false
  idle : received = none → ¬ c.Readable
  endOfStream : received = some .endOfStream → c.CanRead (Bytes.lit "END" <+: ·)
  message : ∀ frame, received = some (.packet frame) → isJsonErrorFrame frame = true →
    ∃ message, jsonErrorMessage frame.payload = .ok message

theorem wp_awaitFrame_gets (hwf : c.rb.WF) (hscope : c.inScope = false) (hno : ¬ c.PassEscapes last)
    (hsk : c.sock.isSome = true) (hcur : c.Current last) :
    wp awaitFrame c.Gets (fun stop _ => ∀ e, stop = .raised e → e.isSeedLinkError = true) c.ticked := by
  obtain ⟨s, later, hf, hstall⟩ := exists_feeds hwf hsk
  refine wp_mono (wp_awaitFrame (c := c.ticked) (hf.congr rfl rfl rfl) hstall) ?_ ?_
  · intro received c' haw
    cases haw with
    | nothing hidle h hc =>
      exact ⟨h.isSome, h.wf, (inScope_of_core hc).trans hscope, fun _ => hidle, nofun, nofun⟩
    | @received k n x _ hread ht h hc =>
      refine ⟨h.isSome, h.wf, (inScope_of_core hc).trans hscope, nofun, ?_, ?_⟩
      · rintro ⟨⟩
        cases ht with
        | endOfStream hend => exact ⟨s, later, hf, hstall, hend⟩
      · rintro frame ⟨⟩ hj
        cases hm : jsonErrorMessage frame.payload with
        | ok message => exact ⟨message, rfl⟩
        | error e => exact absurd ⟨hcur, hread, s, later, hf, hstall, .message ht hj hm⟩ hno
  · rintro stop c' ⟨hread, k, hr⟩ e rfl
    rcases hr.cases with he | ⟨-, -, hin⟩ | ⟨-, hp, hn⟩
    · exact he
    · exact absurd (hscope.symm.trans hin) Bool.false_ne_true
    · exact absurd ⟨hcur, hread, s, later, hf, hstall, .frame hp hn⟩ hno

theorem survives_of_not_escapes (hwf : c.rb.WF) (hscope : c.inScope = false)
    (hno : ¬ c.PassEscapes last) : Survives last next c := by
  have hclose : ∀ (e : Exn) (g : Collect) (c' : Client), wp (closeAndRaise true e g) (fun _ _ => True)
      (fun stop _ => stop = .blocked) c' := fun e g c' => by
    simp only [closeAndRaise, wp_bind, wp_close, if_true, wp_pure]
  have hpass : wp (collectPass true last next) (fun _ _ => True) (fun stop _ => stop = .blocked) c := by
    refine wp_collectPass (fun _ => trivial) (fun _ _ message => hclose _ _ _) fun hsk hcur => ?_
    refine wp_mono (wp_awaitFrame_gets hwf hscope hno hsk hcur) ?_ ?_
    · rintro (_ | x) c' hgets
      · exact wp_keepalivePass hgets.connected (fun _ => trivial) (fun _ _ _ _ => trivial)
          fun _ _ _ => trivial
      · exact wp_handleFrame (fun frame hf => hgets.message frame (congrArg some hf)) (fun _ => trivial)
          (fun e _ => hclose e _ _) fun _ _ _ _ _ _ => trivial
    · rintro (e | _) c' he
      · show if _ then _ else _
        rw [if_pos (he e rfl)]
        exact hclose _ _ _
      · rfl
  refine ⟨fun e c' hrun => ?_, fun e c' hsk hcur hrun => ⟨?_, collectPass_of_closed rfl⟩⟩
  · cases wp_error hpass hrun
  · have he := wp_error (wp_awaitFrame_gets hwf hscope hno hsk hcur) hrun e rfl
    have hnone : c.sock ≠ none := fun h => by rw [h] at hsk; cases hsk
    obtain ⟨a, c'', hpass, rfl, rfl⟩ := wp_exists (x := collectPass true last next) (s := c)
      (Q := fun a c'' => a = (none, .looping last next) ∧ c'' = c'.closed) (by
        refine wp_collectPass (fun h => absurd h hnone) (fun _ h => absurd hcur h) fun _ _ =>
          (wp_iff_of_error hrun).2 ?_
        show if _ then _ else _
        rw [if_pos he]
        exact ⟨rfl, rfl⟩)
    exact hpass

/-- A pass that gets to a frame it does not survive raises, whether it reconnects or not. -/
theorem collectPass_of_escapes {reconnect : Bool} (h : c.PassEscapes last) : ∃ e c', e.isSeedLinkError = false ∧
    collectPass reconnect last next c = .error (.raised e) c' := by
  obtain ⟨hcur, hread, s, later, hf, hstall, hr⟩ := h
  have hf' : c.ticked.Feeds s later := hf.congr rfl rfl rfl
  have hnone : c.sock ≠ none := fun h => by have := hf.isSome; rw [h] at this; cases this
  obtain ⟨stop, c', hrun, e, rfl, he⟩ := wp_exists_error (x := collectPass reconnect last next) (s := c)
    (E := fun stop _ => ∃ e, stop = .raised e ∧ e.isSeedLinkError = false) (by
      refine wp_collectPass (fun h => absurd h hnone) (fun _ h => absurd hcur h) fun _ _ => ?_
      cases hr with
      | frame hp hn =>
        refine wp_mono (wp_awaitFrame hf' hstall) (fun received c' haw => ?_) ?_
        · cases haw with
          | nothing hno => exact absurd hread hno
          | received _ ht => exact absurd (hp ▸ ht) hn.not_takes
        · rintro stop c' ⟨-, k, hfails⟩
          obtain ⟨rfl, -⟩ := hn.recvFails (c := { c.ticked with polls := k }) hp hfails
          exact ⟨_, rfl, rfl⟩
      | @message frame n e ht hj he =>
        refine wp_awaitFrame_of hf' (.inl (Nat.lt_of_lt_of_le ht.bounds.1 ht.bounds.2))
          (fun k c' hno => absurd hread hno) fun k c₁ _ h₁ hc₁ => ?_
        have hp₁ : c₁.protocol = c.protocol := protocol_of_core (c := { c.ticked with polls := k }) hc₁
        obtain ⟨c₂, hrecv, -, -⟩ := recvFrame_of_takes (x := .packet frame) h₁ (hp₁ ▸ ht) trivial
        refine (wp_iff_of_ok hrecv).2 ?_
        simp only [handleFrame, hj, if_true, wp_bind, wp_liftExcept, he]
        exact ⟨_, rfl, (jsonErrorMessage_error he).1⟩)
  exact ⟨e, c', he, hrun⟩

theorem not_survives_of_escapes (h : c.PassEscapes last) : ¬ Survives last next c := by
  obtain ⟨e, c', -, hrun⟩ := collectPass_of_escapes h
  exact fun hsurv => hsurv.not_raised e c' hrun

theorem survives_iff (hwf : c.rb.WF) (hscope : c.inScope = false) :
    Survives last next c ↔ ¬ c.PassEscapes last :=
  ⟨fun h hesc => not_survives_of_escapes hesc h, survives_of_not_escapes hwf hscope⟩

/-- What a server's bytes can make `_recv_frame`, `info_dict` and `collect` raise, besides
`SeedLinkError`. -/
theorem failures_surface_iff (hwf : c.rb.WF) (hscope : c.inScope = false) :
    (Surfaces recvFrame c ↔ ¬ (c.protocol = some .v4 ∧ c.CanRead NonAsciiFrame)) ∧
      (∀ level, InfoSurfaces level c ↔ ¬ c.InfoEscapes level) ∧
      ∀ last next, Survives last next c ↔ ¬ c.PassEscapes last :=
  ⟨surfaces_recvFrame_iff hwf hscope, fun _ => infoSurfaces_iff hwf, fun _ _ =>
    survives_iff hwf hscope⟩

end collect

/-- A v4 packet whose format byte is not ASCII. -/
def strangePacket : Bytes := Bytes.lit "SE" ++ 255 :: Bytes.lit "D" ++ List.replicate 13 0

def strangeFormat : Client := .listening .v4 [.data strangePacket]

theorem not_surfaces_strangeFormat : ¬ @Surfaces _ (@recvFrame Pymseed.bare) strangeFormat := by
  have hfeeds : strangeFormat.Feeds strangePacket [] := by
    refine ⟨[], [.data strangePacket], ⟨RecvBuf.wf_fresh, RecvBuf.unread_fresh, _, rfl, rfl⟩, ?_, rfl⟩
    rintro ev (_ | ⟨_, ⟨⟩⟩)
    exact List.cons_ne_nil _ _
  have hn : NonAsciiFrame strangePacket :=
    ⟨by decide, by decide, by decide, by decide, .inl ⟨255, by decide, by decide⟩⟩
  intro hsurf
  obtain ⟨c', hrun, -⟩ :=
    @recvFrame_of_nonAsciiFrame _ _ _ Pymseed.bare rfl hn hfeeds (by simp [Stalls])
  exact absurd (hsurf _ _ hrun) Bool.false_ne_true

theorem failures_surface_strangeFormat :
    (@Surfaces _ (@recvFrame Pymseed.bare) strangeFormat ↔
      ¬ (strangeFormat.protocol = some .v4 ∧ strangeFormat.CanRead NonAsciiFrame)) ∧
      (∀ level, @InfoSurfaces Externals.bare level strangeFormat ↔
        ¬ @Client.InfoEscapes Externals.bare level strangeFormat) ∧
      ∀ last next, @Survives Externals.bare last next strangeFormat ↔
        ¬ @Client.PassEscapes Externals.bare last strangeFormat :=
  @failures_surface_iff Externals.bare strangeFormat RecvBuf.wf_fresh rfl

end SeedLink
