import SeedLink.RoundTrip

/-!
# The v3 stream round trip

A v3 frame does not say how long its record is; the client asks a detector about ever longer starts of
what follows the header. A record whose length is a power of two is found by the time all of it has
been looked at, so that repeated calls of `recvFrame` return the frames of a stream in order, whatever
way it is split, and look at nothing behind the last one (`recvFrames_records`).
-/

namespace SeedLink

open StateExc Client

/-! ### Headers -/

def hexValue (digits : Bytes) : Nat := digits.foldl (fun acc b => acc * 16 + (hexDigit? b).getD 0) 0

/-- `SL` with six hexadecimal digits, or `SLINFO` with two more bytes. -/
inductive V3Header
  | data (digits : Bytes) (length_eq : digits.length = 6) (hex : ∀ b ∈ digits, (hexDigit? b).isSome = true)
  | info (b flag : UInt8)

namespace V3Header

def encode : V3Header → Bytes
  | data digits _ _ => signatureV3 ++ digits
  | info b flag => infoSignatureV3 ++ [b, flag]

/-- What the header says. -/
def parsed : V3Header → HeaderV3
  | data digits _ _ => { seqnum := some (hexValue digits), isInfo := false, infoContinues := false }
  | info _ flag => { seqnum := none, isInfo := true, infoContinues := flag = 42 }

theorem length_encode (h : V3Header) : h.encode.length = headsizeV3 := by
  cases h with
  | data digits hlen hex => simp [encode, signatureV3, Bytes.lit, hlen, headsizeV3]
  | info b flag => rfl

end V3Header

theorem hexDigits_of_hex : ∀ {digits : Bytes} {acc : Nat}, (∀ b ∈ digits, (hexDigit? b).isSome = true) →
    hexDigits acc false digits =
      some (digits.foldl (fun acc b => acc * 16 + (hexDigit? b).getD 0) acc, [])
  | [], acc, _ => rfl
  | b :: digits, acc, h => by
    obtain ⟨d, hd⟩ := Option.isSome_iff_exists.1 (h b List.mem_cons_self)
    have hne : b ≠ 95 := by
      rintro rfl
      cases hd
    rw [hexDigits, if_neg hne, hd, List.foldl_cons, hd]
    exact hexDigits_of_hex fun b' hb' => h b' (List.mem_cons_of_mem _ hb')

/-- A hexadecimal digit is neither white space nor a sign, and no `x` follows it. -/
theorem hexDigit_plain {b : UInt8} (h : (hexDigit? b).isSome = true) :
    isByteSpace b = false ∧ b ≠ 45 ∧ b ≠ 43 ∧ b ≠ 120 ∧ b ≠ 88 := by
  have key : ∀ n < 256, (hexDigit? (UInt8.ofNat n)).isSome = true →
      isByteSpace (UInt8.ofNat n) = false ∧ UInt8.ofNat n ≠ 45 ∧ UInt8.ofNat n ≠ 43 ∧
        UInt8.ofNat n ≠ 120 ∧ UInt8.ofNat n ≠ 88 := by decide +kernel
  have := key b.toNat b.toNat_lt
  rw [UInt8.ofNat_toNat] at this
  exact this h

theorem intBase16_of_hex {digits : Bytes} (hne : digits ≠ []) (h : ∀ b ∈ digits, (hexDigit? b).isSome = true) :
    intBase16 digits = some (hexValue digits) := by
  obtain ⟨b, rest, rfl⟩ := List.exists_cons_of_ne_nil hne
  obtain ⟨hspace, hminus, hplus, -, -⟩ := hexDigit_plain (h b List.mem_cons_self)
  have hdrop : (b :: rest).dropWhile isByteSpace = b :: rest := by
    rw [List.dropWhile_cons_of_neg (by rw [hspace]; exact Bool.false_ne_true)]
  have hsign : signAndPrefix (b :: rest) = (false, b :: rest) := by
    unfold signAndPrefix
    split
    rename_i negative s hs
    have hs' : negative = false ∧ s = b :: rest := by
      split at hs
      · rename_i heq; cases heq; exact absurd rfl hminus
      · rename_i heq; cases heq; exact absurd rfl hplus
      · cases hs; exact ⟨rfl, rfl⟩
    obtain ⟨rfl, rfl⟩ := hs'
    split
    · rename_i x tail heq
      cases heq
      obtain ⟨-, -, -, hx, hX⟩ := hexDigit_plain (h x (by simp))
      rw [if_neg (by simp [hx, hX])]
    · rfl
  obtain ⟨d, hd⟩ := Option.isSome_iff_exists.1 (h b List.mem_cons_self)
  have hdigits := @hexDigits_of_hex rest d fun b' hb' => h b' (List.mem_cons_of_mem _ hb')
  unfold intBase16
  rw [hdrop, hsign]
  simp only [hd, hdigits, hexValue, List.foldl_cons]
  simp

theorem parseHeaderV3_encode (h : V3Header) : parseHeaderV3 h.encode = .ok h.parsed := by
  have hlen : ¬ h.encode.length < headsizeV3 := by rw [h.length_encode]; exact Nat.lt_irrefl _
  unfold parseHeaderV3
  rw [if_neg hlen]
  cases h with
  | info b flag =>
    have htake : (V3Header.info b flag).encode.take 6 = infoSignatureV3 := rfl
    have hflag : (((V3Header.info b flag).encode.drop 7).take 1 = Bytes.lit "*") ↔ flag = 42 := by
      show [flag] = [42] ↔ flag = 42
      simp
    rw [if_pos htake]
    simp only [V3Header.parsed, hflag]
  | data digits hlen6 hex =>
    have hsig : (V3Header.data digits hlen6 hex).encode.take 2 = signatureV3 := rfl
    have hdigits : ((V3Header.data digits hlen6 hex).encode.drop 2).take 6 = digits :=
      List.take_of_length_le (Nat.le_of_eq hlen6)
    -- an `I` is no digit
    have hinfo : (V3Header.data digits hlen6 hex).encode.take 6 ≠ infoSignatureV3 := by
      intro heq
      obtain ⟨b, rest, rfl⟩ := List.exists_cons_of_length_pos (by omega : 0 < digits.length)
      have hb : (hexDigit? b).isSome = true := hex b List.mem_cons_self
      have h2 := congrArg (·[2]?) heq
      have : b = 73 := by simpa [V3Header.encode, signatureV3, infoSignatureV3, Bytes.lit] using h2
      rw [this] at hb
      cases hb
    have hne : digits ≠ [] := by rintro rfl; cases hlen6
    rw [if_neg hinfo, if_pos hsig, hdigits, intBase16_of_hex hne hex]
    rfl

/-! ### Frames -/

/-- A header and a record whose length is a power of two. -/
structure V3Frame where
  header : V3Header
  record : Bytes
  exponent : Nat
  length_eq : record.length = 2 ^ exponent
  length_ge : minPayloadDetect ≤ record.length
  length_le : record.length ≤ maxRecordLen

namespace V3Frame

def encode (f : V3Frame) : Bytes := f.header.encode ++ f.record

end V3Frame

section frames
variable [Pymseed]

/-- The detector tells the length of the record from its start, or not yet, and tells it once the whole
record is there, whatever follows. -/
structure Detects (r : Bytes) : Prop where
  early : ∀ m, minPayloadDetect ≤ m → m < r.length →
    Pymseed.ms3Detect (r.take m) = 0 ∨ Pymseed.ms3Detect (r.take m) = r.length
  whole : ∀ rest, Pymseed.ms3Detect (r ++ rest) = r.length

/-- What the frame is received as, when its record parses. -/
inductive V3Frame.Decodes : V3Frame → RawFrame → Prop
  | data {f : V3Frame} {digits : Bytes} {hlen : digits.length = 6} {hex : ∀ b ∈ digits, (hexDigit? b).isSome = true}
      {record : Record} (hh : f.header = .data digits hlen hex) (hr : parseRecord f.record = .ok record) :
      Decodes f { stationId := stationId record, seqnum := some (hexValue digits),
                  payloadFormat := formatMseed2, payloadSubformat := "D".toList, payload := f.record,
                  infoContinues := false, record := some record }
  | info {f : V3Frame} {b flag : UInt8} {text : Text} (hh : f.header = .info b flag)
      (ht : extractInfoText f.record = .ok text) :
      Decodes f { stationId := [], seqnum := none, payloadFormat := formatXml,
                  payloadSubformat := subformatJsonInfo, payload := Bytes.encodeUtf8 text,
                  infoContinues := flag = 42 }

variable {f : V3Frame} {frame : RawFrame}

theorem V3Frame.Decodes.decodeFrameV3 (h : f.Decodes frame) :
    SeedLink.decodeFrameV3 f.header.parsed f.record = .ok frame := by
  cases h with
  | data hh hr => rw [hh]; simp only [SeedLink.decodeFrameV3, V3Header.parsed, hr]; rfl
  | info hh ht => rw [hh]; simp only [SeedLink.decodeFrameV3, V3Header.parsed, ht]; rfl

/-- The sizes looked at double up to the length of the record. -/
theorem detectOn_record {r : Bytes} {e : Nat} (hlen : r.length = 2 ^ e) (hle : r.length ≤ maxRecordLen)
    (hd : Detects r) (rest : Bytes) : ∀ (fuel k : Nat), minPayloadDetect ≤ 2 ^ k → k ≤ e → e < k + fuel →
      detectOn fuel (2 ^ k) (r ++ rest) = some (.ok r.length)
  | 0, k, _, hke, hfuel => by omega
  | fuel + 1, k, hmin, hke, hfuel => by
    have hpow : 2 ^ k ≤ r.length := hlen ▸ Nat.pow_le_pow_right (by decide) hke
    have hpos : 0 < r.length := Nat.lt_of_lt_of_le (by decide) (Nat.le_trans hmin hpow)
    have hfound : ∀ buf, Pymseed.ms3Detect buf = r.length → detectRecordLength buf = .ok (some r.length) := by
      intro buf hbuf
      unfold detectRecordLength
      simp only [hbuf]
      rw [if_neg (by omega), if_neg (by omega)]
      rfl
    have hlong : ¬ (r ++ rest).length < 2 ^ k := by rw [List.length_append]; omega
    unfold detectOn
    rw [if_neg hlong, List.take_append_of_le_length hpow]
    rcases Nat.lt_or_eq_of_le hke with hlt | rfl
    · have hlt' : 2 ^ k < r.length := hlen ▸ Nat.pow_lt_pow_right (by decide) hlt
      rcases hd.early (2 ^ k) hmin hlt' with h0 | hlen'
      · -- not yet: the next size still fits into the record
        have hnone : detectRecordLength (r.take (2 ^ k)) = .ok none := by
          simp [detectRecordLength, h0]
        have hdouble : 2 ^ (k + 1) ≤ r.length := hlen ▸ Nat.pow_le_pow_right (by decide) hlt
        rw [hnone]
        simp only
        rw [if_neg (by omega), ← Nat.pow_succ, Nat.min_eq_left (by omega)]
        exact detectOn_record hlen hle hd rest fuel (k + 1) (by rw [Nat.pow_succ]; omega) hlt (by omega)
      · rw [hfound _ hlen']
    · rw [← hlen, List.take_length]
      have := hd.whole []
      rw [List.append_nil] at this
      rw [hfound _ this]

theorem V3Frame.readsAs (hd : Detects f.record) (h : f.Decodes frame) :
    ReadsAs (some .v3) (f.encode, .packet frame) := by
  intro rest
  have hsplit : f.encode ++ rest = f.header.encode ++ (f.record ++ rest) := List.append_assoc _ _ _
  have htake : (f.encode ++ rest).take headsizeV3 = f.header.encode := by
    rw [hsplit, List.take_left' f.header.length_encode]
  have hdrop : (f.encode ++ rest).drop headsizeV3 = f.record ++ rest := by
    rw [hsplit, List.drop_left' f.header.length_encode]
  have hexp : f.exponent < 6 + 15 := by
    have hlt : 2 ^ f.exponent < 2 ^ 21 := by
      rw [← f.length_eq]
      exact Nat.lt_of_le_of_lt f.length_le (by decide)
    exact (Nat.pow_lt_pow_iff_right (by decide)).1 hlt
  have hexp' : 6 ≤ f.exponent := by
    have hle : 2 ^ 6 ≤ 2 ^ f.exponent := f.length_eq ▸ f.length_ge
    exact (Nat.pow_le_pow_iff_right (by decide)).1 hle
  refine ⟨.packetV3 nofun (.inl ?_) ⟨?_, f.header.parsed, f.record.length, ?_, ?_, ?_, ?_, ?_⟩, trivial⟩
  · rw [hsplit]
    cases f.header with
    | data digits hlen hex => exact (List.prefix_append _ _).trans (List.prefix_append _ _)
    | info b flag => exact ⟨_, rfl⟩
  · rw [hsplit, List.length_append, f.header.length_encode]; omega
  · rw [htake, parseHeaderV3_encode]
  · rw [hdrop]
    exact detectOn_record f.length_eq f.length_le hd rest 15 6 (by decide) hexp' hexp
  · rw [hdrop, List.length_append]; omega
  · rw [hdrop, List.take_left, h.decodeFrameV3]
  · show (f.header.encode ++ f.record).length = _
    rw [List.length_append, f.header.length_encode]

/-- A v3 client whose unread bytes and coming reads are a stream of frames, whose records the detector
tells and the adapter parses, returns exactly these, in order, however the bytes are split. Nothing
behind the last frame is needed. -/
theorem recvFrames_records (frames : List (V3Frame × RawFrame)) (rest : Bytes) (chunks : List Bytes)
    (later : List Recv) (c : Client) (sk : Sock) (hp : c.protocol = some .v3)
    (hdetects : ∀ f ∈ frames, Detects f.1.record) (hdecodes : ∀ f ∈ frames, f.1.Decodes f.2)
    (hwf : c.rb.WF) (hsk : c.sock = some sk) (hin : sk.incoming = chunks.map Recv.data ++ later)
    (hne : [] ∉ chunks)
    (hs : c.rb.unread ++ chunks.flatten = frames.flatMap (fun f => f.1.encode) ++ rest) :
    ∃ c' now sk', recvFrames frames.length c = .ok (frames.map fun f => .packet f.2) c' ∧
      c'.sock = some sk' ∧ sk'.incoming = now ++ later ∧ c'.rb.unread ++ delivered now = rest := by
  have hitems : ∀ item ∈ frames.map (fun f => (f.1.encode, Received.packet f.2)), ReadsAs c.protocol item := by
    intro item hmem
    obtain ⟨f, hf, rfl⟩ := List.mem_map.1 hmem
    rw [hp]
    exact f.1.readsAs (hdetects f hf) (hdecodes f hf)
  have hbytes : (frames.map fun f => (f.1.encode, Received.packet f.2)).flatMap Prod.fst =
      frames.flatMap fun f => f.1.encode := by
    rw [List.flatMap_map]
  obtain ⟨c', now, sk', hrun, hrest⟩ := recvFrames_items hitems hwf hsk hin hne (by rw [hbytes, hs])
  rw [List.length_map, List.map_map] at hrun
  exact ⟨c', now, sk', hrun, hrest⟩

end frames

/-- Records of 128 bytes of station XX_ABC that carry their length in a blockette 1000 at byte 48. -/
abbrev Pymseed.blockette1000 : Pymseed where
  ms3Detect buf := if buf.take 7 = Bytes.lit "000001D" then 2 ^ (buf.getD 54 0).toNat else -1
  parse buf := if buf.length = 128 then .ok buf else .error "Record length mismatch"
  parseUnpacked buf := if buf.length = 128 then .ok buf else .error "Record length mismatch"
  netSta record := (asciiText ((record.drop 18).take 2), asciiText ((record.drop 8).take 3))
  starttimeStr _ := "2024-05-06T00:00:00Z".toList
  sampletype _ := "t".toList
  datasamples record := (record.drop 64).take 7

def recordABC : Bytes :=
  Bytes.lit "000001D ABC    BHZXX" ++ [7, 232, 0, 127, 0, 0, 0, 0, 0, 0] ++ List.replicate 16 0 ++ [0, 48] ++
    [3, 232, 0, 0, 0, 1, 7, 0] ++ List.replicate 8 0 ++ Bytes.lit "<xml />" ++ List.replicate 57 0

theorem length_recordABC : recordABC.length = 128 := by simp [recordABC, Bytes.lit]

/-- The blockette of a record is within its first 64 bytes. -/
theorem detects_blockette1000 {r : Bytes} (hlen : r.length = 128) (hcode : r.take 7 = Bytes.lit "000001D")
    (hexp : r[54]? = some 7) : @Detects Pymseed.blockette1000 r := by
  have htell : ∀ buf, r.take 64 <+: buf → Pymseed.blockette1000.ms3Detect buf = 128 := by
    rintro _ ⟨t, rfl⟩
    show (if (r.take 64 ++ t).take 7 = _ then _ else _) = _
    have hlen' : (r.take 64).length = 64 := by rw [List.length_take, hlen]; rfl
    have h7 : (r.take 64 ++ t).take 7 = Bytes.lit "000001D" := by
      rw [List.take_append_of_le_length (by omega), List.take_take]
      exact hcode
    have h54 : (r.take 64 ++ t).getD 54 0 = 7 := by
      rw [List.getD_eq_getElem?_getD, List.getElem?_append_left (by omega), List.getElem?_take_of_lt (by decide), hexp]
      rfl
    rw [if_pos h7, h54]
    rfl
  have hcast : (r.length : Int) = 128 := by rw [hlen]; rfl
  let _ : Pymseed := Pymseed.blockette1000
  refine ⟨fun m hm _ => .inr ((htell _ ?_).trans hcast.symm), fun rest => (htell _ ?_).trans hcast.symm⟩
  · exact List.take_prefix_take_left hm
  · exact (List.take_prefix _ _).trans (List.prefix_append _ _)

theorem detects_recordABC : @Detects Pymseed.blockette1000 recordABC := detects_blockette1000 length_recordABC rfl rfl

section blockette
variable {r : Bytes}

theorem parseRecord_blockette1000 (h : r.length = 128) : @parseRecord Pymseed.blockette1000 r = .ok r := by
  have hp : Pymseed.blockette1000.parse r = .ok r := if_pos h
  unfold parseRecord
  rw [hp]

theorem extractInfoText_blockette1000 (h : r.length = 128) :
    @extractInfoText Pymseed.blockette1000 r = .ok (Bytes.decodeUtf8 ((r.drop 64).take 7)) := by
  have hp : Pymseed.blockette1000.parseUnpacked r = .ok r := if_pos h
  unfold extractInfoText
  rw [hp]
  rfl

end blockette

def frameABC (header : V3Header) : V3Frame :=
  ⟨header, recordABC, 7, length_recordABC, by rw [length_recordABC]; decide, by rw [length_recordABC]; decide⟩

/-- A packet and an INFO reply. -/
def framesABC : List (V3Frame × RawFrame) :=
  [(frameABC (.data (Bytes.lit "00002a") rfl (List.all_eq_true.1 (by decide))),
      { stationId := "XX_ABC".toList, seqnum := some 42, payloadFormat := formatMseed2,
        payloadSubformat := "D".toList, payload := recordABC, infoContinues := false,
        record := some recordABC }),
    (frameABC (.info 32 42),
      { stationId := [], seqnum := none, payloadFormat := formatXml, payloadSubformat := subformatJsonInfo,
        payload := Bytes.encodeUtf8 "<xml />".toList, infoContinues := true })]

/-- Their bytes, split inside the first header. -/
theorem recvFrames_records_framesABC :
    let bytes := framesABC.flatMap fun f => f.1.encode
    ∃ c', @recvFrames Pymseed.blockette1000 2 (.listening .v3 [.data (bytes.take 5), .data (bytes.drop 5)]) =
      .ok (framesABC.map fun f => .packet f.2) c' := by
  intro bytes
  have hinfo : Bytes.decodeUtf8 ((recordABC.drop 64).take 7) = "<xml />".toList := by
    decide +kernel
  have hdecodes : ∀ f ∈ framesABC, @V3Frame.Decodes Pymseed.blockette1000 f.1 f.2 := by
    let _ : Pymseed := Pymseed.blockette1000
    intro f hf
    rcases List.mem_cons.1 hf with rfl | hf
    · exact V3Frame.Decodes.data (f := frameABC _) rfl (parseRecord_blockette1000 length_recordABC)
    · obtain rfl := List.mem_singleton.1 hf
      exact V3Frame.Decodes.info (f := frameABC _) rfl (hinfo ▸ extractInfoText_blockette1000 length_recordABC)
  have hdetects : ∀ f ∈ framesABC, @Detects Pymseed.blockette1000 f.1.record := by
    intro f hf
    rcases List.mem_cons.1 hf with rfl | hf
    · exact detects_recordABC
    · obtain rfl := List.mem_singleton.1 hf
      exact detects_recordABC
  have hne : [] ∉ [bytes.take 5, bytes.drop 5] := by
    decide +kernel
  have hbytes : RecvBuf.fresh.unread ++ [bytes.take 5, bytes.drop 5].flatten = bytes ++ [] := by
    rw [RecvBuf.unread_fresh]
    simp
  obtain ⟨c', -, -, h, -⟩ := @recvFrames_records Pymseed.blockette1000 framesABC [] [bytes.take 5, bytes.drop 5] []
    (.listening .v3 [.data (bytes.take 5), .data (bytes.drop 5)]) _ rfl hdetects hdecodes RecvBuf.wf_fresh rfl rfl
    hne hbytes
  exact ⟨c', h⟩

end SeedLink
