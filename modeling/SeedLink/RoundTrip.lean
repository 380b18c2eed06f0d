import SeedLink.Frames

/-!
# The v4 stream round trip

Streams of packets, ERROR lines and END markers as a server writes them. Whatever way the transport
splits such a stream, repeated calls of `recvFrame` return its items in order, and the call that
returns an item needs no byte behind it (`recvFrames_encodeAll`).
-/

namespace SeedLink

open StateExc Client

def asciiText (l : Bytes) : Text := l.map fun b => Char.ofNat b.toNat

/-- The fields of a v4 packet, within the bounds of its encoding. -/
structure V4Packet where
  format : UInt8
  subformat : UInt8
  seqnum : Nat
  stationId : Bytes
  payload : Bytes
  format_ascii : format.toNat < 128
  subformat_ascii : subformat.toNat < 128
  seqnum_lt : seqnum < 2 ^ 64
  stationId_ascii : ∀ b ∈ stationId, b.toNat < 128
  stationId_le : stationId.length ≤ maxStationid
  payload_le : payload.length ≤ maxPayloadSize

namespace V4Packet

def header (p : V4Packet) : Bytes :=
  signatureV4 ++ [p.format, p.subformat] ++ Bytes.leBytes 4 p.payload.length ++
    Bytes.leBytes 8 p.seqnum ++ Bytes.leBytes 1 p.stationId.length

def encode (p : V4Packet) : Bytes := p.header ++ p.stationId ++ p.payload

def frame (p : V4Packet) : RawFrame :=
  { stationId := asciiText p.stationId, seqnum := some p.seqnum,
    payloadFormat := asciiText [p.format], payloadSubformat := asciiText [p.subformat],
    payload := p.payload, infoContinues := false }

end V4Packet

/-- A line that begins with `ERROR`, without its terminator. -/
structure ErrorLine where
  bytes : Bytes
  ascii : ∀ b ∈ bytes, b.toNat < 128
  starts : Bytes.lit "ERROR" <+: bytes
  no_crlf : ∀ i, ¬ crlf <+: bytes.drop i
  length_le : bytes.length ≤ maxLineLen - 2

inductive StreamItem
  | packet (p : V4Packet)
  | errorLine (l : ErrorLine)
  | endMarker

namespace StreamItem

def encode : StreamItem → Bytes
  | packet p => p.encode
  | errorLine l => l.bytes ++ crlf
  | endMarker => Bytes.lit "END"

/-- What `_recv_frame` makes of the item. -/
def received : StreamItem → Received
  | packet p => .packet p.frame
  | errorLine l => .reply (parseReply (asciiText l.bytes))
  | endMarker => .endOfStream

end StreamItem

def encodeAll (items : List StreamItem) : Bytes := items.flatMap StreamItem.encode

/-! ### One item -/

namespace V4Packet
variable (p : V4Packet)

theorem header_length : p.header.length = headsizeV4 := by
  simp [header, signatureV4, Bytes.lit, headsizeV4]

/-- The fields stand at their places. -/
theorem unpackV4_header : unpackV4 p.header =
    (signatureV4, [p.format], [p.subformat], p.payload.length, p.seqnum, p.stationId.length) := by
  have hpay : p.payload.length < 256 ^ 4 := Nat.lt_of_le_of_lt p.payload_le (by decide)
  have hseq : p.seqnum < 256 ^ 8 := p.seqnum_lt
  have hsid : p.stationId.length < 256 ^ 1 := Nat.lt_of_le_of_lt p.stationId_le (by decide)
  have h4 : (p.header.drop 4).take 4 = Bytes.leBytes 4 p.payload.length := rfl
  have h8 : (p.header.drop 8).take 8 = Bytes.leBytes 8 p.seqnum := rfl
  have h16 : (p.header.drop 16).take 1 = Bytes.leBytes 1 p.stationId.length := rfl
  unfold unpackV4
  rw [h4, h8, h16, Bytes.leNat_leBytes hpay, Bytes.leNat_leBytes hseq, Bytes.leNat_leBytes hsid]
  rfl

theorem parseHeaderV4_header : parseHeaderV4 p.header =
    .ok { payloadFormat := asciiText [p.format], payloadSubformat := asciiText [p.subformat],
          payloadLength := p.payload.length, seqnum := p.seqnum,
          stationIdLength := p.stationId.length } := by
  have hlen : ¬ p.header.length < headsizeV4 := by rw [header_length]; exact Nat.lt_irrefl _
  have hpay : ¬ p.payload.length > maxPayloadSize := Nat.not_lt.2 p.payload_le
  have hsid : ¬ p.stationId.length > maxStationid := Nat.not_lt.2 p.stationId_le
  have hfmt : Bytes.decodeAscii [p.format] = some (asciiText [p.format]) :=
    Bytes.decodeAscii_of_ascii (by simpa using p.format_ascii)
  have hsub : Bytes.decodeAscii [p.subformat] = some (asciiText [p.subformat]) :=
    Bytes.decodeAscii_of_ascii (by simpa using p.subformat_ascii)
  simp only [parseHeaderV4, hlen, unpackV4_header, hpay, hsid, hfmt, hsub, ne_eq,
    not_true_eq_false, if_false]

theorem decodesV4 (rest : Bytes) : DecodesV4 (p.encode ++ rest) p.frame p.encode.length := by
  have hsplit : p.encode ++ rest = p.header ++ (p.stationId ++ (p.payload ++ rest)) := by
    simp [encode]
  have htake : (p.encode ++ rest).take headsizeV4 = p.header := by
    rw [hsplit, List.take_left' p.header_length]
  have hdrop : (p.encode ++ rest).drop headsizeV4 = p.stationId ++ (p.payload ++ rest) := by
    rw [hsplit, List.drop_left' p.header_length]
  have hlen : p.encode.length = headsizeV4 + p.stationId.length + p.payload.length := by
    simp [encode, header_length, Nat.add_assoc]
  refine ⟨?_, _, (congrArg parseHeaderV4 htake).trans p.parseHeaderV4_header, hlen.symm, ?_, ?_⟩
  · rw [List.length_append, hlen]; omega
  · rw [List.length_append]; omega
  · have hsid : Bytes.decodeAscii p.stationId = some (asciiText p.stationId) :=
      Bytes.decodeAscii_of_ascii p.stationId_ascii
    simp only [frameV4, hdrop, List.take_left, hsid]
    rw [← List.drop_drop, hdrop, List.drop_left, List.take_left]
    rfl

end V4Packet

/-- A line without a terminator ends at the first one, also when its last byte is a CR. -/
theorem findSub_crlf_append {l : Bytes} (hl : ∀ j, ¬ crlf <+: l.drop j) (rest : Bytes) :
    Text.findSub crlf (l ++ crlf ++ rest) = some l.length := by
  rw [Text.findSub_eq_some]
  refine ⟨by simp, ?_, fun j hj hp => ?_⟩
  · rw [List.append_assoc, List.drop_left]
    exact List.prefix_append _ _
  · rw [List.append_assoc, List.drop_append_of_le_length (by omega)] at hp
    by_cases h2 : crlf.length ≤ (l.drop j).length
    · exact hl j ((List.isPrefix_append_of_length h2).1 hp)
    · -- only the last byte of the line is left, and it is followed by a CR
      have h1 : (l.drop j).length = 1 := by
        have hcrlf : crlf.length = 2 := rfl
        rw [List.length_drop] at h2 ⊢; omega
      obtain ⟨b, hb⟩ := List.length_eq_one_iff.1 h1
      rw [hb] at hp
      simp [crlf, List.cons_prefix_cons] at hp

namespace ErrorLine
variable (l : ErrorLine)

/-- The line's own terminator is the first one. -/
theorem findSub_crlf (rest : Bytes) :
    Text.findSub crlf (l.bytes ++ crlf ++ rest) = some l.bytes.length :=
  findSub_crlf_append l.no_crlf rest

theorem decodeAscii : Bytes.decodeAscii l.bytes = some (asciiText l.bytes) :=
  Bytes.decodeAscii_of_ascii l.ascii

end ErrorLine

section items
variable [Pymseed]

theorem StreamItem.takes (item : StreamItem) (rest : Bytes) :
    Takes (some .v4) (item.encode ++ rest) item.received item.encode.length ∧
      item.received.Short item.encode.length := by
  cases item with
  | packet p =>
    refine ⟨.packetV4 rfl (.inr ?_) (p.decodesV4 rest), trivial⟩
    simp only [StreamItem.encode, V4Packet.encode, V4Packet.header, List.append_assoc]
    exact List.prefix_append _ _
  | errorLine l =>
    have hlen : (l.bytes ++ crlf).length = l.bytes.length + 2 := List.length_append
    have hshort : l.bytes.length + 2 ≤ maxLineLen := by
      have h := l.length_le
      have h2 : 2 ≤ maxLineLen := by decide
      omega
    simp only [StreamItem.encode, StreamItem.received, hlen]
    refine ⟨.reply ?_ (l.findSub_crlf rest) ?_, hshort⟩
    · rw [List.append_assoc]
      exact l.starts.trans (List.prefix_append _ _)
    · rw [List.append_assoc, List.take_left, l.decodeAscii]
  | endMarker => exact ⟨.endOfStream (List.prefix_append _ _), trivial⟩

/-! ### Streams of items -/

/-- `n` calls of `recvFrame`. -/
def recvFrames : Nat → ClientM (List Received)
  | 0 => return []
  | n + 1 => do
    let x ← recvFrame
    let xs ← recvFrames n
    return x :: xs

/-- Bytes that are read as the item, whatever follows them. -/
def ReadsAs (p : Option Protocol) (item : Bytes × Received) : Prop :=
  ∀ rest, Takes p (item.1 ++ rest) item.2 item.1.length ∧ item.2.Short item.1.length

theorem wp_recvFrames {p : Option Protocol} {E : Stop → Client → Prop} {rest : Bytes} {later : List Recv} :
    ∀ (items : List (Bytes × Received)) (c : Client), (∀ item ∈ items, ReadsAs p item) →
      c.protocol = p → c.Feeds (items.flatMap Prod.fst ++ rest) later →
      wp (recvFrames items.length)
        (fun xs c' => xs = items.map Prod.snd ∧ c'.Feeds rest later ∧ c'.core = c.core) E c
  | [], c, _, _, h => ⟨rfl, h, rfl⟩
  | item :: items, c, hitems, hp, h => by
    rw [List.flatMap_cons, List.append_assoc] at h
    obtain ⟨ht, hshort⟩ := hitems item List.mem_cons_self (items.flatMap Prod.fst ++ rest)
    simp only [List.length_cons, recvFrames, wp_bind, wp_pure]
    refine wp_recvFrame h (.inl ⟨_, _, hp ▸ ht, hshort⟩) fun x n c₁ ht₁ h₁ hc₁ => ?_
    obtain ⟨rfl, rfl⟩ := (hp ▸ ht : Takes c.protocol _ _ _).unique ht₁
    rw [List.drop_left] at h₁
    refine wp_mono (wp_recvFrames items c₁ (fun item h => hitems item (List.mem_cons_of_mem _ h))
      ((protocol_of_core hc₁).trans hp) h₁) ?_ fun _ _ h => h
    rintro xs c' ⟨rfl, h', hc'⟩
    exact ⟨rfl, h', hc'.trans hc₁⟩

/-- Whatever way the bytes of the items are split, repeated calls return the items, and leave what is
behind them. -/
theorem recvFrames_items {items : List (Bytes × Received)} {rest : Bytes} {chunks : List Bytes}
    {later : List Recv} {c : Client} {sk : Sock} (hitems : ∀ item ∈ items, ReadsAs c.protocol item)
    (hwf : c.rb.WF) (hsk : c.sock = some sk) (hin : sk.incoming = chunks.map Recv.data ++ later)
    (hne : [] ∉ chunks) (hs : c.rb.unread ++ chunks.flatten = items.flatMap Prod.fst ++ rest) :
    ∃ c' now sk', recvFrames items.length c = .ok (items.map Prod.snd) c' ∧
      c'.sock = some sk' ∧ sk'.incoming = now ++ later ∧ c'.rb.unread ++ delivered now = rest := by
  have hdel : delivered (chunks.map Recv.data) = chunks.flatten := by
    simp [delivered, List.flatMap_map, List.flatMap_id']
  have hfeeds : c.Feeds (items.flatMap Prod.fst ++ rest) later := by
    refine ⟨_, chunks.map Recv.data, ⟨hwf, rfl, sk, hsk, hin⟩, ?_, by rw [hdel, hs]⟩
    intro ev hev
    obtain ⟨chunk, hc, rfl⟩ := List.mem_map.1 hev
    exact fun h => hne (h ▸ hc)
  obtain ⟨xs, c', hrun, rfl, ⟨u, now, hat, -, hrest⟩, -⟩ := wp_exists (wp_recvFrames items c hitems rfl hfeeds)
  obtain ⟨sk', hsk', hin'⟩ := hat.conn
  exact ⟨c', now, sk', hrun, hsk', hin', by rw [hat.unread, hrest]⟩

/-- A v4 client whose unread bytes and coming reads are the encodings of the items returns exactly
these, in order, however the bytes are split. Nothing behind the last item is needed: `rest` may be
empty and `later` anything, a connection that stalls for ever included. -/
theorem recvFrames_encodeAll (items : List StreamItem) (rest : Bytes) (chunks : List Bytes)
    (later : List Recv) (c : Client) (sk : Sock) (hp : c.protocol = some .v4) (hwf : c.rb.WF)
    (hsk : c.sock = some sk) (hin : sk.incoming = chunks.map Recv.data ++ later)
    (hne : [] ∉ chunks) (hs : c.rb.unread ++ chunks.flatten = encodeAll items ++ rest) :
    ∃ c' now sk', recvFrames items.length c = .ok (items.map StreamItem.received) c' ∧
      c'.sock = some sk' ∧ sk'.incoming = now ++ later ∧ c'.rb.unread ++ delivered now = rest := by
  have hitems : ∀ item ∈ items.map (fun item => (item.encode, item.received)), ReadsAs c.protocol item := by
    intro item hmem rest'
    obtain ⟨item, -, rfl⟩ := List.mem_map.1 hmem
    rw [hp]
    exact item.takes rest'
  have hbytes : (items.map fun item => (item.encode, item.received)).flatMap Prod.fst = encodeAll items := by
    rw [encodeAll, List.flatMap_map]
  obtain ⟨c', now, sk', hrun, hrest⟩ := recvFrames_items hitems hwf hsk hin hne (by rw [hbytes, hs])
  rw [List.length_map, List.map_map] at hrun
  exact ⟨c', now, sk', hrun, hrest⟩

end items

/-- A packet and an ERROR line, split inside both, on a connection that then stalls. -/
theorem recvFrames_encodeAll_example :
    ∃ c', @recvFrames Pymseed.bare 2 (.listening .v4
        [.data [83, 69, 50, 68, 2, 0, 0], .data [0, 7, 0, 0, 0, 0, 0, 0, 0, 1, 88, 8],
          .data [9, 69, 82, 82], .data [79, 82, 13], .data [10]]) =
      .ok [.packet { stationId := ['X'], seqnum := some 7, payloadFormat := ['2'],
                     payloadSubformat := ['D'], payload := [8, 9], infoContinues := false },
        .reply (parseReply "ERROR".toList)] c' := by
  let packet : V4Packet := ⟨50, 68, 7, [88], [8, 9], by decide, by decide, by decide, by simp, by decide,
    by decide⟩
  let line : ErrorLine := ⟨Bytes.lit "ERROR", by simp [Bytes.lit], List.prefix_refl _,
    Text.findSub_eq_none.1 (by decide), by decide⟩
  obtain ⟨c', -, -, h, -⟩ := @recvFrames_encodeAll Pymseed.bare [.packet packet, .errorLine line] []
    [[83, 69, 50, 68, 2, 0, 0], [0, 7, 0, 0, 0, 0, 0, 0, 0, 1, 88, 8], [9, 69, 82, 82],
      [79, 82, 13], [10]] []
    (.listening .v4 [.data [83, 69, 50, 68, 2, 0, 0], .data [0, 7, 0, 0, 0, 0, 0, 0, 0, 1, 88, 8],
      .data [9, 69, 82, 82], .data [79, 82, 13], .data [10]]) _ rfl RecvBuf.wf_fresh rfl rfl
    (by decide) (by decide)
  exact ⟨c', h⟩

end SeedLink
