import SeedLink.Escapes
import SeedLink.Lib.Utf8
import SeedLink.RecordStream

/-!
# The text of an INFO reply

A v3 server sends an INFO reply as the data of several records. Each of them is decoded on its own before they
are joined, so that `info` returns the text that was sent exactly when no character is cut apart
(`info_eq_iff`).
-/

namespace SeedLink

open StateExc Client

section packets
variable [Pymseed]

/-- An INFO packet whose record carries the piece of text. -/
structure V3Frame.Carries (f : V3Frame) (continues : Bool) (piece : Bytes) : Prop where
  header : ∃ b flag, f.header = .info b flag ∧ decide (flag = 42) = continues
  detects : Detects f.record
  record : ∃ record, Pymseed.parseUnpacked f.record = .ok record ∧ Pymseed.sampletype record = "t".toList ∧
    Pymseed.datasamples record = piece

/-- A reply in packets, all but the last marked as continuing, and the pieces they carry. -/
inductive InfoPackets : List V3Frame → List Bytes → Prop
  | last {f : V3Frame} {piece : Bytes} (h : f.Carries false piece) : InfoPackets [f] [piece]
  | more {f : V3Frame} {piece : Bytes} {frames : List V3Frame} {pieces : List Bytes} (h : f.Carries true piece)
      (hrest : InfoPackets frames pieces) : InfoPackets (f :: frames) (piece :: pieces)

variable {f : V3Frame} {continues : Bool} {piece : Bytes} {frames : List V3Frame} {pieces : List Bytes}

/-- Such a packet is received as one of an INFO reply that says what the piece is decoded to. -/
theorem V3Frame.Carries.takes (h : f.Carries continues piece) (rest : Bytes) :
    ∃ frame, Takes (some .v3) (f.encode ++ rest) (.packet frame) f.encode.length ∧ isInfoPayload frame ∧
      frame.infoContinues = continues ∧ Bytes.decodeUtf8 frame.payload = Bytes.decodeUtf8 piece := by
  obtain ⟨b, flag, hheader, hflag⟩ := h.header
  obtain ⟨record, hparse, htype, hdata⟩ := h.record
  have htext : extractInfoText f.record = .ok (Bytes.decodeUtf8 piece) := by
    unfold extractInfoText
    rw [hparse]
    simp only [htype, ne_eq, not_true_eq_false, if_false, hdata]
  have hdec := V3Frame.Decodes.info hheader htext
  exact ⟨_, (V3Frame.readsAs h.detects hdec rest).1, .inr rfl, hflag, Bytes.decodeUtf8_encodeUtf8 _⟩

/-- The reply is read as what its pieces are decoded to, one by one. -/
theorem InfoPackets.infoText (h : InfoPackets frames pieces) (rest : Bytes) :
    InfoText (some .v3) (frames.flatMap V3Frame.encode ++ rest) (pieces.flatMap Bytes.decodeUtf8) := by
  induction h with
  | @last f piece hf =>
    obtain ⟨frame, htakes, hinfo, hcont, htext⟩ := hf.takes rest
    have := InfoText.last htakes hinfo hcont
    rw [htext] at this
    simpa using this
  | @more f piece frames pieces hf _ ih =>
    rw [List.flatMap_cons, List.append_assoc, List.flatMap_cons]
    obtain ⟨frame, htakes, hinfo, hcont, htext⟩ := hf.takes (frames.flatMap V3Frame.encode ++ rest)
    rw [← htext]
    refine .more htakes hinfo hcont ?_
    rwa [List.drop_left]

end packets

section info
variable [Externals] {level : Text} {c : Client} {frames : List V3Frame} {pieces : List Bytes} {rest : Bytes}

/-- `info` returns what the pieces of the reply are decoded to. -/
theorem info_of_packets (hv3 : c.protocol = some .v3) (hans : c.Answers level (frames.flatMap V3Frame.encode ++ rest))
    (h : InfoPackets frames pieces) :
    ∃ c', Client.info level c = .ok (pieces.flatMap Bytes.decodeUtf8) c' := by
  have hwp : wp (Client.info level) (fun text _ => text = pieces.flatMap Bytes.decodeUtf8) (fun _ _ => False) c := by
    refine wp_info_of_answers hans fun c₁ later hf hstall hcfg hp₁ => ?_
    obtain ⟨c', hrun, hcore⟩ := infoLoop_of_infoText (by rw [hp₁, hv3]; exact h.infoText rest)
      (Nat.lt_succ_of_le hf.length_le_bytesAhead) [] hf
    exact (wp_iff_of_ok hrun).2 ⟨(cfg_of_core hcore).trans hcfg, rfl⟩
  obtain ⟨text, c', hrun, rfl⟩ := wp_exists hwp
  exact ⟨c', hrun⟩

/-- The text of a reply is returned exactly when each of its pieces is text. -/
theorem info_eq_iff (hv3 : c.protocol = some .v3) (hans : c.Answers level (frames.flatMap V3Frame.encode ++ rest))
    (h : InfoPackets frames pieces) {text : Text} (htext : pieces.flatten = Bytes.encodeUtf8 text) :
    (∃ c', Client.info level c = .ok text c') ↔ ∀ piece ∈ pieces, Bytes.IsUtf8 piece := by
  rw [← Bytes.flatMap_decodeUtf8_eq_iff htext]
  obtain ⟨c', hrun⟩ := info_of_packets hv3 hans h
  rw [hrun]
  constructor
  · rintro ⟨c'', heq⟩
    cases heq
    rfl
  · intro heq
    exact ⟨c', by rw [heq]⟩

end info

/-- Records of 128 bytes that carry as many bytes of text as their header counts samples. -/
abbrev Pymseed.textRecords : Pymseed :=
  { Pymseed.blockette1000 with
    datasamples := fun record => (record.drop 64).take ((record.getD 30 0).toNat * 256 + (record.getD 31 0).toNat) }

abbrev Externals.textRecords : Externals := { Externals.bare with toPymseed := Pymseed.textRecords }

def textRecord (piece : Bytes) : Bytes :=
  Bytes.lit "000001D INFO   INFSL" ++ [7, 232, 0, 127, 0, 0, 0, 0, 0, 0] ++ [0, UInt8.ofNat piece.length] ++
    List.replicate 12 0 ++ [0, 64, 0, 48] ++ [3, 232, 0, 0, 0, 1, 7, 0] ++ List.replicate 8 0 ++
    (piece ++ List.replicate (64 - piece.length) 0)

section textRecord
variable {piece : Bytes}

theorem length_textRecord (h : piece.length ≤ 64) : (textRecord piece).length = 128 := by
  simp [textRecord, Bytes.lit]
  omega

def textFrame (piece : Bytes) (h : piece.length ≤ 64) (flag : UInt8) : V3Frame :=
  ⟨.info 32 flag, textRecord piece, 7, length_textRecord h, by rw [length_textRecord h]; decide,
    by rw [length_textRecord h]; decide⟩

theorem carries_textFrame (h : piece.length ≤ 64) (flag : UInt8) :
    @V3Frame.Carries Pymseed.textRecords (textFrame piece h flag) (decide (flag = 42)) piece := by
  have hdetects : @Detects Pymseed.blockette1000 (textRecord piece) :=
    detects_blockette1000 (length_textRecord h) rfl rfl
  have hparse : Pymseed.textRecords.parseUnpacked (textRecord piece) = .ok (textRecord piece) :=
    if_pos (length_textRecord h)
  have hdata : Pymseed.textRecords.datasamples (textRecord piece) = piece := by
    show ((textRecord piece).drop 64).take (0 * 256 + (UInt8.ofNat piece.length).toNat) = piece
    rw [Bytes.toNat_byte (by omega), Nat.zero_mul, Nat.zero_add]
    show (piece ++ List.replicate (64 - piece.length) 0).take piece.length = piece
    exact List.take_left
  exact @V3Frame.Carries.mk Pymseed.textRecords _ _ _ ⟨32, flag, rfl, rfl⟩
    (@Detects.mk Pymseed.textRecords _ (fun m => @Detects.early Pymseed.blockette1000 _ hdetects m)
      fun rest => @Detects.whole Pymseed.blockette1000 _ hdetects rest)
    ⟨textRecord piece, hparse, rfl, hdata⟩

end textRecord

def infoClient (frames : List V3Frame) : Client := .listening .v3 [.data (frames.flatMap V3Frame.encode)]

theorem answers_infoClient {frames : List V3Frame} (hne : frames.flatMap V3Frame.encode ≠ []) :
    (infoClient frames).Answers "ID".toList (frames.flatMap V3Frame.encode ++ []) := by
  refine ⟨rfl, _, _, [], rfl, ⟨_, _, rfl, rfl, rfl⟩, ?_, by simp [Stalls]⟩
  refine ⟨[], [.data (frames.flatMap V3Frame.encode)], ⟨RecvBuf.wf_fresh, RecvBuf.unread_fresh, _, rfl, rfl⟩, ?_, ?_⟩
  · rintro ev (_ | ⟨_, ⟨⟩⟩)
    exact hne
  · simp [delivered]

/-- The text `é` with its bytes in one packet each. -/
def splitFrames : List V3Frame := [textFrame [0xC3] (by decide) 42, textFrame [0xA9] (by decide) 32]

theorem infoPackets_splitFrames : @InfoPackets Pymseed.textRecords splitFrames [[0xC3], [0xA9]] :=
  @InfoPackets.more Pymseed.textRecords _ _ _ _ (carries_textFrame (by decide) 42)
    (@InfoPackets.last Pymseed.textRecords _ _ (carries_textFrame (by decide) 32))

/-- A character that is cut apart comes back as replacements. -/
theorem info_splitFrames :
    [[0xC3], [0xA9]].flatten = Bytes.encodeUtf8 "é".toList ∧
      (∃ c', @Client.info Externals.textRecords "ID".toList (infoClient splitFrames) =
        .ok [Bytes.replacement, Bytes.replacement] c') ∧
      ¬ ∃ c', @Client.info Externals.textRecords "ID".toList (infoClient splitFrames) = .ok "é".toList c' := by
  obtain ⟨c', hrun⟩ := @info_of_packets Externals.textRecords "ID".toList (infoClient splitFrames) splitFrames _ []
    rfl (answers_infoClient (List.cons_ne_nil _ _)) infoPackets_splitFrames
  have htext : [[0xC3], [0xA9]].flatMap Bytes.decodeUtf8 = [Bytes.replacement, Bytes.replacement] := by decide
  rw [htext] at hrun
  refine ⟨by decide, ⟨c', hrun⟩, ?_⟩
  rintro ⟨c'', hrun'⟩
  rw [hrun] at hrun'
  cases hrun'

def wholeFrames : List V3Frame := [textFrame [0xC3, 0xA9] (by decide) 42, textFrame [33] (by decide) 32]

theorem info_eq_iff_wholeFrames :
    ∃ c', @Client.info Externals.textRecords "ID".toList (infoClient wholeFrames) = .ok "é!".toList c' := by
  refine (@info_eq_iff Externals.textRecords "ID".toList (infoClient wholeFrames) wholeFrames [[0xC3, 0xA9], [33]] []
    rfl (answers_infoClient (List.cons_ne_nil _ _))
    (@InfoPackets.more Pymseed.textRecords _ _ _ _ (carries_textFrame (by decide) 42)
      (@InfoPackets.last Pymseed.textRecords _ _ (carries_textFrame (by decide) 32)))
    "é!".toList (by decide)).2 fun piece hpiece => ?_
  rcases List.mem_cons.1 hpiece with rfl | hpiece
  · exact ⟨"é".toList, by decide⟩
  · obtain rfl := List.mem_singleton.1 hpiece
    exact ⟨"!".toList, by decide⟩

end SeedLink
