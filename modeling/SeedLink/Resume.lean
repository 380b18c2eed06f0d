import SeedLink.Frames
import SeedLink.MatchCache
import SeedLink.Negotiation

/-!
# The number a stream is resumed from

A renegotiation asks for the number after that of the last packet. Numbers are unbounded here and of
fixed width on the wire, and nothing wraps the successor around: what is sent is the successor in the
protocol's own numbers exactly when the packet's number is not the last of them
(`sends_successor_iff`).
-/

namespace SeedLink

open StateExc Client Commands

namespace Protocol

/-- How many sequence numbers packet headers can carry. -/
def seqSpace : Protocol → Int
  | v3 => 2 ^ 24
  | v4 => 2 ^ 64

def successor (p : Protocol) (n : Int) : Int := (n + 1) % p.seqSpace

/-- The base a position is written in. -/
def radix : Protocol → Nat
  | v3 => 16
  | v4 => 10

/-- The numbers whose successor is the next one. Python's `int()` accepts a sign, so that a v3 number
can be negative. -/
def HasNext : Protocol → Int → Prop
  | v3, n => -1 ≤ n ∧ n ≠ 2 ^ 24 - 1
  | v4, n => n ≠ 2 ^ 64 - 1

/-- A packet header of the protocol can carry it. -/
def Carries (p : Protocol) (n : Int) : Prop := 0 ≤ n ∧ n < p.seqSpace

theorem carries_successor (p : Protocol) (n : Int) : p.Carries (p.successor n) := by
  have hpos : 0 < p.seqSpace := by cases p <;> decide
  exact ⟨Int.emod_nonneg _ (by omega), Int.emod_lt_of_pos _ hpos⟩

theorem successor_eq_iff {p : Protocol} {n : Int} : p.successor n = n + 1 ↔ p.Carries (n + 1) := by
  constructor
  · intro h
    rw [← h]
    exact p.carries_successor n
  · rintro ⟨h0, h1⟩
    exact Int.emod_eq_of_lt h0 h1

end Protocol

/-! ### The text of a position -/

/-- The command asks for position `n`. -/
def SendsPosition (p : Protocol) (args : NegotiationArgs) (n : Int) (cmd : Command) : Prop :=
  ∃ rest, cmd.text = (if p = .v4 then "DATA".toList else args.cmdName) ++
    ' ' :: (Text.intNumeral p.radix n ++ rest) ∧ ∀ ch ∈ rest.head?, ch = ' '

theorem space_not_mem_intNumeral (b : Nat) (n : Int) : ' ' ∉ Text.intNumeral b n := by
  have hdigit : ∀ m, ' ' ∉ Text.numeral b m := by
    intro m hm
    unfold Text.numeral at hm
    split at hm
    · simp at hm
    · obtain ⟨d, -, hd⟩ := List.mem_map.1 hm
      have := (Text.digitChar_plain d).1
      rw [hd] at this
      cases this
  cases n with
  | ofNat n => exact hdigit n
  | negSucc n =>
    intro h
    rcases List.mem_cons.1 h with h | h
    · cases h
    · exact hdigit _ h

/-- A word without blanks is what stands before the first blank. -/
theorem word_unique {w w' r r' : Text} (hw : ' ' ∉ w) (hw' : ' ' ∉ w') (hr : ∀ ch ∈ r.head?, ch = ' ')
    (hr' : ∀ ch ∈ r'.head?, ch = ' ') (h : w ++ r = w' ++ r') : w = w' := by
  induction w generalizing w' with
  | nil =>
    cases w' with
    | nil => rfl
    | cons c w' =>
      rw [List.nil_append, List.cons_append] at h
      obtain rfl := hr c (by rw [h]; rfl)
      exact absurd List.mem_cons_self hw'
  | cons c w ih =>
    cases w' with
    | nil =>
      rw [List.nil_append, List.cons_append] at h
      obtain rfl := hr' c (by rw [← h]; rfl)
      exact absurd List.mem_cons_self hw
    | cons c' w' =>
      rw [List.cons_append, List.cons_append, List.cons.injEq] at h
      rw [h.1, ih (fun hm => hw (List.mem_cons_of_mem _ hm)) (fun hm => hw' (List.mem_cons_of_mem _ hm)) h.2]

theorem SendsPosition.unique {p : Protocol} {args : NegotiationArgs} {n m : Int} {cmd : Command}
    (h : SendsPosition p args n cmd) (h' : SendsPosition p args m cmd) : n = m := by
  obtain ⟨rest, htext, hrest⟩ := h
  obtain ⟨rest', htext', hrest'⟩ := h'
  have heq := htext.symm.trans htext'
  rw [List.append_cancel_left_eq, List.cons.injEq] at heq
  have hnum := word_unique (space_not_mem_intNumeral _ _) (space_not_mem_intNumeral _ _) hrest hrest' heq.2
  cases p with
  | v3 => exact Text.intNumeral_inj (b := 16) (by decide) (by decide) hnum
  | v4 => exact Text.intNumeral_inj (b := 10) (by decide) (by decide) hnum

/-! ### The requests of a plan -/

def dataCommands (plan : List Command) : List Command := plan.filter (·.role = .data)

theorem dataCommands_block {cmds : List Command} {data : Command} (h : ∀ cmd ∈ cmds, cmd.role ≠ .data)
    (hdata : data.role = .data) : dataCommands (cmds ++ [data]) = [data] := by
  have hnil : cmds.filter (·.role = .data) = [] :=
    List.filter_eq_nil_iff.2 fun cmd hmem => by simpa using h cmd hmem
  rw [dataCommands, List.filter_append, hnil]
  simp [hdata]

/-- What a plan asks for a stream that has a position. -/
def Requests (p : Protocol) (args : NegotiationArgs) (s : Stream) (cmd : Command) : Prop :=
  ∀ n, s.seqnum = some n → SendsPosition p args (n + 1) cmd

theorem planStreams_requests {R : Stream → Command → Prop}
    {plan : Stream → Except Exn (List Command) × Stream}
    (h : ∀ s cmds, (plan s).1 = .ok cmds → ∃ cmd, dataCommands cmds = [cmd] ∧ R s cmd) :
    ∀ {streams : List Stream} {cmds : List Command}, (planStreams plan streams).1 = .ok cmds →
      List.Forall₂ R streams (dataCommands cmds)
  | [], cmds, hp => by cases hp; exact .nil
  | s :: rest, cmds, hp => by
    unfold planStreams at hp
    cases hs : plan s with
    | mk res s' =>
      rw [hs] at hp
      cases res with
      | error e => cases hp
      | ok cmds₁ =>
        have hp' : (planStreams plan rest).1.map (cmds₁ ++ ·) = .ok cmds := hp
        cases hrest : (planStreams plan rest).1 with
        | error e => rw [hrest] at hp'; cases hp'
        | ok cmds₂ =>
          rw [hrest] at hp'
          cases hp'
          obtain ⟨cmd, hcmd, hR⟩ := h s cmds₁ (by rw [hs])
          have : dataCommands (cmds₁ ++ cmds₂) = cmd :: dataCommands cmds₂ := by
            rw [dataCommands, List.filter_append]
            show dataCommands cmds₁ ++ _ = _
            rw [hcmd]
            rfl
          rw [this]
          exact .cons hR (planStreams_requests h hrest)

section requests
variable {args : NegotiationArgs}

theorem dataV4_requests {stationId : Text} {n : Int} {allData : Bool} {stop : Option DateTime}
    {data : Command} (h : dataV4 stationId (some n) allData none stop = .ok data) :
    SendsPosition .v4 args n data := by
  refine ⟨[], ?_, by simp⟩
  rw [(dataV4_text h).2.2 n rfl, List.append_nil]
  rfl

/-- The request of a v4 stream. -/
theorem dataCommands_planStreamV4 [Unicode] {s : Stream} {cmds : List Command} (h : planStreamV4 args s = .ok cmds) :
    ∃ data, dataCommands cmds = [data] ∧
      dataV4 s.stationId (if args.startTime.isSome then none else args.resumeSeqnum s) s.allData args.startTime
        args.endTime = .ok data := by
  unfold planStreamV4 at h
  simp only at h
  cases hdata : dataV4 s.stationId (if args.startTime.isSome then none else args.resumeSeqnum s)
      s.allData args.startTime args.endTime with
  | error e => rw [hdata] at h; cases h
  | ok data =>
  rw [hdata] at h
  cases h
  refine ⟨data, dataCommands_block (fun cmd hmem => ?_) (dataV4_shape hdata).1, rfl⟩
  rcases List.mem_cons.1 hmem with rfl | hmem
  · exact Role.noConfusion
  · obtain ⟨sel, -, rfl⟩ := List.mem_map.1 hmem
    exact Role.noConfusion

variable [Pymseed] [Unicode] [Iso8601]

theorem role_requestV3 {startStr endStr : Option Text} {expectReply : Bool} {s : Stream} {data : Command}
    (h : (requestV3 args startStr endStr expectReply s).1 = .ok data) : data.role = .data := by
  unfold requestV3 at h
  split at h
  · cases h
    rfl
  · simp only at h
    split at h <;> cases h
    rfl

omit [Pymseed] [Iso8601] in
theorem role_selectsV3 {s : Stream} {cmd : Command} (h : cmd ∈ selectsV3 args s) : cmd.role ≠ .data := by
  obtain ⟨sel, -, rfl⟩ := List.mem_map.1 h
  exact Role.noConfusion

/-- The request of a v3 stream in multi-station mode. -/
theorem dataCommands_planStreamV3 {startStr endStr : Option Text} {s : Stream} {cmds : List Command}
    (h : (planStreamV3 args startStr endStr s).1 = .ok cmds) :
    ∃ data, dataCommands cmds = [data] ∧ (requestV3 args startStr endStr (!args.batchActive) s).1 = .ok data := by
  have hreq : (requestV3 args startStr endStr (!args.batchActive) s).1.map (fun data =>
    stationV3 s.stationId (!args.batchActive) :: selectsV3 args s ++ [data]) = .ok cmds := h
  cases hdata : (requestV3 args startStr endStr (!args.batchActive) s).1 with
  | error e => rw [hdata] at hreq; cases hreq
  | ok data =>
  rw [hdata] at hreq
  cases hreq
  refine ⟨data, dataCommands_block (fun cmd hmem => ?_) (role_requestV3 hdata), rfl⟩
  rcases List.mem_cons.1 hmem with rfl | hmem
  · exact Role.noConfusion
  · exact role_selectsV3 hmem

/-- The data commands of a plan are the requests of its streams one by one. -/
theorem forall₂_dataCommands {R : Stream → Command → Prop}
    (hv4 : args.protocol = some .v4 → ∀ s data, dataV4 s.stationId
      (if args.startTime.isSome then none else args.resumeSeqnum s) s.allData args.startTime args.endTime = .ok data →
        R s data)
    (hv3 : args.protocol ≠ some .v4 → ∀ startStr endStr expectReply s data,
      args.startTime.mapM toCommaTimestring = .ok startStr → args.endTime.mapM toCommaTimestring = .ok endStr →
        (requestV3 args startStr endStr expectReply s).1 = .ok data → R s data)
    {streams : List Stream} {plan : List Command} (h : (planNegotiation args streams).1 = .ok plan) :
    List.Forall₂ R streams (dataCommands plan) := by
  have hend : ∀ (cmds : List Command) (cmd : Command), cmd.role ≠ .data →
      dataCommands (cmds ++ [cmd]) = dataCommands cmds := by
    intro cmds cmd hcmd
    rw [dataCommands, List.filter_append, List.filter_cons_of_neg (by simpa using hcmd)]
    simp [dataCommands]
  by_cases hp : args.protocol = some .v4
  · obtain ⟨cmds, hcmds, rfl⟩ := planNegotiation_v4 hp h
    rw [hend _ _ Role.noConfusion]
    refine planStreams_requests (fun s cmds h => ?_) hcmds
    obtain ⟨data, hdatas, hdata⟩ := dataCommands_planStreamV4 h
    exact ⟨data, hdatas, hv4 hp s data hdata⟩
  by_cases hmulti : args.multistation = true
  · obtain ⟨startStr, endStr, hs, he, cmds, hcmds, rfl⟩ := planNegotiation_v3 hp hmulti h
    rw [hend _ _ Role.noConfusion]
    refine planStreams_requests (fun s cmds h => ?_) hcmds
    obtain ⟨data, hdatas, hdata⟩ := dataCommands_planStreamV3 h
    exact ⟨data, hdatas, hv3 hp startStr endStr _ s data hs he hdata⟩
  unfold planNegotiation at h
  split at h
  · cases h
  · cases h
  rename_i startStr endStr hs he
  rw [if_neg hp] at h
  unfold planNegotiationV3 at h
  rw [if_neg hmulti] at h
  split at h
  · rename_i s
    have hreq : (requestV3 args startStr endStr false s).1.map (fun data =>
      selectsV3 args s ++ [data]) = .ok plan := h
    cases hdata : (requestV3 args startStr endStr false s).1 with
    | error e => rw [hdata] at hreq; cases hreq
    | ok data =>
    rw [hdata] at hreq
    cases hreq
    rw [dataCommands_block (fun cmd hmem => role_selectsV3 hmem) (role_requestV3 hdata)]
    exact .cons (hv3 hp startStr endStr _ s data hs he hdata) .nil
  · cases h

theorem requests_requestV3 (hresume : args.resume = true) {endStr : Option Text} {expectReply : Bool}
    {s : Stream} {data : Command} (h : (requestV3 args none endStr expectReply s).1 = .ok data) :
    Requests .v3 args s data := by
  unfold requestV3 at h
  simp only at h
  split at h
  · rename_i timestamp s' hts
    cases h
    intro n hn
    have hseq : args.resumeSeqnum s = some (n + 1) := by
      simp [NegotiationArgs.resumeSeqnum, hresume, hn]
    rw [hseq]
    refine ⟨if truthy timestamp then ' ' :: timestamp.getD [] else [], ?_, ?_⟩
    · simp [dataV3, dataV3Text, Protocol.radix]
    · split <;> simp
  · cases h

/-- The data commands of a plan ask for the streams one by one. -/
theorem requests_planNegotiation {p : Protocol} (hp : args.protocol = some p)
    (hstart : args.startTime = none) (hresume : args.resume = true) {streams : List Stream}
    {plan : List Command} (h : (planNegotiation args streams).1 = .ok plan) :
    List.Forall₂ (Requests p args) streams (dataCommands plan) := by
  refine forall₂_dataCommands (fun hv4 s data hdata n hn => ?_) (fun hv4 startStr endStr _ s data hs _ hdata => ?_) h
  · obtain rfl : p = .v4 := by rw [hp] at hv4; exact Option.some.inj hv4
    have hseq : args.resumeSeqnum s = some (n + 1) := by
      simp [NegotiationArgs.resumeSeqnum, hresume, hn]
    rw [hstart] at hdata
    simp only [Option.isSome_none, Bool.false_eq_true, if_false, hseq] at hdata
    exact dataV4_requests hdata
  · obtain rfl : p = .v3 := by
      cases p with
      | v3 => rfl
      | v4 => exact absurd hp hv4
    obtain rfl : startStr = none := by rw [hstart] at hs; cases hs; rfl
    exact requests_requestV3 hresume hdata

end requests

/-! ### The numbers of packets -/

theorem hexDigit?_lt {b : UInt8} {d : Nat} (h : hexDigit? b = some d) : d < 16 := by
  unfold hexDigit? at h
  simp only at h
  split at h
  · cases h; omega
  split at h
  · cases h; omega
  split at h <;> cases h
  omega

theorem hexDigits_lt {n : Nat} {tail : Bytes} : ∀ {buf : Bytes} {acc k : Nat} {underscore : Bool},
    acc < 16 ^ k → hexDigits acc underscore buf = some (n, tail) → n < 16 ^ (k + buf.length)
  | [], acc, k, underscore, hacc, h => by
    unfold hexDigits at h
    split at h <;> cases h
    exact hacc
  | b :: rest, acc, k, underscore, hacc, h => by
    have hgrow : acc < 16 ^ (k + (b :: rest).length) :=
      Nat.lt_of_lt_of_le hacc (Nat.pow_le_pow_right (by decide) (Nat.le_add_right _ _))
    unfold hexDigits at h
    split at h
    · split at h
      · cases h
      · have := hexDigits_lt hacc h
        exact Nat.lt_of_lt_of_le this (Nat.pow_le_pow_right (by decide) (by rw [List.length_cons]; omega))
    · split at h
      · rename_i d hd
        have hd' := hexDigit?_lt hd
        have hacc' : acc * 16 + d < 16 ^ (k + 1) := by rw [Nat.pow_succ]; omega
        have := hexDigits_lt hacc' h
        rwa [List.length_cons, Nat.add_comm rest.length, ← Nat.add_assoc]
      · split at h <;> cases h
        exact hgrow

theorem length_signAndPrefix (s : Bytes) : (signAndPrefix s).2.length ≤ s.length := by
  unfold signAndPrefix
  split
  rename_i negative u hsign
  have hu : u.length ≤ s.length := by
    split at hsign <;> cases hsign
    · exact Nat.le_succ _
    · exact Nat.le_succ _
    · exact Nat.le_refl _
  refine Nat.le_trans ?_ hu
  split
  · split
    · split <;> simp only [List.length_cons] <;> omega
    · exact Nat.le_refl _
  · exact Nat.le_refl _

/-- What `int()` reads is bounded by the number of bytes it reads. -/
theorem intBase16_lt {buf : Bytes} {n : Int} (h : intBase16 buf = some n) : n < 16 ^ buf.length := by
  unfold intBase16 at h
  simp only at h
  split at h
  · cases h
  rename_i b rest hs
  have hlen : (b :: rest).length ≤ buf.length := by
    rw [← hs]
    exact Nat.le_trans (length_signAndPrefix _) (List.dropWhile_sublist _).length_le
  split at h
  · cases h
  rename_i d hd
  split at h
  · cases h
  rename_i m tail hm
  have hlt : m < 16 ^ buf.length := by
    have := hexDigits_lt (k := 1) (by rw [Nat.pow_one]; exact hexDigit?_lt hd) hm
    exact Nat.lt_of_lt_of_le this (Nat.pow_le_pow_right (by decide)
      (by rw [List.length_cons] at hlen; omega))
  have hlt' : (m : Int) < 16 ^ buf.length := by exact_mod_cast hlt
  have hpos : (0 : Int) < 16 ^ buf.length := by positivity
  split at h
  · split at h <;> cases h <;> omega
  · cases h

theorem seqnum_lt_of_parseHeaderV3 {buf : Bytes} {header : HeaderV3} {n : Int}
    (h : parseHeaderV3 buf = .ok header) (hn : header.seqnum = some n) : n < 2 ^ 24 := by
  unfold parseHeaderV3 at h
  split at h
  · cases h
  split at h
  · cases h
    cases hn
  split at h
  · split at h
    · rename_i k hk
      cases h
      cases hn
      have hle : (16 : Int) ^ ((buf.drop 2).take 6).length ≤ 16 ^ 6 :=
        pow_le_pow_right₀ (by decide) (List.length_take_le _ _)
      exact Int.lt_of_lt_of_le (intBase16_lt hk) hle
    · cases h
  · cases h

section frames
variable [Pymseed] {p : Protocol} {frame : RawFrame} {n : Int}

theorem seqnum_of_decodeFrameV3 {header : HeaderV3} {payload : Bytes}
    (h : decodeFrameV3 header payload = .ok frame) (hn : frame.seqnum = some n) :
    header.seqnum = some n := by
  unfold decodeFrameV3 at h
  split at h
  · obtain ⟨text, -, h⟩ := exists_of_bind_ok h
    cases h
    cases hn
  · obtain ⟨record, -, h⟩ := exists_of_bind_ok h
    cases h
    exact hn

/-- A data packet that the decoder of the protocol accepts. -/
structure Protocol.Delivers (p : Protocol) (frame : RawFrame) : Prop where
  decoded : ∃ s n, Takes (some p) s (.packet frame) n
  not_error : isJsonErrorFrame frame = false
  not_info : isInfoFrame frame = false

theorem Protocol.Delivers.seqnum_lt (h : p.Delivers frame) (hn : frame.seqnum = some n) :
    n < p.seqSpace ∧ (p = .v4 → 0 ≤ n) := by
  obtain ⟨s, m, ht⟩ := h.decoded
  cases ht with
  | packetV4 hp _ hd =>
    cases hp
    obtain ⟨header, hh, hseq⟩ := hd.seqnum
    obtain rfl : n = header.seqnum := Option.some.inj (hn.symm.trans hseq)
    have hlt := (parseHeaderV4_ok hh).2.2
    refine ⟨?_, fun _ => Int.natCast_nonneg _⟩
    show (header.seqnum : Int) < 2 ^ 64
    omega
  | packetV3 hp _ hd =>
    cases p with
    | v4 => exact absurd rfl hp
    | v3 =>
      obtain ⟨header, m, hh, -, -, hf, -⟩ := hd.body
      exact ⟨seqnum_lt_of_parseHeaderV3 hh (seqnum_of_decodeFrameV3 hf hn), fun h => by cases h⟩

/-- The number behind a packet's fits a header unless the packet's is the last one. -/
theorem Protocol.Delivers.carries_succ_iff (h : p.Delivers frame) (hn : frame.seqnum = some n) :
    p.Carries (n + 1) ↔ p.HasNext n := by
  obtain ⟨hlt, hnonneg⟩ := h.seqnum_lt hn
  cases p with
  | v3 =>
    have hlt' : n < 2 ^ 24 := hlt
    show 0 ≤ n + 1 ∧ n + 1 < 2 ^ 24 ↔ -1 ≤ n ∧ n ≠ 2 ^ 24 - 1
    omega
  | v4 =>
    have hlt' : n < 2 ^ 64 := hlt
    have := hnonneg rfl
    show 0 ≤ n + 1 ∧ n + 1 < 2 ^ 64 ↔ n ≠ 2 ^ 64 - 1
    omega

end frames

section resume
variable [Externals] {p : Protocol} {c : Client} {before ops : List Op} {s₀ s : Stream} {i k : Nat}
  {pkt : SeedLinkPacket} {n : Int} {plan : List Command}

/-- A plan asks for the streams in the order they are sent in. -/
theorem requests_prepared (hp : c.protocol = some p) (hwindow : c.base.startTime = none)
    (hplan : c.prepared.1 = .ok plan) (hk : c.base.sendOrder[k]? = some (s, i)) :
    ∃ cmd, (dataCommands plan)[k]? = some cmd ∧ Requests p c.negotiationArgs s cmd := by
  have horder : ({ c.base with matchCache := ∅ } : Base).ensureDefaultStream.sendOrder =
      c.base.sendOrder := by
    have hne : c.base.streams ≠ [] := by
      intro hnil
      have := Base.mem_sendOrder.1 (List.mem_of_getElem? hk)
      rw [hnil] at this
      cases this
    unfold Base.sendOrder
    rw [Base.ensureDefaultStream_streams, if_neg hne]
  have hreq : List.Forall₂ (Requests p c.negotiationArgs) (c.base.sendOrder.map (·.1))
      (dataCommands plan) := by
    refine requests_planNegotiation hp hwindow rfl ?_
    rw [← horder]
    exact hplan
  have hs : (c.base.sendOrder.map (·.1))[k]? = some s := by rw [List.getElem?_map, hk]; rfl
  obtain ⟨hlt, hget⟩ := List.getElem?_eq_some_iff.1 hs
  have hlt' : k < (dataCommands plan).length := hreq.length_eq ▸ hlt
  have hR := hreq.get hlt hlt'
  rw [List.get_eq_getElem, hget] at hR
  exact ⟨_, List.getElem?_eq_getElem hlt', hR⟩

open Op in
/-- A client without cached matches makes the calls `before`, then `ops`, whose packets are data
packets of the protocol and the last of which for stream `i` has number `n`. When it then prepares a
negotiation in that protocol, the request for the stream asks for the successor exactly when `n` is not
the last number. -/
theorem sends_successor_iff (hcache : c.base.matchCache = ∅)
    (hs₀ : (runAll before c).base.streams[i]? = some s₀)
    (hops : ∀ pkt, .packet pkt ∈ ops → ∃ frame, p.Delivers frame ∧ pkt = toPacket frame)
    (hlast : latest s₀ ops = some pkt) (hn : pkt.seqnum = some n)
    (hp : (runAll (before ++ ops) c).protocol = some p)
    (hwindow : (runAll (before ++ ops) c).base.startTime = none)
    (hplan : (runAll (before ++ ops) c).prepared.1 = .ok plan)
    (hk : (runAll (before ++ ops) c).base.sendOrder[k]? = some (s, i)) :
    (∃ cmd, (dataCommands plan)[k]? = some cmd ∧
      SendsPosition p (runAll (before ++ ops) c).negotiationArgs (p.successor n) cmd) ↔ p.HasNext n := by
  have hok := cacheOk_runAll (Base.cacheOk_of_matchCache_eq_empty hcache) before
  -- the position of the stream
  have hseq : s.seqnum = some n := by
    obtain ⟨t, ht, hf⟩ := exists_follows hok hs₀ ops
    rw [← runAll_append] at ht
    have hmem := Base.mem_sendOrder.1 (List.mem_of_getElem? hk)
    obtain rfl : t = s := Option.some.inj (ht.symm.trans hmem)
    rw [(hf.updated pkt hlast).1, hn]
  -- what the plan asks for it
  obtain ⟨cmd, hcmd, hreq⟩ := requests_prepared hp hwindow hplan hk
  have hsends := hreq n hseq
  obtain ⟨frame, hd, rfl⟩ := hops _ (mem_of_latest hlast)
  rw [← hd.carries_succ_iff hn, ← Protocol.successor_eq_iff]
  constructor
  · rintro ⟨cmd', hcmd', hsends'⟩
    obtain rfl : cmd = cmd' := Option.some.inj (hcmd.symm.trans hcmd')
    exact hsends'.unique hsends
  · intro h
    exact ⟨cmd, hcmd, h ▸ hsends⟩

end resume

/-- A v4 packet of station A_B without payload. -/
def numbered (n : Nat) : Bytes :=
  Bytes.lit "SE2D" ++ Bytes.leBytes 4 0 ++ Bytes.leBytes 8 n ++ Bytes.lit "\x03A_B"

def numberedFrame (n : Nat) : RawFrame :=
  { stationId := "A_B".toList, seqnum := some n, payloadFormat := "2".toList,
    payloadSubformat := "D".toList, payload := [], infoContinues := false }

def lastV4 : Nat := 18446744073709551615

def numberedHeader (n : Nat) : HeaderV4 :=
  { payloadFormat := "2".toList, payloadSubformat := "D".toList, payloadLength := 0, seqnum := n,
    stationIdLength := 3 }

theorem delivers_numbered {n : Nat} (h : n = 7 ∨ n = lastV4) :
    @Protocol.Delivers Pymseed.bare .v4 (numberedFrame n) := by
  have hd : DecodesV4 (numbered n) (numberedFrame n) 20 := by
    rcases h with rfl | rfl <;> exact ⟨by decide, numberedHeader _, rfl, rfl, by decide, rfl⟩
  let _ : Pymseed := Pymseed.bare
  exact ⟨⟨numbered n, 20, .packetV4 rfl (.inr ⟨_, rfl⟩) hd⟩, rfl, rfl⟩

def addStation : Op := .addStream "A_B".toList none none false none

/-- A v4 client to which station A_B has been added and has sent packet `n`. -/
def afterPacket (n : Nat) : Client :=
  @Op.runAll Externals.bare ([addStation] ++ [.packet (toPacket (numberedFrame n))]) (.listening .v4 [])

def planAfter (n : Nat) : List Command :=
  [stationV4 "A_B".toList,
    { text := "DATA ".toList ++ Text.numeral 10 (n + 1), parse := some .expectOk, terminator := cr,
      role := .data, streamId := some "A_B".toList }, endV4 false]

theorem sends_successor_iff_seven :
    (∃ cmd, (dataCommands (planAfter 7))[0]? = some cmd ∧
      SendsPosition .v4 (afterPacket 7).negotiationArgs (Protocol.v4.successor 7) cmd) ↔
        Protocol.v4.HasNext 7 :=
  @sends_successor_iff Externals.bare .v4 (.listening .v4 []) [addStation]
    [.packet (toPacket (numberedFrame 7))] { stationId := "A_B".toList } _ 0 0
    (toPacket (numberedFrame 7)) 7 (planAfter 7) rfl rfl
    (fun pkt h => ⟨numberedFrame 7, delivers_numbered (.inl rfl), by simpa using h⟩)
    rfl rfl rfl rfl rfl rfl

/-- The request after the last v4 number is for one that no header carries. -/
theorem sends_no_successor_lastV4 :
    @Protocol.Delivers Pymseed.bare .v4 (numberedFrame lastV4) ∧
    (@Client.prepared Externals.bare (afterPacket lastV4)).1 = .ok (planAfter lastV4) ∧
      (planAfter lastV4).map (·.text) =
        ["STATION A_B".toList, "DATA 18446744073709551616".toList, "END".toList] ∧
      ¬ ∃ cmd, (dataCommands (planAfter lastV4))[0]? = some cmd ∧
        SendsPosition .v4 (afterPacket lastV4).negotiationArgs (Protocol.v4.successor lastV4) cmd := by
  refine ⟨delivers_numbered (.inr rfl), rfl, rfl, ?_⟩
  rintro ⟨cmd, hcmd, hsends⟩
  cases hcmd
  have hsent : SendsPosition .v4 (afterPacket lastV4).negotiationArgs (lastV4 + 1)
      (planAfter lastV4)[1] := ⟨[], rfl, by simp⟩
  have := hsends.unique hsent
  revert this
  decide

end SeedLink
