import SeedLink.Lib.Segments
import SeedLink.Reads

/-!
# v4 servers

A server keeps per station a log of data packets. What it owes a client follows from the lines the
client has sent (`Heard`): one reply line for most of them, and behind `END` a stream of items whose
data packets are, station by station, what the station's `DATA` asked for. A connection may be cut
anywhere: what it delivers is a beginning of what is owed (`Honours`).
-/

namespace SeedLink

/-! ### Connections -/

/-- The connections that reading from `sk₀` and sending on it lead to, each with all the bytes it has
delivered or is going to. -/
inductive Sock.Reaches (sk₀ : Sock) : Bytes → Sock → Prop
  | opened : Reaches sk₀ (delivered sk₀.incoming) sk₀
  | reads {total : Bytes} {sk : Sock} {incoming : List Recv} (h : Reaches sk₀ total sk)
      (hrest : delivered incoming <:+ delivered sk.incoming) : Reaches sk₀ total { sk with incoming }
  | sends {received wire : Bytes} {sk : Sock} {incoming : List Recv}
      (h : Reaches sk₀ (received ++ delivered sk.incoming) sk)
      (hpeer : sk.peer sk.sent sk.incoming wire = .ok incoming) :
      Reaches sk₀ (received ++ delivered incoming) { sk with incoming, sent := sk.sent ++ [wire] }

/-- A peer that expects these lines one after another and answers each with the reads beside it. -/
def scripted (script : List (Bytes × List Recv)) : Peer := fun sent pending wire =>
  match script[sent.length]? with
  | some (line, reads) => if wire = line then .ok (pending ++ reads) else .error "unexpected line"
  | none => .error "unexpected line"

theorem scripted_ok {script : List (Bytes × List Recv)} {sent : List Bytes} {pending incoming : List Recv}
    {wire : Bytes} (h : scripted script sent pending wire = .ok incoming) :
    ∃ reads, script[sent.length]? = some (wire, reads) ∧ incoming = pending ++ reads := by
  unfold scripted at h
  split at h
  · rename_i line reads heq
    split at h
    · rename_i hline
      cases h
      exact ⟨reads, hline ▸ heq, rfl⟩
    · cases h
  · cases h

/-- On such a connection the script is followed to some place. -/
theorem Sock.Reaches.of_scripted {script : List (Bytes × List Recv)} {total : Bytes} {sk : Sock}
    (h : Sock.Reaches { incoming := [], peer := scripted script } total sk) :
    sk.peer = scripted script ∧ ∃ k ≤ script.length, sk.sent = (script.take k).map Prod.fst ∧
      total = delivered ((script.take k).flatMap Prod.snd) := by
  induction h with
  | opened => exact ⟨rfl, 0, Nat.zero_le _, rfl, rfl⟩
  | reads _ _ ih => exact ih
  | @sends received wire sk incoming _ hok ih =>
    obtain ⟨hpeer, k, hk, hsent, htotal⟩ := ih
    rw [hpeer] at hok
    obtain ⟨reads, hget, rfl⟩ := scripted_ok hok
    have hlen : sk.sent.length = k := by
      rw [hsent, List.length_map, List.length_take]
      omega
    rw [hlen] at hget
    have htake : script.take (k + 1) = script.take k ++ [(wire, reads)] := by
      rw [List.take_add_one, hget]
      rfl
    refine ⟨hpeer, k + 1, (List.getElem?_eq_some_iff.1 hget).1, ?_, ?_⟩
    · rw [htake, List.map_append, ← hsent]
      rfl
    · rw [delivered_append, ← List.append_assoc, htotal, htake, List.flatMap_append, delivered_append]
      simp

/-! ### Lines -/

/-- Bytes that the terminator behind them ends. -/
def IsLine (line : Bytes) : Prop := Text.findSub crlf (line ++ crlf) = some line.length

def terminated (lines : List Bytes) : Bytes := lines.flatMap (· ++ crlf)

@[simp] theorem terminated_nil : terminated [] = [] := rfl

@[simp] theorem terminated_cons (line : Bytes) (lines : List Bytes) :
    terminated (line :: lines) = line ++ crlf ++ terminated lines := rfl

@[simp] theorem terminated_append (lines lines' : List Bytes) :
    terminated (lines ++ lines') = terminated lines ++ terminated lines' := List.flatMap_append

theorem isLine_take {s : Bytes} {i : Nat} (h : Text.findSub crlf s = some i) :
    IsLine (s.take i) ∧ s = s.take i ++ crlf ++ s.drop (i + 2) := by
  have hs := Text.findSub_eq_some.1 h
  obtain ⟨hle, ⟨t, ht⟩, hmin⟩ := hs
  have hsplit : s = s.take i ++ crlf ++ t := by rw [List.append_assoc, ht, List.take_append_drop]
  have ht' : s.drop (i + 2) = t := by
    rw [← List.drop_drop, ← ht]
    rfl
  refine ⟨?_, by rw [ht']; exact hsplit⟩
  have hlen : (s.take i).length = i := by rw [List.length_take]; omega
  rw [IsLine, hlen, Text.findSub_eq_some]
  refine ⟨by rw [List.length_append]; omega, ?_, fun j hj hp => hmin j hj ?_⟩
  · rw [List.drop_append_of_le_length (by omega), List.drop_of_length_le (by omega)]
    exact List.prefix_append _ _
  · rw [hsplit, List.drop_append_of_le_length (by rw [List.length_append]; omega)]
    exact hp.trans (List.prefix_append _ _)

/-- Lines read are the first of the lines that were sent. -/
theorem prefix_of_terminated {t : Bytes} : ∀ {read lines : List Bytes}, (∀ l ∈ read, IsLine l) →
    (∀ l ∈ lines, IsLine l) → read.length ≤ lines.length →
      terminated read <+: terminated lines ++ t → read <+: lines
  | [], _, _, _, _, _ => List.nil_prefix
  | l :: read, [], _, _, hlen, _ => by simp at hlen
  | l :: read, l' :: lines, hread, hlines, hlen, ⟨u, hu⟩ => by
    simp only [terminated_cons, List.append_assoc] at hu
    have hl := Text.findSub_append (hread l List.mem_cons_self) (terminated read ++ u)
    have hl' := Text.findSub_append (hlines l' List.mem_cons_self) (terminated lines ++ t)
    rw [List.append_assoc, hu, ← List.append_assoc, hl', Option.some.injEq] at hl
    obtain ⟨rfl, htail⟩ := List.append_inj hu hl.symm
    have hrest := prefix_of_terminated (fun l hm => hread l (List.mem_cons_of_mem _ hm))
      (fun l hm => hlines l (List.mem_cons_of_mem _ hm)) (by simpa using hlen)
      ⟨u, List.append_cancel_left htail⟩
    exact List.cons_prefix_cons.2 ⟨rfl, hrest⟩

/-! ### Items -/

theorem frameV4_append {s : Bytes} {header : HeaderV4} (h : header.total ≤ s.length) (t : Bytes) :
    frameV4 header (s ++ t) = frameV4 header s := by
  have h17 : headsizeV4 = 17 := rfl
  unfold HeaderV4.total at h
  unfold frameV4
  rw [List.drop_append_of_le_length (by omega), List.drop_append_of_le_length (by omega),
    List.take_append_of_le_length (by rw [List.length_drop]; omega),
    List.take_append_of_le_length (by rw [List.length_drop]; omega)]

theorem DecodesV4.append {s : Bytes} {frame : RawFrame} {n : Nat} (h : DecodesV4 s frame n) (t : Bytes) :
    DecodesV4 (s ++ t) frame n := by
  obtain ⟨hle, header, hh, rfl, hn, hf⟩ := h
  refine ⟨by rw [List.length_append]; omega, header, ?_, rfl, by rw [List.length_append]; omega, ?_⟩
  · rwa [List.take_append_of_le_length hle]
  · rwa [frameV4_append hn]

section items
variable [Pymseed]

/-- Bytes that are one item of a v4 stream. -/
def IsItem (item : Bytes × Received) : Prop := Takes (some .v4) item.1 item.2 item.1.length

def encoded (items : List (Bytes × Received)) : Bytes := items.flatMap Prod.fst

theorem detectOn_append {r : Bytes} {found : Except Exn Nat} (t : Bytes) :
    ∀ {fuel size : Nat}, detectOn fuel size r = some found → detectOn fuel size (r ++ t) = some found
  | 0, _, h => by cases h
  | fuel + 1, size, h => by
    unfold detectOn at h ⊢
    split at h
    · cases h
    rename_i hsize
    rw [if_neg (by rw [List.length_append]; omega), List.take_append_of_le_length (by omega)]
    split at h
    · exact h
    · exact h
    · split at h
      · rename_i hmax
        rw [if_pos hmax]
        exact h
      · rename_i hmax
        rw [if_neg hmax]
        exact detectOn_append t h

theorem DecodesV3.append {s : Bytes} {frame : RawFrame} {n : Nat} (h : DecodesV3 s frame n) (t : Bytes) :
    DecodesV3 (s ++ t) frame n := by
  obtain ⟨hle, header, m, hh, hrec, hm, hf, rfl⟩ := h
  refine ⟨by rw [List.length_append]; omega, header, m, ?_, ?_, ?_, ?_, rfl⟩
  · rwa [List.take_append_of_le_length hle]
  · rw [List.drop_append_of_le_length hle]
    exact detectOn_append t hrec
  · rw [List.drop_append_of_le_length hle, List.length_append]
    omega
  · rw [List.drop_append_of_le_length hle, List.take_append_of_le_length hm]
    exact hf

variable {p : Option Protocol}

/-- What is at the front stays there when more bytes follow. -/
theorem Takes.append {s : Bytes} {x : Received} {n : Nat} (h : Takes p s x n) (t : Bytes) :
    Takes p (s ++ t) x n := by
  have hext : ∀ {q : Bytes}, q <+: s → q <+: s ++ t := fun hq => hq.trans (List.prefix_append _ _)
  cases h with
  | endOfStream h => exact .endOfStream (hext h)
  | @reply i line h hi hline =>
    refine .reply (hext h) (Text.findSub_append hi t) ?_
    rw [List.take_append_of_le_length (Text.findSub_eq_some.1 hi).1]
    exact hline
  | packetV4 hp hsig hd => exact .packetV4 hp (hsig.imp hext hext) (hd.append t)
  | packetV3 hp hsig hd => exact .packetV3 hp (hsig.imp hext hext) (hd.append t)

theorem Takes.ne_nil {x : Received} {n : Nat} : ¬ Takes p [] x n := by
  intro h
  rcases h.announces with ⟨-, -, h⟩ | ⟨-, h⟩ | ⟨-, -, h⟩ <;> exact absurd h.two_le (by decide)

theorem Takes.le_length {s : Bytes} {x : Received} {n : Nat} (h : Takes p s x n) : n ≤ s.length := by
  cases h with
  | endOfStream hp => exact hp.length_le
  | reply _ hi _ =>
    have hi' := Text.findSub_eq_some.1 hi
    have hcr := hi'.2.1.length_le
    rw [List.length_drop] at hcr
    have : crlf.length = 2 := rfl
    omega
  | packetV4 hp hsig hd => exact (Takes.packetV4 hp hsig hd).bounds.2
  | packetV3 hp hsig hd => exact (Takes.packetV3 hp hsig hd).bounds.2

/-- The item taken next is the next item sent. -/
theorem exists_next_item {items : List (Bytes × Received)} (hitems : ∀ item ∈ items, IsItem item)
    {s : Bytes} {x : Received} {n : Nat} (h : Takes (some .v4) s x n) (hs : s <+: encoded items) :
    ∃ rest, items = (s.take n, x) :: rest := by
  have hn := h.le_length
  obtain ⟨t, ht⟩ := hs
  have h' := h.append t
  rw [ht] at h'
  cases items with
  | nil => exact absurd h' Takes.ne_nil
  | cons item rest =>
    have hitem := (hitems item List.mem_cons_self : Takes _ _ _ _).append (encoded rest)
    obtain ⟨rfl, rfl⟩ := h'.unique hitem
    have htake : item.1 = s.take item.1.length := by
      rw [← @List.take_append_of_le_length _ s t _ hn, ht]
      exact (@List.take_left _ item.1 (encoded rest)).symm
    exact ⟨rest, by rw [← htake]⟩

/-- Items read are the first of the items that were sent. -/
theorem prefix_of_encoded : ∀ {read items : List (Bytes × Received)}, (∀ item ∈ read, IsItem item) →
    (∀ item ∈ items, IsItem item) → encoded read <+: encoded items → read <+: items
  | [], _, _, _, _ => List.nil_prefix
  | (b, x) :: read, items, hread, hitems, h => by
    have hb : Takes (some .v4) (encoded ((b, x) :: read)) x b.length :=
      (hread (b, x) List.mem_cons_self : Takes _ _ _ _).append (encoded read)
    obtain ⟨rest, rfl⟩ := exists_next_item hitems hb h
    have htake : (encoded ((b, x) :: read)).take b.length = b := List.take_left
    rw [htake] at hitems h ⊢
    have hrest : encoded read <+: encoded rest := (List.prefix_append_right_inj b).1 h
    exact List.cons_prefix_cons.2 ⟨rfl, prefix_of_encoded (fun i hm => hread i (List.mem_cons_of_mem _ hm))
      (fun i hm => hitems i (List.mem_cons_of_mem _ hm)) hrest⟩

end items

/-! ### What a server hears -/

/-- What the lines of a client come to: the reply lines due for them, the station named last, the
arguments of the `DATA` lines with their stations, and whether `END` has been sent. -/
structure Heard where
  due : Nat := 0
  station : Bytes := []
  requests : List (Bytes × Bytes) := []
  streaming : Bool := false
  deriving DecidableEq, Repr

def keyword (wire : Bytes) : Bytes := wire.takeWhile fun b => b ≠ 32 && b ≠ 13

/-- What stands between the keyword and a terminator of one byte. -/
def argument (wire : Bytes) : Bytes := ((wire.drop (keyword wire).length).dropLast).drop 1

/-- One more line; `none` for a line out of place, to which nothing is owed. Behind `END` only `INFO`
has a place. -/
def Heard.line (h : Heard) (wire : Bytes) : Option Heard :=
  if keyword wire = Bytes.lit "INFO" then if h.streaming then some h else none
  else if h.streaming then none
  else if keyword wire = Bytes.lit "HELLO" then some { h with due := h.due + 2 }
  else if keyword wire = Bytes.lit "END" ∨ keyword wire = Bytes.lit "ENDFETCH" then
    some { h with streaming := true }
  else if keyword wire = Bytes.lit "STATION" then
    some { h with due := h.due + 1, station := argument wire }
  else if keyword wire = Bytes.lit "DATA" then
    some { h with due := h.due + 1, requests := h.requests ++ [(h.station, argument wire)] }
  else some { h with due := h.due + 1 }

def heard (wires : List Bytes) : Option Heard := wires.foldlM Heard.line {}

theorem heard_concat {wires : List Bytes} {wire : Bytes} {h : Heard} (hh : heard wires = some h) :
    heard (wires ++ [wire]) = h.line wire := by
  have hh' : wires.foldlM Heard.line {} = some h := hh
  rw [heard, List.foldlM_append, hh']
  simp

/-! ### What a server owes -/

def RawFrame.number (frame : RawFrame) : Int := frame.seqnum.getD 0

/-- The data packet of the station that an item is, if it is one. -/
def dataFrame (stationId : Text) : Received → Option RawFrame
  | .packet frame =>
    if isJsonErrorFrame frame || isInfoFrame frame || frame.stationId ≠ stationId then none
    else some frame
  | _ => none

def dataFrames (stationId : Text) (items : List (Bytes × Received)) : List RawFrame :=
  items.filterMap fun item => dataFrame stationId item.2

/-- A server with its logs. -/
structure Server where
  log : Text → List RawFrame
  ascending : ∀ stationId, Segments.Ascending RawFrame.number (log stationId)

/-- The station's packets begin what a `DATA` with this argument asks for. -/
structure Server.Answers (server : Server) (stationId : Text) (arg : Bytes) (frames : List RawFrame) :
    Prop where
  bare : arg = [] → ∃ rest, rest <:+ server.log stationId ∧ frames <+: rest
  numbered : ∀ n, Bytes.encodeAscii (Text.intNumeral 10 n) = some arg →
    frames <+: (server.log stationId).filter fun frame => n ≤ frame.number

theorem Server.Answers.prefix_of {server : Server} {stationId : Text} {arg : Bytes} {frames frames' : List RawFrame}
    (h : server.Answers stationId arg frames) (hp : frames' <+: frames) :
    server.Answers stationId arg frames' := by
  refine ⟨fun harg => ?_, fun n hn => hp.trans (h.numbered n hn)⟩
  obtain ⟨rest, hrest, hf⟩ := h.bare harg
  exact ⟨rest, hrest, hp.trans hf⟩

theorem Server.answers_nil {server : Server} {stationId : Text} {arg : Bytes} : server.Answers stationId arg [] :=
  ⟨fun _ => ⟨[], List.nil_suffix, List.nil_prefix⟩, fun _ _ => List.nil_prefix⟩

theorem dataFrames_mono {stationId : Text} {read items : List (Bytes × Received)} (hp : read <+: items) :
    dataFrames stationId read <+: dataFrames stationId items := by
  obtain ⟨t, rfl⟩ := hp
  rw [dataFrames, dataFrames, List.filterMap_append]
  exact List.prefix_append _ _

section servers
variable [Pymseed]

/-- The lines and the items that are owed to a client with this configuration. -/
structure Server.Transcript (server : Server) (cfg : Config) (h : Heard) (lines : List Bytes)
    (items : List (Bytes × Received)) : Prop where
  isLine : ∀ line ∈ lines, IsLine line
  due : lines.length = h.due
  /-- The two lines of a `HELLO` do not lead to v3. -/
  hello : ∀ line₁ line₂ rest text₁ text₂, lines = line₁ :: line₂ :: rest →
    Bytes.decodeAscii line₁ = some text₁ → Bytes.decodeAscii line₂ = some text₂ →
      selectProtocol (parseHello text₁ text₂).2.2.2 cfg.requestedProtocol ≠ .ok .v3
  isItem : ∀ item ∈ items, IsItem item
  silent : h.streaming = false → items = []
  answers : ∀ stationId name arg, Bytes.encodeAscii stationId = some name → (name, arg) ∈ h.requests →
    server.Answers stationId arg (dataFrames stationId items)
  unasked : ∀ stationId, (∀ name arg, Bytes.encodeAscii stationId = some name → (name, arg) ∉ h.requests) →
    dataFrames stationId items = []

/-- A new connection on which, whatever lines a client sends and whenever it reads, the bytes delivered
are a beginning of what is owed. -/
structure Server.Honours (server : Server) (cfg : Config) (sk₀ : Sock) : Prop where
  fresh : sk₀.sent = []
  owed : ∀ total sk h, sk₀.Reaches total sk → heard sk.sent = some h →
    ∃ lines items, server.Transcript cfg h lines items ∧ total <+: terminated lines ++ encoded items

variable {server : Server} {cfg : Config} {h : Heard} {lines : List Bytes}
  {items read : List (Bytes × Received)}

/-- What has been read of it so far is a transcript. -/
theorem Server.Transcript.prefix_of (h' : server.Transcript cfg h lines items) (hp : read <+: items) :
    server.Transcript cfg h lines read where
  isLine := h'.isLine
  due := h'.due
  hello := h'.hello
  isItem item hm := h'.isItem item (hp.subset hm)
  silent hs := List.prefix_nil.1 (h'.silent hs ▸ hp)
  answers stationId name arg hn hm := (h'.answers stationId name arg hn hm).prefix_of (dataFrames_mono hp)
  unasked stationId hno := List.prefix_nil.1 (h'.unasked stationId hno ▸ dataFrames_mono hp)

end servers

end SeedLink
