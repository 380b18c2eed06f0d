import SeedLink.Lib.Interleave
import SeedLink.Negotiation
import SeedLink.Setup

/-!
# Recovered positions

Recovering state and setting up streams commute: the streams are those of the setup alone, with the
merged entries of the files put in (`streams_of_mixes`). A position that is read has one source, a
packet, an entry or a setup call, as long as nothing is recovered over a pending packet
(`position_has_source`); recovering leaves the packet pending, and its time then goes with the number
of the entry (`position_mixed_recoverOverPacket`).

The merged entries are put in again by every recovery, so that a stream of an earlier file goes back to
its entry there unless it still stands at it (`recoversOnly_iff`).
-/

namespace SeedLink

open StateExc Call

/-! ### Applying entries -/

section apply
variable {recovered older : RecoveredState} {s : Stream}

@[simp] theorem stationId_applyRecoveredState :
    (Base.applyRecoveredState recovered s).stationId = s.stationId := by
  unfold Base.applyRecoveredState
  split <;> rfl

@[simp] theorem applyRecoveredState_empty : Base.applyRecoveredState ∅ s = s := by
  simp [Base.applyRecoveredState]

/-- The merged entries override what the older ones put in. -/
theorem applyRecoveredState_union (recovered older : RecoveredState) (s : Stream) :
    Base.applyRecoveredState (recovered ∪ older) (Base.applyRecoveredState older s) =
      Base.applyRecoveredState (recovered ∪ older) s := by
  cases hold : older.lookup s.stationId with
  | none =>
    have hs : Base.applyRecoveredState older s = s := by rw [Base.applyRecoveredState, hold]
    rw [hs]
  | some saved =>
    have hmem : s.stationId ∈ recovered ∪ older :=
      AList.mem_union.2 (.inr (AList.lookup_isSome.1 (by rw [hold]; rfl)))
    obtain ⟨saved', hnew⟩ := Option.isSome_iff_exists.1 (AList.lookup_isSome.2 hmem)
    have hs : Base.applyRecoveredState older s = { s with seqnum := saved.1, timestamp := saved.2 } := by
      rw [Base.applyRecoveredState, hold]
    rw [hs]
    simp only [Base.applyRecoveredState, hnew]

end apply

/-! ### Setup and recovery commute -/

/-- `b` is the selection `b₁`, which has recovered nothing, with the recovered entries put in. -/
structure Base.Recovers (b₁ : Base) (recovered : RecoveredState) (b : Base) : Prop where
  plain : b₁.recoveredState = ∅
  entries : b.recoveredState = recovered
  streams : b.streams = b₁.streams.map (applyRecoveredState recovered)
  allStations : b.allStations = b₁.allStations

namespace Base.Recovers
variable {b₁ b : Base} {recovered : RecoveredState} {o : Op}

theorem accepted_iff (h : Recovers b₁ recovered b) : o.Accepted b ↔ o.Accepted b₁ := by
  have hnil : b.streams = [] ↔ b₁.streams = [] := by rw [h.streams, List.map_eq_nil_iff]
  cases o with
  | setAllStations => simp only [Op.Accepted, h.allStations, hnil]
  | addStreamlistFile file d => cases file <;> simp only [Op.Accepted, h.allStations]
  | _ => simp only [Op.Accepted, h.allStations]

theorem added (h : Recovers b₁ recovered b) (ho : o.IsSetup) (hacc : o.Accepted b₁) :
    Recovers (o.added b₁) recovered (o.added b) := by
  have hentries : ∀ b : Base, (o.added b).recoveredState = b.recoveredState := by
    intro b
    cases o <;> rfl
  refine ⟨(hentries b₁).trans h.plain, (hentries b).trans h.entries, ?_, ?_⟩
  · rw [Op.streams_added ho hacc, Op.streams_added ho (h.accepted_iff.2 hacc), h.streams, h.plain,
      h.entries, List.map_append, List.map_map]
    congr 2
  · cases o with
    | setAllStations => rfl
    | _ => exact h.allStations

/-- More entries are put in over the older ones. -/
theorem recover (h : Recovers b₁ recovered b) (newer : RecoveredState) :
    Recovers b₁ (newer ∪ recovered)
      { b with streams := b.streams.map (applyRecoveredState (newer ∪ b.recoveredState)),
               recoveredState := newer ∪ b.recoveredState } := by
  refine ⟨h.plain, by rw [h.entries], ?_, h.allStations⟩
  rw [h.streams, h.entries, List.map_map]
  exact List.map_congr_left fun s _ => applyRecoveredState_union _ _ s

end Base.Recovers

section recovery
variable [Externals]

/-- The entries after a call. -/
def Call.entries (recovered : RecoveredState) : Call → RecoveredState
  | recoverState (.ok content) => loadState content ∪ recovered
  | _ => recovered

/-- Setup calls and the recoveries of readable files. -/
def Mixes (setups : List Op) (files : List Text) (calls : List Call) : Prop :=
  Interleaves (setups.map .op) (files.map fun content => .recoverState (.ok content)) calls

variable {c : Client} {setups : List Op} {files : List Text} {calls calls' : List Call}

/-- The streams of the setup alone, with the entries of all the files put in. -/
theorem Mixes.streams (h : Mixes setups files calls) (hfresh : c.base = {})
    (hs : ∀ o ∈ setups, o.IsSetup) :
    (runAll calls c).base.streams = (runAll (setups.map .op) c).base.streams.map
      (Base.applyRecoveredState ((files.map fun content => Call.recoverState (.ok content)).foldl
        Call.entries ∅)) := by
  let R : Client → RecoveredState → Client → Prop := fun c₁ recovered c =>
    Base.Recovers c₁.base recovered c.base
  refine Base.Recovers.streams (Interleaves.foldl (R := R) h (fun call hcall c₁ recovered c h => ?_)
    (fun call hcall c₁ recovered c h => ?_) ?_)
  · obtain ⟨o, ho, rfl⟩ := List.mem_map.1 hcall
    rcases base_setup (hs o ho) c₁ with ⟨hacc, hb₁⟩ | ⟨hno, hb₁⟩
    · rcases base_setup (hs o ho) c with ⟨-, hb⟩ | ⟨hno, -⟩
      · show Base.Recovers _ _ _
        rw [hb₁, hb]
        exact h.added (hs o ho) hacc
      · exact absurd (h.accepted_iff.2 hacc) hno
    · rcases base_setup (hs o ho) c with ⟨hacc, -⟩ | ⟨-, hb⟩
      · exact absurd (h.accepted_iff.1 hacc) hno
      · rw [hb₁, hb]
        exact h
  · obtain ⟨content, -, rfl⟩ := List.mem_map.1 hcall
    exact h.recover (loadState content)
  · show Base.Recovers c.base ∅ c.base
    rw [hfresh]
    exact ⟨rfl, rfl, rfl, rfl⟩

/-- The same setup calls, some of which may raise, and the same recoveries give the same streams in
whatever order they are mixed. -/
theorem streams_of_mixes (hfresh : c.base = {}) (hs : ∀ o ∈ setups, o.IsSetup)
    (h : Mixes setups files calls) (h' : Mixes setups files calls') :
    (runAll calls c).base.streams = (runAll calls' c).base.streams :=
  (h.streams hfresh hs).trans (h'.streams hfresh hs).symm

end recovery

/-- Recovered before and after the station is added. -/
theorem streams_of_mixes_recoverFirst :
    let add : Op := .addStream "A_B".toList none (some 1) false none
    let file : Text := "#V2\nA_B 7\n".toList
    let calls : List Call := [.recoverState (.ok file), .op add]
    let calls' : List Call := [.op add, .recoverState (.ok file)]
    (@runAll Externals.bare calls (.listening .v3 [])).base.streams.map (·.seqnum) = [some 7] ∧
      (@runAll Externals.bare calls (.listening .v3 [])).base.streams =
        (@runAll Externals.bare calls' (.listening .v3 [])).base.streams :=
  ⟨by decide +kernel, @streams_of_mixes Externals.bare (.listening .v3 []) [_] [_] _ _ rfl
    (fun o ho => by rw [List.mem_singleton.1 ho]; trivial)
    (.right _ (.left _ .nil)) (.left _ (.right _ .nil))⟩

/-! ### The source of a position -/

/-- What `save_state` and a v3 resume command read of a stream. -/
def Stream.position [Pymseed] (s : Stream) : Position := (s.seqnum, s.resolveTimestamp.timestamp)

section sources
variable [Externals]

/-- The position of a packet, an entry or a setup call among `calls` for the stream. -/
inductive Source (calls : List Call) (s : Stream) : Position → Prop
  | packet {pkt : SeedLinkPacket} {record : Record} (h : .op (.packet pkt) ∈ calls)
      (hm : s.matchesId pkt.stationId = true) (hp : pkt.parsed = .ok record) :
      Source calls s (pkt.seqnum, some (Pymseed.starttimeStr record))
  | entry {content : Text} {saved : Position} (h : .recoverState (.ok content) ∈ calls)
      (hl : (loadState content).lookup s.stationId = some saved) : Source calls s saved
  | setup {o : Op} {t : Stream} (h : .op o ∈ calls) (ht : t ∈ o.configures)
      (hid : t.stationId = s.stationId) : Source calls s (t.seqnum, t.timestamp)

/-- The call puts no entry into a stream whose last packet has not been resolved. -/
def Call.Quiet (b : Base) : Call → Prop
  | recoverState (.ok content) => ∀ s ∈ b.streams, s.pendingPacket.isSome = true →
      (loadState content ∪ b.recoveredState).lookup s.stationId = none
  | _ => True

/-- The packets of the call parse. -/
def Call.Parses : Call → Prop
  | op (.packet pkt) => ∃ record, pkt.parsed = .ok record
  | _ => True

variable {calls : List Call} {s s' t : Stream} {b : Base} {c : Client} {call : Call} {pos : Position}

theorem Source.mono (h : Source calls s pos) (call : Call) : Source (calls ++ [call]) s pos := by
  rcases h with ⟨h, hm, hp⟩ | ⟨h, hl⟩ | ⟨h, ht, hid⟩
  · exact .packet (List.mem_append_left _ h) hm hp
  · exact .entry (List.mem_append_left _ h) hl
  · exact .setup (List.mem_append_left _ h) ht hid

/-- Only the station ID of the stream counts. -/
theorem Source.congr (h : Source calls s pos) (hid : s'.stationId = s.stationId) : Source calls s' pos := by
  rcases h with ⟨h, hm, hp⟩ | ⟨h, hl⟩ | ⟨h, ht, hid'⟩
  · exact .packet h ((Op.matchesId_congr hid).trans hm) hp
  · exact .entry h (hid ▸ hl)
  · exact .setup h ht (hid'.trans hid.symm)

omit [Externals] in
theorem position_of_none [Pymseed] (h : s.pendingPacket = none) : s.position = (s.seqnum, s.timestamp) := by
  rw [Stream.position, resolveTimestamp_of_none h]

omit [Externals] in
/-- Resolving does not change what is read. -/
theorem Resolves.position [Pymseed] (h : Resolves s s') : s'.position = s.position := by
  have hpend : s.resolveTimestamp.pendingPacket = none := by
    unfold Stream.resolveTimestamp
    split
    · assumption
    · split <;> rfl
  rcases h with rfl | rfl
  · rfl
  · rw [position_of_none hpend, resolveTimestamp_seqnum]
    rfl

/-- A stream of which only the position is left. -/
def Stream.atPosition (s : Stream) : Stream :=
  { stationId := s.stationId, seqnum := s.position.1, timestamp := s.position.2 }

/-- Saving reads the positions. -/
theorem saveState_atPosition (faults : Faults) (streams : List Stream) :
    (saveState faults (streams.map Stream.atPosition)).1 = (saveState faults streams).1 := by
  have hlines : ∀ (streams : List Stream) (n : Nat),
      (stateLines faults n (streams.map Stream.atPosition)).1 = (stateLines faults n streams).1 := by
    intro streams
    induction streams with
    | nil => exact fun n => rfl
    | cons s rest ih =>
      intro n
      have hres : s.atPosition.resolveTimestamp = s.atPosition := resolveTimestamp_of_none rfl
      have hseq : s.atPosition.seqnum = s.seqnum := rfl
      rw [List.map_cons]
      unfold stateLines
      rw [hseq]
      cases sequenceText s.seqnum with
      | error e => rfl
      | ok seq =>
        simp only [hres, ih]
        cases faults n with
        | some e => rfl
        | none => rw [resolveTimestamp_stationId]; rfl
  unfold saveState
  cases faults 0 with
  | some e => rfl
  | none => simp only [hlines, List.length_map]; split <;> rfl

/-- A v3 request without a time window reads the position. -/
theorem requestV3_atPosition {args : NegotiationArgs} {endStr : Option Text} {r : Bool} (s : Stream) :
    (requestV3 args none endStr r s.atPosition).1 = (requestV3 args none endStr r s).1 := by
  have hres : s.atPosition.resolveTimestamp = s.atPosition := resolveTimestamp_of_none rfl
  have hseq : args.resumeSeqnum s.atPosition = args.resumeSeqnum s := rfl
  have hts : s.atPosition.timestamp = s.resolveTimestamp.timestamp := rfl
  have hone : (resumeTimestamp args (args.resumeSeqnum s) s.atPosition).1 =
      (resumeTimestamp args (args.resumeSeqnum s) s).1 := by
    unfold resumeTimestamp
    simp only [hres, hts]
    split
    · split
      · split
        · rfl
        · split <;> rfl
      · rfl
    · rfl
  have hid : (resumeTimestamp args (args.resumeSeqnum s) s).2.stationId = s.stationId :=
    (resolves_resumeTimestamp _ s).stationId
  have hid' : (resumeTimestamp args (args.resumeSeqnum s) s.atPosition).2.stationId = s.stationId :=
    (resolves_resumeTimestamp _ s.atPosition).stationId
  unfold requestV3
  simp only [hseq]
  generalize resumeTimestamp args (args.resumeSeqnum s) s = x at hone hid
  generalize resumeTimestamp args (args.resumeSeqnum s) s.atPosition = y at hone hid'
  obtain ⟨res, t⟩ := x
  obtain ⟨res', t'⟩ := y
  obtain rfl : res' = res := hone
  cases res' with
  | error e => rfl
  | ok timestamp =>
    show Except.ok (Commands.dataV3 t'.stationId _ _ _ _) = Except.ok (Commands.dataV3 t.stationId _ _ _ _)
    rw [hid, hid']

/-- Every position has a source among `calls`. -/
structure Base.Sourced (calls : List Call) (b : Base) : Prop where
  cacheOk : b.CacheOk
  entries : ∀ stationId saved, b.recoveredState.lookup stationId = some saved →
    ∃ content, .recoverState (.ok content) ∈ calls ∧ (loadState content).lookup stationId = some saved
  streams : ∀ s ∈ b.streams, Source calls s s.position

namespace Base.Sourced

/-- A stream with the entries put in. -/
theorem source_apply {recovered : RecoveredState} (hpend : s.pendingPacket.isSome = true →
      recovered.lookup s.stationId = none)
    (hentries : ∀ stationId saved, recovered.lookup stationId = some saved →
      ∃ content, .recoverState (.ok content) ∈ calls ∧ (loadState content).lookup stationId = some saved)
    (h : Source calls s s.position) :
    Source calls (applyRecoveredState recovered s) (applyRecoveredState recovered s).position := by
  refine Source.congr ?_ stationId_applyRecoveredState
  cases hl : recovered.lookup s.stationId with
  | none => rwa [applyRecoveredState, hl]
  | some saved =>
    have hnone : s.pendingPacket = none := by
      cases hp : s.pendingPacket with
      | none => rfl
      | some pkt => rw [hpend (by rw [hp]; rfl)] at hl; cases hl
    obtain ⟨content, hmem, hlook⟩ := hentries _ _ hl
    have heq : (applyRecoveredState recovered s).position = saved := by
      rw [applyRecoveredState, hl]
      exact position_of_none hnone
    rw [heq]
    exact .entry hmem hlook

theorem mono_entries (h : b.Sourced calls) (call : Call) : ∀ stationId saved,
    b.recoveredState.lookup stationId = some saved → ∃ content,
      .recoverState (.ok content) ∈ calls ++ [call] ∧ (loadState content).lookup stationId = some saved := by
  intro stationId saved hl
  obtain ⟨content, hmem, hlook⟩ := h.entries stationId saved hl
  exact ⟨content, List.mem_append_left _ hmem, hlook⟩

/-- A call that adds streams, a negotiation or a packet. -/
theorem op (h : c.base.Sourced calls) (o : Op) (hparse : (Call.op o).Parses) :
    (after c (.op o)).base.Sourced (calls ++ [.op o]) := by
  have hsteps := Op.steps_after o h.cacheOk
  change o.Steps c.base (after c (.op o)).base at hsteps
  refine ⟨hsteps.cacheOk, ?_, fun s' hs' => ?_⟩
  · rw [hsteps.recovered]
    exact h.mono_entries _
  obtain ⟨i, hi⟩ := List.getElem?_of_mem hs'
  by_cases hlt : i < c.base.streams.length
  · -- a stream that was there
    have hget := List.getElem?_eq_getElem hlt
    obtain ⟨s'', hs'', hm⟩ := hsteps.moves i _ hget
    obtain rfl : s' = s'' := Option.some.inj (hi.symm.trans hs'')
    have hsrc := (h.streams _ (List.getElem_mem hlt)).mono (.op o)
    revert hm hsrc
    generalize c.base.streams[i] = s
    intro hm hsrc
    cases o with
    | negotiate =>
      rw [Resolves.position hm]
      exact hsrc.congr (Resolves.stationId hm)
    | packet pkt =>
      obtain rfl : s' = noteArrival pkt s := hm
      refine Source.congr ?_ (noteArrival_stationId s)
      unfold noteArrival
      split
      · rename_i hmatch
        obtain ⟨record, hp⟩ := hparse
        have hpos : ({ s with seqnum := pkt.seqnum, pendingPacket := some pkt } : Stream).position =
            (pkt.seqnum, some (Pymseed.starttimeStr record)) := by
          simp only [Stream.position, Stream.resolveTimestamp, hp]
        rw [hpos]
        exact .packet (List.mem_append_right _ List.mem_cons_self) hmatch.2 hp
      · exact hsrc
    | _ =>
      obtain rfl : s' = s := hm
      exact hsrc
  · -- a stream that has been added
    obtain ⟨t, ht, rfl⟩ := hsteps.adds i s' hi (by omega)
    have hpend := Op.pendingPacket_of_configures ht
    refine source_apply (fun hp => by rw [hpend] at hp; cases hp) (h.mono_entries _) ?_
    rw [position_of_none hpend]
    exact .setup (List.mem_append_right _ List.mem_cons_self) ht rfl

/-- The step lemma. -/
theorem after (h : c.base.Sourced calls) (hquiet : call.Quiet c.base) (hparse : call.Parses) :
    (Call.after c call).base.Sourced (calls ++ [call]) := by
  cases call with
  | op o => exact h.op o hparse
  | recoverState file =>
    rcases base_recover file c with ⟨e, rfl, hrun⟩ | ⟨content, rfl, hb⟩
    · have hsame : Call.after c (.recoverState (.error e)) = c := by simp only [Call.after, hrun]
      rw [hsame]
      exact ⟨h.cacheOk, h.mono_entries _, fun s hs => (h.streams s hs).mono _⟩
    · have hentries : ∀ stationId saved,
          (loadState content ∪ c.base.recoveredState).lookup stationId = some saved →
          ∃ content', .recoverState (.ok content') ∈ calls ++ [.recoverState (.ok content)] ∧
            (loadState content').lookup stationId = some saved := by
        intro stationId saved hl
        rcases AList.mem_lookup_union.1 hl with hl | ⟨-, hl⟩
        · exact ⟨content, List.mem_append_right _ List.mem_cons_self, hl⟩
        · exact h.mono_entries _ stationId saved hl
      rw [hb]
      refine ⟨h.cacheOk.congr rfl ?_, hentries, fun s' hs' => ?_⟩
      · rw [List.map_map]
        exact List.map_congr_left fun s _ => stationId_applyRecoveredState
      · obtain ⟨s, hs, rfl⟩ := List.mem_map.1 hs'
        exact source_apply (hquiet s hs) hentries ((h.streams s hs).mono _)
  | saveState faults =>
    rw [base_save]
    have hres := @resolves_saveState _ faults c.base.streams
    refine ⟨h.cacheOk.congr rfl (Resolves.stationIds hres), h.mono_entries _, fun s' hs' => ?_⟩
    obtain ⟨s, hs, hr⟩ := exists_of_mem_forall₂ hres hs'
    rw [hr.position]
    exact ((h.streams s hs).mono _).congr hr.stationId
  | setTimewindow start stop =>
    obtain ⟨startTime, endTime, hb⟩ := base_window start stop c
    rw [hb]
    exact ⟨h.cacheOk.congr rfl rfl, h.mono_entries _, fun s hs => (h.streams s hs).mono _⟩

end Base.Sourced

/-- As long as no entry is put into a stream with a pending packet, and packets parse, the number and
the time of every position come from one packet, one entry or one setup call. -/
theorem position_has_source (hfresh : c.base = {}) (hparse : ∀ call ∈ calls, call.Parses)
    (hquiet : ∀ before call after, calls = before ++ call :: after → call.Quiet (runAll before c).base)
    (hs : s ∈ (runAll calls c).base.streams) : Source calls s s.position := by
  have hrun : (runAll calls c).base.Sourced calls := by
    clear hs
    induction calls using List.reverseRecOn with
    | nil =>
      rw [show runAll [] c = c from rfl, hfresh]
      exact ⟨Base.cacheOk_of_matchCache_eq_empty rfl, by simp, by simp⟩
    | append_singleton calls call ih =>
      rw [runAll_concat]
      have hquiet' := hquiet calls call [] rfl
      refine Base.Sourced.after ?_ hquiet' (hparse call (by simp))
      refine ih (fun call' hmem => hparse call' (List.mem_append_left _ hmem))
        fun before call' after hsplit => hquiet before call' (after ++ [call]) ?_
      rw [hsplit]
      simp
  exact hrun.streams s hs

end sources

/-- Records that all begin at one time. -/
abbrev Externals.timed : Externals :=
  { Externals.bare with starttimeStr := fun _ => "2024-05-06T07:08:09Z".toList }

def savedEntry : Text := "#V2\nA_B 3 2020-01-02T03:04:05Z\n".toList

/-- A packet with sequence number 8 whose record has been read. -/
def packetAB : SeedLinkPacket :=
  { stationId := "A_B".toList, seqnum := some 8, payloadFormat := formatMseed2,
    payloadSubformat := "D".toList, payload := [], record := some [] }

/-- A station is recovered, added, and sends a packet. -/
def recoverThenPacket : List Call :=
  [.recoverState (.ok savedEntry), .op (.addStream "A_B".toList none none false none),
    .op (.packet packetAB)]

theorem position_has_source_recoverThenPacket :
    ∃ s ∈ (@runAll Externals.timed recoverThenPacket (.listening .v3 [])).base.streams,
      @Stream.position Externals.timed.toPymseed s = (some 8, some "2024-05-06T07:08:09Z".toList) ∧
      @Source Externals.timed recoverThenPacket s (@Stream.position Externals.timed.toPymseed s) := by
  refine ⟨_, List.mem_singleton_self _, rfl, @position_has_source Externals.timed recoverThenPacket _
    (.listening .v3 []) rfl (fun call h => ?_) (fun before call after h => ?_) (List.mem_singleton_self _)⟩
  · simp only [recoverThenPacket, List.mem_cons, List.not_mem_nil, or_false] at h
    rcases h with rfl | rfl | rfl
    · trivial
    · trivial
    · exact ⟨[], rfl⟩
  · rcases before with _ | ⟨x, _ | ⟨y, _ | ⟨z, before⟩⟩⟩
    · cases h
      exact fun s hs => by cases hs
    · cases h
      trivial
    · cases h
      trivial
    · simp [recoverThenPacket] at h

/-- The packet arrives first. -/
def recoverOverPacket : List Call :=
  [.op (.addStream "A_B".toList none none false none), .op (.packet packetAB),
    .recoverState (.ok savedEntry)]

theorem source_recoverOverPacket {s : Stream} {pos : Position} (hid : s.stationId = "A_B".toList)
    (h : @Source Externals.timed recoverOverPacket s pos) :
    pos = (some 8, some "2024-05-06T07:08:09Z".toList) ∨ pos = (some 3, some "2020-01-02T03:04:05Z".toList) ∨
      pos = (none, none) := by
  have hsaved : (@loadState Externals.timed.toUnicode savedEntry).lookup "A_B".toList =
      some (some 3, some "2020-01-02T03:04:05Z".toList) := by decide +kernel
  rcases h with ⟨h, -, -⟩ | ⟨h, hl⟩ | ⟨h, ht, -⟩
  all_goals simp only [recoverOverPacket, List.mem_cons, List.not_mem_nil, or_false, Call.op.injEq,
    Op.packet.injEq, reduceCtorEq, false_or, Call.recoverState.injEq, Except.ok.injEq] at h
  · obtain rfl := h
    exact .inl rfl
  · obtain rfl := h
    rw [hid, hsaved] at hl
    exact .inr (.inl (Option.some.inj hl).symm)
  · rcases h with rfl | rfl
    · obtain rfl := List.mem_singleton.1 ht
      exact .inr (.inr rfl)
    · cases ht

/-- The number of the entry goes with the time of the packet. -/
theorem position_mixed_recoverOverPacket :
    ∃ s ∈ (@runAll Externals.timed recoverOverPacket (.listening .v3 [])).base.streams,
      @Stream.position Externals.timed.toPymseed s = (some 3, some "2024-05-06T07:08:09Z".toList) ∧
      (∀ call ∈ recoverOverPacket, @Call.Parses Externals.timed call) ∧
      ¬ @Source Externals.timed recoverOverPacket s (@Stream.position Externals.timed.toPymseed s) := by
  obtain ⟨s, hs, hid, hpos⟩ : ∃ s ∈ (@runAll Externals.timed recoverOverPacket (.listening .v3 [])).base.streams,
      s.stationId = "A_B".toList ∧ @Stream.position Externals.timed.toPymseed s =
        (some 3, some "2024-05-06T07:08:09Z".toList) := ⟨_, List.mem_singleton_self _, rfl, rfl⟩
  refine ⟨s, hs, hpos, fun call h => ?_, fun h => ?_⟩
  · simp only [recoverOverPacket, List.mem_cons, List.not_mem_nil, or_false] at h
    rcases h with rfl | rfl | rfl
    · trivial
    · exact ⟨[], rfl⟩
    · trivial
  · rw [hpos] at h
    have hsrc := source_recoverOverPacket hid h
    revert hsrc
    decide

/-! ### Streams of earlier files -/

section earlier
variable [Externals] {calls : List Call} {c : Client} {file : Except Exn Text}

/-- The entries of a state file, none for one that cannot be read. -/
def fileEntries (file : Except Exn Text) : RecoveredState :=
  match file with
  | .ok content => loadState content
  | .error _ => ∅

/-- The streams that the file does not name are left as they are. -/
def RecoversOnly (file : Except Exn Text) (b b' : Base) : Prop :=
  List.Forall₂ (fun s s' => s.stationId ∉ fileEntries file → s' = s) b.streams b'.streams

/-- The stream stands where the entries have it, if they have it. -/
def StandsAt (recovered : RecoveredState) (s : Stream) : Prop :=
  ∀ saved, recovered.lookup s.stationId = some saved → (s.seqnum, s.timestamp) = saved

/-- The entries at hand are those of the files recovered so far. -/
theorem recoveredState_runAll (hfresh : c.base = {}) (calls : List Call) :
    (runAll calls c).base.CacheOk ∧ (runAll calls c).base.recoveredState = calls.foldl Call.entries ∅ := by
  induction calls using List.reverseRecOn with
  | nil =>
    rw [show runAll [] c = c from rfl, hfresh]
    exact ⟨Base.cacheOk_of_matchCache_eq_empty rfl, rfl⟩
  | append_singleton calls call ih =>
    rw [runAll_concat, List.foldl_concat, ← ih.2]
    generalize runAll calls c = c at ih
    cases call with
    | op o =>
      have hsteps := Op.steps_after o ih.1
      exact ⟨hsteps.cacheOk, hsteps.recovered⟩
    | recoverState file =>
      rcases base_recover file c with ⟨e, rfl, hrun⟩ | ⟨content, rfl, hb⟩
      · have hsame : Call.after c (.recoverState (.error e)) = c := by simp only [Call.after, hrun]
        rw [hsame]
        exact ⟨ih.1, rfl⟩
      · rw [hb]
        refine ⟨ih.1.congr rfl ?_, rfl⟩
        rw [List.map_map]
        exact List.map_congr_left fun s _ => stationId_applyRecoveredState
    | saveState faults =>
      rw [base_save]
      exact ⟨ih.1.congr rfl (Resolves.stationIds (resolves_saveState _)), rfl⟩
    | setTimewindow start stop =>
      obtain ⟨startTime, endTime, hb⟩ := base_window start stop c
      rw [hb]
      exact ⟨ih.1.congr rfl rfl, rfl⟩

omit [Externals] in
/-- Putting in entries leaves a stream as it is exactly when it stands where they have it. -/
theorem applyRecoveredState_eq_self {recovered : RecoveredState} {s : Stream} :
    Base.applyRecoveredState recovered s = s ↔ StandsAt recovered s := by
  unfold Base.applyRecoveredState StandsAt
  cases recovered.lookup s.stationId with
  | none => simp
  | some saved =>
    constructor
    · intro h saved' hsaved'
      cases hsaved'
      rw [← h]
    · intro h
      rw [← h saved rfl]

/-- Recovering leaves the streams that the file does not name alone exactly when each of them stands where
the files before have it. -/
theorem recoversOnly_iff (hfresh : c.base = {}) :
    RecoversOnly file (runAll calls c).base (runAll (calls ++ [.recoverState file]) c).base ↔
      ∀ content, file = .ok content → ∀ s ∈ (runAll calls c).base.streams, s.stationId ∉ loadState content →
        StandsAt (calls.foldl Call.entries ∅) s := by
  have hentries := (recoveredState_runAll hfresh calls).2
  rw [runAll_concat]
  generalize runAll calls c = c at hentries
  unfold RecoversOnly
  rcases base_recover file c with ⟨e, rfl, hrun⟩ | ⟨content, rfl, hb⟩
  · have hsame : Call.after c (.recoverState (.error e)) = c := by simp only [Call.after, hrun]
    rw [hsame]
    exact iff_of_true (List.forall₂_same.2 fun s _ _ => rfl) fun content h => by cases h
  · rw [hb, List.forall₂_map_right_iff, List.forall₂_same, hentries]
    have hstands : ∀ s : Stream, s.stationId ∉ loadState content →
        (Base.applyRecoveredState (loadState content ∪ calls.foldl Call.entries ∅) s = s ↔
          StandsAt (calls.foldl Call.entries ∅) s) := by
      intro s hs
      rw [applyRecoveredState_eq_self, StandsAt, AList.lookup_union_right hs]
      rfl
    constructor
    · intro h content' heq s hs hno
      cases heq
      exact (hstands s hno).1 (h s hs hno)
    · exact fun h s hs hno => (hstands s hno).2 (h content rfl s hs hno)

end earlier

def noEntries : Text := "#V2\n".toList

/-- A file that names no station takes the station of an earlier file back. -/
theorem rewinds_recoverThenPacket :
    (@runAll Externals.timed recoverThenPacket (.listening .v3 [])).base.streams.map (·.seqnum) = [some 8] ∧
      (@runAll Externals.timed (recoverThenPacket ++ [.recoverState (.ok noEntries)])
        (.listening .v3 [])).base.streams.map (·.seqnum) = [some 3] ∧
      ¬ @RecoversOnly Externals.timed (.ok noEntries)
        (@runAll Externals.timed recoverThenPacket (.listening .v3 [])).base
        (@runAll Externals.timed (recoverThenPacket ++ [.recoverState (.ok noEntries)])
          (.listening .v3 [])).base := by
  have hbefore : (@runAll Externals.timed recoverThenPacket (.listening .v3 [])).base.streams.map (·.seqnum) =
      [some 8] := by decide +kernel
  have hafter : (@runAll Externals.timed (recoverThenPacket ++ [.recoverState (.ok noEntries)])
      (.listening .v3 [])).base.streams.map (·.seqnum) = [some 3] := by decide +kernel
  refine ⟨hbefore, hafter, fun h => ?_⟩
  have hempty : @fileEntries Externals.timed (.ok noEntries) = ∅ := rfl
  have hkeep : ∀ {l l' : List Stream},
      List.Forall₂ (fun s s' => s.stationId ∉ @fileEntries Externals.timed (.ok noEntries) → s' = s) l l' →
        l'.map (·.seqnum) = l.map (·.seqnum) := by
    intro l l' h
    induction h with
    | nil => rfl
    | cons hs _ ih =>
      rw [List.map_cons, List.map_cons, ih, hs (by rw [hempty]; exact AList.notMem_empty _)]
  have := (hkeep h).symm.trans hafter
  rw [hbefore] at this
  cases this

/-- A station that stands where its file has it stays there. -/
theorem recoversOnly_iff_noPacket :
    @RecoversOnly Externals.timed (.ok noEntries)
      (@runAll Externals.timed (recoverThenPacket.take 2) (.listening .v3 [])).base
      (@runAll Externals.timed (recoverThenPacket.take 2 ++ [.recoverState (.ok noEntries)])
        (.listening .v3 [])).base := by
  refine (@recoversOnly_iff Externals.timed (recoverThenPacket.take 2) (.listening .v3 []) (.ok noEntries) rfl).2 ?_
  intro content _ s hs _ saved hsaved
  obtain rfl := List.mem_singleton.1 hs
  exact Option.some.inj hsaved

end SeedLink
