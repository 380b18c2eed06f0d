import SeedLink.Plans
import SeedLink.Steady

/-!
# Positions follow the packets

Streams are added, negotiated and updated by packets in any order. Updates go through the match
cache; `CacheOk` holds throughout, so that a stream's position is that of the last packet it matches,
or the one it was added with.
-/

namespace SeedLink

open StateExc

/-- The calls that touch the stream list, and the arrival of a packet. -/
inductive Op
  | addStream (stationId : Text) (selectors : Option Base.Selectors) (seqnum : Option Int)
      (allData : Bool) (timestamp : Option Text)
  | addStreamlist (text : Text) (defaultSelectors : Option Text)
  | addStreamlistFile (file : Except Exn Text) (defaultSelectors : Option Text)
  | setAllStations (selectors : Option Base.Selectors) (seqnum : Option Int) (allData : Bool)
      (timestamp : Option Text)
  | negotiate
  | packet (pkt : SeedLinkPacket)

/-- A method of the base class, on a client. -/
def onBase (x : BaseM Unit) : ClientM Unit := fun c =>
  match x c.base with
  | .ok a b => .ok a { c with base := b }
  | .error e b => .error (.raised e) { c with base := b }

namespace Op

/-- The streams a call adds when it adds any, before the recovered positions are put in. -/
def configures : Op → List Stream
  | addStream stationId selectors seqnum allData timestamp =>
    [{ stationId, selectors := Base.Selectors.toList selectors, seqnum, allData, timestamp }]
  | addStreamlist text defaultSelectors => parseStreamlist text defaultSelectors
  | addStreamlistFile (.ok content) defaultSelectors => readStreamlistFile content defaultSelectors
  | addStreamlistFile (.error _) _ => []
  | setAllStations selectors seqnum allData timestamp =>
    [{ stationId := ['*'], selectors := Base.Selectors.toList selectors, seqnum, allData, timestamp }]
  | negotiate => [{ stationId := ['*'] }]
  | packet _ => []

variable {op : Op} {t : Stream}

theorem pendingPacket_of_configures (h : t ∈ op.configures) : t.pendingPacket = none := by
  cases op with
  | addStream => obtain rfl := List.mem_singleton.1 h; rfl
  | setAllStations => obtain rfl := List.mem_singleton.1 h; rfl
  | negotiate => obtain rfl := List.mem_singleton.1 h; rfl
  | packet => simp [configures] at h
  | addStreamlist text d =>
    obtain ⟨entry, -, he⟩ := List.mem_filterMap.1 h
    unfold parseStreamlistEntry at he
    simp only at he
    split at he <;> cases he
    rfl
  | addStreamlistFile file d =>
    cases file with
    | error e => simp [configures] at h
    | ok content =>
      obtain ⟨line, -, hl⟩ := List.mem_filterMap.1 h
      unfold readStreamlistLine at hl
      simp only at hl
      split at hl <;> cases hl <;> rfl

theorem pendingPacket_applyRecoveredState {recovered : RecoveredState} :
    (Base.applyRecoveredState recovered t).pendingPacket = t.pendingPacket := by
  unfold Base.applyRecoveredState
  split <;> rfl

theorem matchesId_congr {s s₀ : Stream} {stationId : Text} (h : s.stationId = s₀.stationId) :
    s.matchesId stationId = s₀.matchesId stationId := by
  unfold Stream.matchesId
  rw [h]

/-- The packet that arrives and has a sequence number and the station ID of the stream. -/
def updates (s : Stream) : Op → Option SeedLinkPacket
  | packet pkt => if pkt.seqnum.isSome && s.matchesId pkt.stationId then some pkt else none
  | _ => none

end Op

/-- The last packet that updates the stream. -/
def latest (s : Stream) (ops : List Op) : Option SeedLinkPacket :=
  (ops.filterMap (Op.updates s)).getLast?

theorem latest_concat {s₀ : Stream} {ops : List Op} {op : Op} :
    latest s₀ (ops ++ [op]) = (op.updates s₀).or (latest s₀ ops) := by
  unfold latest
  rw [List.filterMap_append]
  cases hop : op.updates s₀ with
  | none => simp [hop]
  | some pkt => simp [hop]

/-- The last packet that updates a stream is one of the packets. -/
theorem mem_of_latest {s₀ : Stream} {ops : List Op} {pkt : SeedLinkPacket}
    (h : latest s₀ ops = some pkt) : .packet pkt ∈ ops := by
  obtain ⟨op, hop, hup⟩ := List.mem_filterMap.1 (List.mem_of_getLast? h)
  cases op with
  | packet pkt' =>
    simp only [Op.updates] at hup
    split at hup <;> cases hup
    exact hop
  | _ => cases hup

section ops
variable [Externals]

namespace Op

def run : Op → ClientM Unit
  | addStream stationId selectors seqnum allData timestamp =>
    onBase (Base.addStream stationId selectors seqnum allData timestamp)
  | addStreamlist text defaultSelectors => onBase (Base.addStreamlist text defaultSelectors)
  | addStreamlistFile file defaultSelectors => onBase (Base.addStreamlistFile file defaultSelectors)
  | setAllStations selectors seqnum allData timestamp =>
    onBase (Base.setAllStations selectors seqnum allData timestamp)
  | negotiate => SeedLink.negotiate
  | packet pkt => modify fun c => { c with base := c.base.updateStreamState pkt }

/-- The client after the call, which may have failed. -/
def after (c : Client) (op : Op) : Client :=
  match op.run c with
  | .ok _ c' => c'
  | .error _ c' => c'

def runAll (ops : List Op) (c : Client) : Client := ops.foldl after c

end Op

/-- What one call does to a stream that was there before. -/
def Op.Moves (op : Op) (s s' : Stream) : Prop :=
  match op with
  | .negotiate => Resolves s s'
  | .packet pkt => s' = Base.noteArrival pkt s
  | _ => s' = s

/-- What one call does to the stream list. -/
structure Op.Steps (op : Op) (b b' : Base) : Prop where
  cacheOk : b'.CacheOk
  recovered : b'.recoveredState = b.recoveredState
  moves : ∀ (i : Nat) s, b.streams[i]? = some s → ∃ s', b'.streams[i]? = some s' ∧ op.Moves s s'
  adds : ∀ (i : Nat) s, b'.streams[i]? = some s → b.streams.length ≤ i →
    ∃ t ∈ op.configures, s = Base.applyRecoveredState b.recoveredState t

/-! ### One call -/

namespace Op
variable {b : Base} {op : Op}

/-- A call that fails leaves everything as it is. -/
theorem Steps.refl (h : b.CacheOk) (hmoves : ∀ s, op.Moves s s) : op.Steps b b where
  cacheOk := h
  recovered := rfl
  moves i s hs := ⟨s, hs, hmoves s⟩
  adds i s hs hi := by rw [List.getElem?_eq_none hi] at hs; cases hs

theorem Steps.extend (hmoves : ∀ s, op.Moves s s) (b : Base) : op.Steps b (b.extend op.configures) where
  cacheOk := Base.cacheOk_of_matchCache_eq_empty rfl
  recovered := rfl
  moves i s hs := by
    refine ⟨s, ?_, hmoves s⟩
    show (b.streams ++ _)[i]? = some s
    rw [List.getElem?_append_left (List.getElem?_eq_some_iff.1 hs).1, hs]
  adds i s hs hi := by
    have hs' : (b.streams ++ op.configures.map (Base.applyRecoveredState b.recoveredState))[i]? = some s :=
      hs
    rw [List.getElem?_append_right hi, List.getElem?_map] at hs'
    obtain ⟨t, ht, rfl⟩ := Option.map_eq_some_iff.1 hs'
    exact ⟨t, List.mem_of_getElem? ht, rfl⟩

theorem steps_negotiate (b : Base) (args : NegotiationArgs) :
    Steps .negotiate b (b.prepareNegotiation args).2 where
  cacheOk := Base.cacheOk_of_matchCache_eq_empty Base.prepareNegotiation_matchCache
  recovered := Base.prepareNegotiation_recoveredState
  moves i s hs := by
    refine Base.prepareNegotiation_streams ?_
    rw [Base.ensureDefaultStream_streams, if_neg]
    · exact hs
    · intro h; rw [h] at hs; cases hs
  adds i s hs hi := by
    by_cases hnil : b.streams = []
    · have hdef : b.ensureDefaultStream.streams =
          [Base.applyRecoveredState b.recoveredState { stationId := ['*'] }] := by
        rw [Base.ensureDefaultStream_streams, if_pos hnil]
      have hlt : i < b.ensureDefaultStream.streams.length := by
        rw [← @Base.prepareNegotiation_length _ args]
        exact (List.getElem?_eq_some_iff.1 hs).1
      rw [hdef] at hlt
      obtain rfl : i = 0 := by simpa using hlt
      obtain ⟨s', hs', hr⟩ := @Base.prepareNegotiation_streams _ args b 0
        (Base.applyRecoveredState b.recoveredState { stationId := ['*'] }) (by rw [hdef]; rfl)
      obtain rfl : s = s' := Option.some.inj (hs.symm.trans hs')
      exact ⟨_, List.mem_singleton_self _, hr.eq_of_none pendingPacket_applyRecoveredState⟩
    · have hlen := @Base.prepareNegotiation_length _ args b
      rw [Base.ensureDefaultStream_streams, if_neg hnil] at hlen
      have := (List.getElem?_eq_some_iff.1 hs).1
      omega

theorem steps_packet (h : b.CacheOk) (pkt : SeedLinkPacket) :
    Steps (.packet pkt) b (b.updateStreamState pkt) where
  cacheOk := h.updateStreamState pkt
  recovered := by
    unfold Base.updateStreamState Base.streamsMatching
    split
    · rfl
    · simp only; split <;> rfl
  moves i s hs := ⟨_, by rw [h.streams_updateStreamState, List.getElem?_map, hs]; rfl, rfl⟩
  adds i s hs hi := by
    rw [h.streams_updateStreamState, List.getElem?_map, List.getElem?_eq_none hi] at hs
    cases hs

/-- A call that raises, or else appends what it configures. -/
theorem steps_onBase {x : BaseM Unit} {c : Client} (h : c.base.CacheOk) (hmoves : ∀ s, op.Moves s s)
    (hrun : op.run = onBase x)
    (hx : (∃ e, x c.base = .error e c.base) ∨ x c.base = .ok ⟨⟩ (c.base.extend op.configures)) :
    op.Steps c.base (after c op).base := by
  have hafter : after c op = match onBase x c with | .ok _ c' => c' | .error _ c' => c' := by
    rw [after, hrun]
  rcases hx with ⟨e, hx⟩ | hx
  · have hb : (after c op).base = c.base := by simp only [hafter, onBase, hx]
    rw [hb]; exact .refl h hmoves
  · have hb : (after c op).base = c.base.extend op.configures := by simp only [hafter, onBase, hx]
    rw [hb]; exact .extend hmoves c.base

theorem base_negotiate (c : Client) : (after c .negotiate).base = c.prepared.2 := by
  have hwp := @wp_negotiate_base _ c
  show (match SeedLink.negotiate c with | .ok _ c' => c' | .error _ c' => c').base = _
  unfold wp at hwp
  split at hwp <;> rename_i heq <;> rw [heq] <;> exact hwp.base

/-- The step lemma: every call keeps the cache right, moves the streams it finds as `Moves` says and
adds the ones it configures. -/
theorem steps_after (op : Op) {c : Client} (h : c.base.CacheOk) : op.Steps c.base (after c op).base := by
  cases op with
  | addStream stationId selectors seqnum allData timestamp =>
    refine steps_onBase h (fun _ => rfl) rfl ?_
    unfold Base.addStream
    cases c.base.allStations with
    | true => exact .inl ⟨_, rfl⟩
    | false => exact .inr rfl
  | addStreamlist text d =>
    refine steps_onBase h (fun _ => rfl) rfl ?_
    unfold Base.addStreamlist
    cases c.base.allStations with
    | true => exact .inl ⟨_, rfl⟩
    | false => exact .inr rfl
  | addStreamlistFile file d =>
    refine steps_onBase h (fun _ => rfl) rfl ?_
    unfold Base.addStreamlistFile
    cases c.base.allStations with
    | true => exact .inl ⟨_, rfl⟩
    | false =>
      cases file with
      | error e => exact .inl ⟨_, rfl⟩
      | ok content => exact .inr rfl
  | setAllStations selectors seqnum allData timestamp =>
    by_cases hok : c.base.allStations = false ∧ c.base.streams = []
    · obtain ⟨hall, hnil⟩ := hok
      have hb : (after c (.setAllStations selectors seqnum allData timestamp)).base =
          { c.base with
            streams := [Base.applyRecoveredState c.base.recoveredState
              { stationId := ['*'], selectors := Base.Selectors.toList selectors, seqnum, allData,
                timestamp }],
            multistation := false, allStations := true, matchCache := ∅ } := by
        simp [after, run, onBase, Base.setAllStations, hall, hnil]
      rw [hb]
      refine ⟨Base.cacheOk_of_matchCache_eq_empty rfl, rfl, fun i s hs => ?_, fun i s hs _ => ?_⟩
      · rw [hnil] at hs; cases hs
      · obtain rfl := List.mem_singleton.1 (List.mem_of_getElem? hs)
        exact ⟨_, List.mem_singleton_self _, rfl⟩
    · refine steps_onBase h (fun _ => rfl) rfl (.inl ?_)
      unfold Base.setAllStations
      cases hall : c.base.allStations with
      | true => exact ⟨_, rfl⟩
      | false =>
        have hne : c.base.streams.isEmpty = false := by
          rw [List.isEmpty_eq_false_iff]
          exact fun hnil => hok ⟨hall, hnil⟩
        rw [hne]
        exact ⟨_, rfl⟩
  | negotiate =>
    rw [base_negotiate]
    exact steps_negotiate _ _
  | packet pkt => exact steps_packet h pkt

/-! ### All calls -/

theorem runAll_append (ops ops' : List Op) (c : Client) :
    runAll (ops ++ ops') c = runAll ops' (runAll ops c) := List.foldl_append

theorem runAll_concat (ops : List Op) (op : Op) (c : Client) :
    runAll (ops ++ [op]) c = after (runAll ops c) op := runAll_append ops [op] c

theorem cacheOk_runAll {c : Client} (h : c.base.CacheOk) (ops : List Op) :
    (runAll ops c).base.CacheOk := by
  induction ops generalizing c with
  | nil => exact h
  | cons op ops ih => exact ih (steps_after op h).cacheOk

theorem recoveredState_runAll {c : Client} (h : c.base.CacheOk) (ops : List Op) :
    (runAll ops c).base.recoveredState = c.base.recoveredState := by
  induction ops generalizing c with
  | nil => rfl
  | cons op ops ih =>
    have hop := steps_after op h
    exact (ih hop.cacheOk).trans hop.recovered

end Op

open Op

/-- In the calls `ops` from `c`, a negotiation has resolved the timestamp of stream `i` from `pkt`, and
no packet has updated it since. -/
def ResolvedSince (c : Client) (i : Nat) (s₀ : Stream) (pkt : SeedLinkPacket) (ops : List Op) : Prop :=
  ∃ before since t, ops = before ++ .negotiate :: since ∧ latest s₀ since = none ∧
    (runAll before c).base.streams[i]? = some t ∧ t.pendingPacket = some pkt ∧
      (runAll (before ++ [.negotiate]) c).base.streams[i]? = some t.resolveTimestamp

/-- Stream `i`, which was `s₀` in `c`, is `s` after the calls `ops`. -/
structure Follows (c : Client) (i : Nat) (s₀ : Stream) (ops : List Op) (s : Stream) : Prop where
  stationId : s.stationId = s₀.stationId
  unchanged : latest s₀ ops = none → s.seqnum = s₀.seqnum ∧ (s₀.pendingPacket = none → s = s₀)
  updated : ∀ pkt, latest s₀ ops = some pkt → s.seqnum = pkt.seqnum ∧
    (s.pendingPacket = some pkt ∨ ResolvedSince c i s₀ pkt ops)

section follows
variable {c : Client} {i : Nat} {s₀ s s' : Stream} {ops : List Op} {op : Op}

theorem ResolvedSince.concat {pkt : SeedLinkPacket} (h : ResolvedSince c i s₀ pkt ops)
    (hop : op.updates s₀ = none) : ResolvedSince c i s₀ pkt (ops ++ [op]) := by
  obtain ⟨before, since, t, rfl, hsince, ht⟩ := h
  refine ⟨before, since ++ [op], t, by simp, ?_, ht⟩
  rw [latest_concat, hop, hsince]
  rfl

/-- A stream that a call leaves as it is. -/
theorem Follows.concat_of_eq (h : Follows c i s₀ ops s) (hop : op.updates s₀ = none) :
    Follows c i s₀ (ops ++ [op]) s := by
  have hlatest : latest s₀ (ops ++ [op]) = latest s₀ ops := by
    rw [latest_concat, hop]; rfl
  refine ⟨h.stationId, fun hl => h.unchanged (hlatest ▸ hl), fun pkt hl => ?_⟩
  obtain ⟨hseq, hpend⟩ := h.updated pkt (hlatest ▸ hl)
  exact ⟨hseq, hpend.imp_right fun hr => hr.concat hop⟩

/-- One more call. -/
theorem Follows.concat (h : Follows c i s₀ ops s)
    (hs : (runAll ops c).base.streams[i]? = some s)
    (hs' : (runAll (ops ++ [op]) c).base.streams[i]? = some s') (hm : op.Moves s s') :
    Follows c i s₀ (ops ++ [op]) s' := by
  cases op with
  | addStream | addStreamlist | addStreamlistFile | setAllStations =>
    obtain rfl : s' = s := hm
    exact h.concat_of_eq rfl
  | packet pkt =>
    obtain rfl : s' = Base.noteArrival pkt s := hm
    unfold Base.noteArrival
    split
    · rename_i hmatch
      have hup : Op.updates s₀ (.packet pkt) = some pkt := by
        simp [Op.updates, hmatch.1, ← matchesId_congr h.stationId, hmatch.2]
      have hlatest : latest s₀ (ops ++ [.packet pkt]) = some pkt := by
        rw [latest_concat, hup]; rfl
      refine ⟨h.stationId, fun hl => by (rw [hlatest] at hl; cases hl), fun p hl => ?_⟩
      rw [hlatest] at hl
      cases hl
      exact ⟨rfl, .inl rfl⟩
    · rename_i hno
      refine h.concat_of_eq ?_
      rw [matchesId_congr h.stationId] at hno
      simpa [Op.updates] using hno
  | negotiate =>
    rcases hm with rfl | rfl
    · exact h.concat_of_eq rfl
    · have hlatest : latest s₀ (ops ++ [.negotiate]) = latest s₀ ops := by
        rw [latest_concat]; rfl
      refine ⟨resolveTimestamp_stationId.trans h.stationId, fun hl => ?_, fun pkt hl => ?_⟩
      · obtain ⟨hseq, hsame⟩ := h.unchanged (hlatest ▸ hl)
        refine ⟨resolveTimestamp_seqnum.trans hseq, fun hpend => ?_⟩
        rw [hsame hpend, resolveTimestamp_of_none hpend]
      · obtain ⟨hseq, hres⟩ := h.updated pkt (hlatest ▸ hl)
        refine ⟨resolveTimestamp_seqnum.trans hseq, .inr ?_⟩
        rcases hres with hp | hr
        · exact ⟨ops, [], s, rfl, rfl, hs, hp, hs'⟩
        · exact hr.concat rfl

/-- A stream that is there follows the packets of the calls to come. -/
theorem exists_follows (hcache : c.base.CacheOk)
    (hs₀ : c.base.streams[i]? = some s₀) (ops : List Op) :
    ∃ s, (runAll ops c).base.streams[i]? = some s ∧ Follows c i s₀ ops s := by
  induction ops using List.reverseRecOn with
  | nil => exact ⟨s₀, hs₀, rfl, fun _ => ⟨rfl, fun _ => rfl⟩, fun pkt h => by cases h⟩
  | append_singleton ops op ih =>
    obtain ⟨s, hs, hf⟩ := ih
    obtain ⟨s', hs', hm⟩ := (steps_after op (cacheOk_runAll hcache ops)).moves i s hs
    rw [← runAll_concat] at hs'
    exact ⟨s', hs', hf.concat hs hs' hm⟩

/-- Every stream of a client that began with none was configured by one of the calls, and has followed
the packets since. -/
theorem streams_follow_packets (hnil : c.base.streams = []) (hcache : c.base.matchCache = ∅)
    (hs : (runAll ops c).base.streams[i]? = some s) :
    ∃ before op after t, ops = before ++ op :: after ∧
      (runAll before c).base.streams.length ≤ i ∧ t ∈ op.configures ∧
      (Base.applyRecoveredState c.base.recoveredState t).pendingPacket = none ∧
      (runAll (before ++ [op]) c).base.streams[i]? =
        some (Base.applyRecoveredState c.base.recoveredState t) ∧
      Follows (runAll (before ++ [op]) c) i (Base.applyRecoveredState c.base.recoveredState t) after s := by
  have hok : c.base.CacheOk := Base.cacheOk_of_matchCache_eq_empty hcache
  -- the first call after which the place is taken
  have hfirst : ∀ ops s, (runAll ops c).base.streams[i]? = some s → ∃ before op after,
      ops = before ++ op :: after ∧ (runAll before c).base.streams.length ≤ i ∧
        ∃ s₀, (runAll (before ++ [op]) c).base.streams[i]? = some s₀ := by
    intro ops
    induction ops using List.reverseRecOn with
    | nil =>
      intro s hs
      rw [show runAll [] c = c from rfl, hnil] at hs
      cases hs
    | append_singleton ops op ih =>
      intro s hs
      by_cases hlen : (runAll ops c).base.streams.length ≤ i
      · exact ⟨ops, op, [], rfl, hlen, s, hs⟩
      · obtain ⟨before, op', after, rfl, h⟩ := ih _ (List.getElem?_eq_getElem (by omega))
        exact ⟨before, op', after ++ [op], by simp, h⟩
  obtain ⟨before, op, after, rfl, hlen, s₀, hs₀⟩ := hfirst ops s hs
  have hstep := steps_after op (cacheOk_runAll hok before)
  have hs₀' := hs₀
  rw [runAll_concat] at hs₀'
  obtain ⟨t, ht, rfl⟩ := hstep.adds i s₀ hs₀' hlen
  rw [recoveredState_runAll hok] at hs₀
  obtain ⟨s', hs', hf⟩ := exists_follows (cacheOk_runAll hok _) hs₀ after
  rw [← runAll_append, List.append_assoc, List.singleton_append, hs] at hs'
  cases hs'
  exact ⟨before, op, after, t, rfl, hlen, ht,
    pendingPacket_applyRecoveredState.trans (pendingPacket_of_configures ht), hs₀, hf⟩

end follows

end ops

/-- A stream is added, and a packet of its station arrives. -/
def addThenPacket : List Op :=
  [.addStream "XX_ABC".toList none (some 7) false none,
    .packet { stationId := "XX_ABC".toList, seqnum := some 8, payloadFormat := "2".toList,
              payloadSubformat := "D".toList, payload := [], record := none }]

theorem streams_follow_packets_addThenPacket :
    ∃ s, ((@Op.runAll Externals.bare addThenPacket (.listening .v4 [])).base.streams[0]? = some s) ∧
      s.seqnum = some 8 ∧ ∃ before op after t, addThenPacket = before ++ op :: after ∧
        (@Op.runAll Externals.bare before (.listening .v4 [])).base.streams.length ≤ 0 ∧
        t ∈ op.configures ∧ (Base.applyRecoveredState ∅ t).pendingPacket = none ∧
        (@Op.runAll Externals.bare (before ++ [op]) (.listening .v4 [])).base.streams[0]? =
          some (Base.applyRecoveredState ∅ t) ∧
        @Follows Externals.bare (@Op.runAll Externals.bare (before ++ [op]) (.listening .v4 [])) 0
          (Base.applyRecoveredState ∅ t) after s :=
  ⟨_, rfl, rfl, @streams_follow_packets Externals.bare (.listening .v4 []) 0 _ addThenPacket rfl rfl rfl⟩

end SeedLink
