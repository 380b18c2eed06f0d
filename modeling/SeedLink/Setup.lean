import SeedLink.MatchCache
import SeedLink.StateFile

/-!
# The modes of a selection

A selection is uni-station or multi-station, and may be for all stations. `Base.Modes` ties the two
flags to the stream list; every call keeps it, whether it raises or not, so that planning never finds
the wrong number of streams for uni-station mode (`modes_runAll`). The default stream of a selection
without streams is sent like that of `set_all_stations`, unless an empty stream list has switched to
multi-station mode (`defaultPlan_iff`).
-/

namespace SeedLink

open StateExc

/-- The calls that touch a selection. -/
inductive Call
  | op (op : Op)
  | recoverState (file : Except Exn Text)
  | saveState (faults : Faults)
  | setTimewindow (start : Base.TimeArg) (stop : Option Base.TimeArg)

/-- The calls that add streams. -/
def Op.IsSetup : Op → Prop
  | negotiate | packet _ => False
  | _ => True

def Call.IsSetup : Call → Prop
  | op o => o.IsSetup
  | recoverState _ => True
  | _ => False

/-- The call adds its streams; otherwise it raises. -/
def Op.Accepted (b : Base) : Op → Prop
  | setAllStations .. => b.allStations = false ∧ b.streams = []
  | addStreamlistFile (.error _) _ => False
  | _ => b.allStations = false

/-- The selection with the streams of the call. -/
def Op.added (b : Base) (o : Op) : Base :=
  match o with
  | setAllStations .. =>
    { b with streams := o.configures.map (Base.applyRecoveredState b.recoveredState),
             multistation := false, allStations := true, matchCache := ∅ }
  | _ => b.extend o.configures

theorem Op.streams_added {b : Base} {o : Op} (ho : o.IsSetup) (hacc : o.Accepted b) :
    (o.added b).streams = b.streams ++ o.configures.map (Base.applyRecoveredState b.recoveredState) := by
  cases o with
  | negotiate => exact ho.elim
  | packet pkt => exact ho.elim
  | setAllStations selectors seqnum allData timestamp => rw [hacc.2]; rfl
  | _ => rfl

/-! ### The modes -/

/-- The flags and the stream list agree. -/
structure Base.Modes (b : Base) : Prop where
  all : b.allStations = true →
    ∃ s, b.streams = [s] ∧ s.stationId = ['*'] ∧ b.multistation = false
  single : b.multistation = false → b.streams.length ≤ 1

namespace Base.Modes
variable {b : Base}

theorem fresh : ({} : Base).Modes := ⟨by simp, by simp⟩

/-- Only the station IDs and the flags count. -/
theorem congr {b' : Base} (h : b.Modes)
    (hids : b'.streams.map (·.stationId) = b.streams.map (·.stationId))
    (hmulti : b'.multistation = b.multistation) (hall : b'.allStations = b.allStations) : b'.Modes := by
  have hlen : b'.streams.length = b.streams.length := by simpa using congrArg List.length hids
  refine ⟨fun h' => ?_, fun h' => by rw [hlen]; exact h.single (hmulti ▸ h')⟩
  obtain ⟨s, hs, hid, hm⟩ := h.all (hall ▸ h')
  rw [hs, List.map_singleton, hid] at hids
  obtain ⟨s', hs', hid'⟩ := List.map_eq_singleton_iff.1 hids
  exact ⟨s', hs', hid', hmulti.trans hm⟩

/-- The default stream is the only one of its list. -/
theorem ensureDefaultStream (h : b.Modes) : b.ensureDefaultStream.Modes := by
  unfold Base.ensureDefaultStream
  split
  · rename_i hnil
    refine ⟨fun hall => ?_, fun _ => Nat.le_refl _⟩
    obtain ⟨s, hs, -⟩ := h.all hall
    rw [hs] at hnil
    cases hnil
  · exact h

theorem added {o : Op} (ho : o.IsSetup) (hacc : o.Accepted b) : (o.added b).Modes := by
  have hextend : b.allStations = false → (b.extend o.configures).Modes := by
    intro hall
    refine ⟨fun h => ?_, nofun⟩
    have h' : b.allStations = true := h
    rw [hall] at h'
    cases h'
  cases o with
  | negotiate => exact ho.elim
  | packet pkt => exact ho.elim
  | setAllStations selectors seqnum allData timestamp =>
    refine ⟨fun _ => ⟨_, rfl, ?_, rfl⟩, fun _ => Nat.le_refl _⟩
    unfold applyRecoveredState
    split <;> rfl
  | addStreamlistFile file d =>
    cases file with
    | error e => exact hacc.elim
    | ok content => exact hextend hacc
  | addStream | addStreamlist => exact hextend hacc

end Base.Modes

/-! ### Times -/

/-- A time that has no place in a v3 command. -/
def Unwritable (time : Option DateTime) : Prop := ∃ dt e, time = some dt ∧ toCommaTimestring dt = .error e

theorem unwritable_iff {time : Option DateTime} :
    Unwritable time ↔ ∃ e, time.mapM toCommaTimestring = .error e := by
  constructor
  · rintro ⟨dt, e, rfl, h⟩
    exact ⟨e, by show (toCommaTimestring dt >>= _) = _; rw [h]; rfl⟩
  · rintro ⟨e, h⟩
    cases time with
    | none => cases h
    | some dt =>
      rcases exists_of_bind_error h with h | ⟨w, -, h⟩
      · exact ⟨dt, e, rfl, h⟩
      · cases h

/-! ### Runs of calls -/

/-- What `set_all_stations()` without arguments does. -/
def allStationsCall : Call := .op (.setAllStations none none false none)

section calls
variable [Externals]

namespace Call

def run : Call → ClientM Unit
  | op o => o.run
  | recoverState file => onBase (Base.recoverState file)
  | saveState faults => onBase (discard (Base.saveState faults))
  | setTimewindow start stop => onBase (Base.setTimewindow start stop)

/-- The client after the call, which may have failed. -/
def after (c : Client) (call : Call) : Client :=
  match call.run c with
  | .ok _ c' => c'
  | .error _ c' => c'

def runAll (calls : List Call) (c : Client) : Client := calls.foldl after c

variable {c : Client} {call : Call}

theorem runAll_append (calls calls' : List Call) (c : Client) :
    runAll (calls ++ calls') c = runAll calls' (runAll calls c) := List.foldl_append

theorem runAll_concat (calls : List Call) (call : Call) (c : Client) :
    runAll (calls ++ [call]) c = after (runAll calls c) call := runAll_append calls [call] c

/-- What holds of a fresh selection and is kept by every call holds after every run. -/
theorem runAll_induct {P : Base → Prop} (hstep : ∀ c call, P c.base → P (after c call).base)
    (h : P c.base) (calls : List Call) : P (runAll calls c).base := by
  induction calls using List.reverseRecOn with
  | nil => exact h
  | append_singleton calls call ih =>
    rw [runAll_concat]
    exact hstep _ call ih

end Call

open Call

/-! ### What one call does -/

variable {c : Client} {b : Base} {o : Op}

theorem run_setup (hs : o.IsSetup) (c : Client) :
    (o.Accepted c.base ∧ o.run c = .ok ⟨⟩ { c with base := o.added c.base }) ∨
      (¬ o.Accepted c.base ∧ ∃ e, o.run c = .error (.raised e) c) := by
  have hraise : ∀ {x : BaseM Unit} {e : Exn}, x c.base = .error e c.base →
      onBase x c = .error (.raised e) c := by
    intro x e hx
    simp only [onBase, hx]
  have hadd : ∀ {x : BaseM Unit}, x c.base = .ok ⟨⟩ (o.added c.base) →
      onBase x c = .ok ⟨⟩ { c with base := o.added c.base } := by
    intro x hx
    simp only [onBase, hx]
  cases o with
  | negotiate => exact hs.elim
  | packet pkt => exact hs.elim
  | setAllStations selectors seqnum allData timestamp =>
    by_cases hok : c.base.allStations = false ∧ c.base.streams = []
    · exact .inl ⟨hok, hadd (by simp [Base.setAllStations, hok.1, hok.2, Op.added, Op.configures])⟩
    · refine .inr ⟨hok, ?_⟩
      by_cases hall : c.base.allStations = true
      · exact ⟨_, hraise (by rw [Base.setAllStations, if_pos hall])⟩
      · have hne : c.base.streams ≠ [] := fun hnil => hok ⟨by simpa using hall, hnil⟩
        exact ⟨_, hraise (by rw [Base.setAllStations, if_neg hall, if_pos (by simpa using hne)])⟩
  | addStreamlistFile file d =>
    cases file with
    | error e =>
      refine .inr ⟨id, ?_⟩
      by_cases hall : c.base.allStations = true
      · exact ⟨_, hraise (by rw [Base.addStreamlistFile, if_pos hall])⟩
      · exact ⟨_, hraise (by rw [Base.addStreamlistFile, if_neg hall])⟩
    | ok content =>
      by_cases hall : c.base.allStations = true
      · exact .inr ⟨by simp [Op.Accepted, hall], _, hraise (by rw [Base.addStreamlistFile, if_pos hall])⟩
      · exact .inl ⟨by simpa [Op.Accepted] using hall,
          hadd (by rw [Base.addStreamlistFile, if_neg hall]; rfl)⟩
  | addStreamlist text d =>
    by_cases hall : c.base.allStations = true
    · exact .inr ⟨by simp [Op.Accepted, hall], _, hraise (by rw [Base.addStreamlist, if_pos hall])⟩
    · exact .inl ⟨by simpa [Op.Accepted] using hall,
        hadd (by rw [Base.addStreamlist, if_neg hall]; rfl)⟩
  | addStream stationId selectors seqnum allData timestamp =>
    by_cases hall : c.base.allStations = true
    · exact .inr ⟨by simp [Op.Accepted, hall], _, hraise (by rw [Base.addStream, if_pos hall])⟩
    · exact .inl ⟨by simpa [Op.Accepted] using hall,
        hadd (by rw [Base.addStream, if_neg hall]; rfl)⟩

theorem base_setup (hs : o.IsSetup) (c : Client) :
    (o.Accepted c.base ∧ (Call.after c (.op o)).base = o.added c.base) ∨
      (¬ o.Accepted c.base ∧ Call.after c (.op o) = c) := by
  rcases run_setup hs c with ⟨hacc, hrun⟩ | ⟨hno, e, hrun⟩
  · exact .inl ⟨hacc, by simp only [Call.after, Call.run, hrun]⟩
  · exact .inr ⟨hno, by simp only [Call.after, Call.run, hrun]⟩

/-- The other calls leave the flags alone and move the streams as they find them. -/
theorem base_recover (file : Except Exn Text) (c : Client) :
    (∃ e, file = .error e ∧ (Call.run (.recoverState file) c) = .error (.raised e) c) ∨
    ∃ content, file = .ok content ∧ (Call.after c (.recoverState file)).base =
      { c.base with
        streams := c.base.streams.map (Base.applyRecoveredState (loadState content ∪ c.base.recoveredState)),
        recoveredState := loadState content ∪ c.base.recoveredState } := by
  cases file with
  | error e => exact .inl ⟨e, rfl, rfl⟩
  | ok content => exact .inr ⟨content, rfl, rfl⟩

/-- A call on the selection state leaves what it computes there, also when it raises. -/
theorem base_of_onBase {call : Call} {x : BaseM Unit} (hrun : call.run c = onBase x c)
    (hx : (∃ a, x c.base = .ok a b) ∨ ∃ e, x c.base = .error e b) : (Call.after c call).base = b := by
  unfold Call.after
  rw [hrun]
  rcases hx with ⟨a, hx⟩ | ⟨e, hx⟩ <;> simp only [onBase, hx]

theorem base_save (faults : Faults) (c : Client) : (Call.after c (.saveState faults)).base =
    { c.base with streams := (saveState faults c.base.streams).2 } := by
  refine @base_of_onBase _ c _ (.saveState faults) (discard (Base.saveState faults)) rfl ?_
  show (∃ a, EStateM.map _ (Base.saveState faults) c.base = _) ∨ ∃ e, EStateM.map _ (Base.saveState faults) c.base = _
  unfold EStateM.map Base.saveState
  simp only
  cases (saveState faults c.base.streams).1 with
  | ok text => exact .inl ⟨_, rfl⟩
  | error e => exact .inr ⟨_, rfl⟩

theorem base_window (start : Base.TimeArg) (stop : Option Base.TimeArg) (c : Client) :
    ∃ startTime endTime, (Call.after c (.setTimewindow start stop)).base =
      { c.base with startTime, endTime } := by
  suffices h : ∃ startTime endTime,
      (∃ a, Base.setTimewindow start stop c.base = .ok a { c.base with startTime, endTime }) ∨
        ∃ e, Base.setTimewindow start stop c.base = .error e { c.base with startTime, endTime } by
    obtain ⟨startTime, endTime, hx⟩ := h
    exact ⟨startTime, endTime, base_of_onBase rfl hx⟩
  unfold Base.setTimewindow
  cases start.resolve with
  | error e => exact ⟨_, _, .inr ⟨_, rfl⟩⟩
  | ok dt =>
    simp only
    cases stop.map Base.TimeArg.resolve with
    | none => exact ⟨_, _, .inl ⟨_, rfl⟩⟩
    | some res =>
      cases res with
      | ok dt' => exact ⟨_, _, .inl ⟨_, rfl⟩⟩
      | error e => exact ⟨_, _, .inr ⟨_, rfl⟩⟩

/-! ### Every call keeps the modes -/

namespace Base.Modes

theorem prepareNegotiation {args : NegotiationArgs} (h : b.Modes) : (b.prepareNegotiation args).2.Modes := by
  have hflags : b.ensureDefaultStream.multistation = b.multistation ∧
      b.ensureDefaultStream.allStations = b.allStations := by
    unfold Base.ensureDefaultStream
    split <;> exact ⟨rfl, rfl⟩
  refine h.ensureDefaultStream.congr (Resolves.stationIds resolves_prepareNegotiation) ?_ ?_
  · rw [prepareNegotiation_rest, hflags.1]
  · rw [prepareNegotiation_rest, hflags.2]

/-- The step lemma. -/
theorem after (h : c.base.Modes) (call : Call) : (Call.after c call).base.Modes := by
  have hids : ∀ {f : Stream → Stream}, (∀ s, (f s).stationId = s.stationId) →
      (c.base.streams.map f).map (·.stationId) = c.base.streams.map (·.stationId) := by
    intro f hf
    rw [List.map_map]
    exact List.map_congr_left fun s _ => hf s
  cases call with
  | recoverState file =>
    rcases base_recover file c with ⟨e, -, hrun⟩ | ⟨content, -, hb⟩
    · simpa only [Call.after, hrun] using h
    · rw [hb]
      refine h.congr (hids fun s => ?_) rfl rfl
      unfold applyRecoveredState
      split <;> rfl
  | saveState faults =>
    rw [base_save]
    exact h.congr (Resolves.stationIds (resolves_saveState _)) rfl rfl
  | setTimewindow start stop =>
    obtain ⟨startTime, endTime, hb⟩ := base_window start stop c
    rw [hb]
    exact h.congr rfl rfl rfl
  | op o =>
    by_cases ho : o.IsSetup
    · rcases base_setup ho c with ⟨hacc, hb⟩ | ⟨-, hb⟩
      · rw [hb]; exact added ho hacc
      · rw [hb]; exact h
    · cases o with
      | negotiate =>
        have hb : (Call.after c (.op .negotiate)).base = c.prepared.2 := Op.base_negotiate c
        rw [hb]
        exact h.prepareNegotiation
      | packet pkt =>
        refine h.congr (stationIds_updateStreamState pkt) ?_ ?_
        · exact (congrArg Base.multistation (updateStreamState_rest pkt) :)
        · exact (congrArg Base.allStations (updateStreamState_rest pkt) :)
      | _ => exact absurd trivial ho

end Base.Modes

/-- What planning a negotiation refuses uni-station mode with. -/
def uniStationError : Exn := seedLinkError "v3 uni-station mode requires exactly one stream"

theorem Base.Modes.prepared_ne (h : c.base.Modes) : c.prepared.1 ≠ .error uniStationError := by
  intro herr
  have hprep : c.prepared.1 = (planNegotiation c.negotiationArgs
      (({ c.base with matchCache := ∅ } : Base).ensureDefaultStream.sendOrder.map (·.1))).1 := rfl
  rw [hprep] at herr
  rcases planNegotiation_error herr with hno | ⟨-, hmulti, hlen⟩
  · cases hno.1
  · refine hlen ?_
    have hle := h.single hmulti
    rw [List.length_map, Base.sendOrder, (perm_sortByStation _ _).length_eq, List.length_zipIdx,
      Base.ensureDefaultStream_streams]
    split
    · rfl
    · rename_i hne
      have hpos : 0 < c.base.streams.length := List.length_pos_iff.2 hne
      exact Nat.le_antisymm hle hpos

/-- From a fresh selection, in any order and whether the calls raise or not, the flags and the stream
list agree, a setup call that raises changes nothing, and planning finds a stream for uni-station
mode. -/
theorem modes_runAll (hfresh : c.base = {}) (calls : List Call) :
    (runAll calls c).base.Modes ∧
      (∀ (call : Call) e c', call.IsSetup → call.run (runAll calls c) = .error e c' →
        c'.base.streams = (runAll calls c).base.streams ∧
        c'.base.multistation = (runAll calls c).base.multistation ∧
        c'.base.allStations = (runAll calls c).base.allStations ∧
        c'.base.matchCache = (runAll calls c).base.matchCache) ∧
      (runAll calls c).prepared.1 ≠ .error uniStationError := by
  have hmodes : (runAll calls c).base.Modes :=
    runAll_induct (fun c call h => Base.Modes.after h call) (hfresh ▸ Base.Modes.fresh) calls
  refine ⟨hmodes, fun call e c' hs hrun => ?_, hmodes.prepared_ne⟩
  have hsame : c' = runAll calls c := by
    cases call with
    | op o =>
      rcases run_setup hs (runAll calls c) with ⟨-, hok⟩ | ⟨-, e', herr⟩
      · rw [show (Call.op o).run (runAll calls c) = _ from hok] at hrun
        cases hrun
      · rw [show (Call.op o).run (runAll calls c) = _ from herr] at hrun
        cases hrun
        rfl
    | recoverState file =>
      rcases base_recover file (runAll calls c) with ⟨e', -, herr⟩ | ⟨content, rfl, -⟩
      · rw [herr] at hrun
        cases hrun
        rfl
      · cases hrun
    | saveState faults => exact hs.elim
    | setTimewindow start stop => exact hs.elim
  rw [hsame]
  exact ⟨rfl, rfl, rfl, rfl⟩

end calls

open Call

/-- A stream list without entries, then a negotiation and an all-stations selection that comes too
late. -/
def emptyListThenAll : List Call :=
  [.op (.addStreamlist [] none), .op .negotiate, allStationsCall]

theorem modes_runAll_emptyListThenAll :
    let c := @runAll Externals.bare emptyListThenAll (.listening .v3 [])
    c.base.multistation = true ∧ c.base.streams.length = 1 ∧ c.base.Modes ∧
      (∀ (call : Call) e c', call.IsSetup → @Call.run Externals.bare call c = .error e c' →
        c'.base.streams = c.base.streams ∧ c'.base.multistation = c.base.multistation ∧
        c'.base.allStations = c.base.allStations ∧ c'.base.matchCache = c.base.matchCache) ∧
      (@Client.prepared Externals.bare c).1 ≠ .error uniStationError :=
  ⟨by decide +kernel, by decide +kernel, @modes_runAll Externals.bare (.listening .v3 []) rfl emptyListThenAll⟩

/-! ### The default stream -/

section default
variable [Externals] {c : Client} {b : Base}

/-- A stream whose timestamp stops the planning of its v3 resume command. -/
def Stream.Unresumable (s : Stream) : Prop :=
  s.seqnum.isSome = true ∧ ∃ t e, s.timestamp = some t ∧ t ≠ [] ∧
    (parseTimestring t >>= toCommaTimestring) = .error e ∧ e.isValueError = false

/-- The stream that stands in when there is none. -/
def Base.defaultStream (b : Base) : Stream := applyRecoveredState b.recoveredState { stationId := ['*'] }

/-- Planning for the default stream raises, in v3. -/
def Base.Unplannable (b : Base) : Prop :=
  Unwritable b.startTime ∨ Unwritable b.endTime ∨ (b.startTime = none ∧ b.defaultStream.Unresumable)

variable {args : NegotiationArgs} {s : Stream}

theorem planned_of_nil (hnil : c.base.streams = []) :
    c.prepared.1 = (planNegotiation c.negotiationArgs [c.base.defaultStream]).1 := by
  have hens : ({ c.base with matchCache := ∅ } : Base).ensureDefaultStream.streams =
      [c.base.defaultStream] := by
    rw [Base.ensureDefaultStream_streams, if_pos hnil]
    rfl
  show (planNegotiation _ (Base.sendOrder _ |>.map (·.1))).1 = _
  rw [Base.sendOrder_singleton hens]

theorem planned_allStations (hnil : c.base.streams = []) (hall : c.base.allStations = false) :
    (after c allStationsCall).prepared.1 =
      (planNegotiation { c.negotiationArgs with multistation := false } [c.base.defaultStream]).1 := by
  have hrun : after c allStationsCall =
      { c with base := { c.base with streams := [c.base.defaultStream], multistation := false,
                                     allStations := true, matchCache := ∅ } } := by
    simp [after, allStationsCall, Call.run, Op.run, onBase, Base.setAllStations, hall, hnil,
      Base.defaultStream, Base.Selectors.toList]
  rw [hrun]
  show (planNegotiation _ (Base.sendOrder _ |>.map (·.1))).1 = _
  rw [@Base.sendOrder_singleton _ c.base.defaultStream]
  · rfl
  · rw [Base.ensureDefaultStream_streams, if_neg (List.cons_ne_nil _ _)]

theorem requestV3_eq_error {startStr endStr : Option Text} {r : Bool} {e : Exn} :
    (requestV3 args startStr endStr r s).1 = .error e ↔
      startStr = none ∧ (resumeTimestamp args (args.resumeSeqnum s) s).1 = .error e := by
  unfold requestV3
  cases startStr with
  | some start => simp
  | none =>
    simp only [true_and]
    split <;> rename_i heq
    · rw [heq]; simp
    · rw [heq]; simp

/-- Asking for a timestamp raises when it overflows. -/
theorem resumeTimestamp_eq_error (hpend : s.pendingPacket = none) (hresume : args.resume = true)
    (hlast : args.lastpkttime = true) {e : Exn} :
    (resumeTimestamp args (args.resumeSeqnum s) s).1 = .error e ↔ s.seqnum.isSome = true ∧
      ∃ t, s.timestamp = some t ∧ t ≠ [] ∧ (parseTimestring t >>= toCommaTimestring) = .error e ∧
        e.isValueError = false := by
  have hseq : (args.resumeSeqnum s).isSome = s.seqnum.isSome := by
    simp [NegotiationArgs.resumeSeqnum, hresume]
  unfold resumeTimestamp
  simp only [hlast, hseq, Bool.true_and, resolveTimestamp_of_none hpend]
  cases s.seqnum.isSome with
  | false => simp
  | true =>
    rcases hts : s.timestamp with _ | t
    · simp [truthy]
    by_cases hnil : t = []
    · simp [truthy, hnil]
    have htrue : truthy (some t) = true := by simpa [truthy] using hnil
    simp only [htrue, if_true, Option.getD_some, Option.some.injEq, true_and, exists_eq_left']
    cases hp : parseTimestring t >>= toCommaTimestring with
    | ok w => simp
    | error e' =>
      cases hv : e'.isValueError with
      | true =>
        simp only [hv, if_true, reduceCtorEq, false_iff, Except.error.injEq]
        rintro ⟨-, rfl, hv'⟩
        rw [hv] at hv'
        cases hv'
      | false =>
        simp only [hv, Bool.false_eq_true, if_false, Except.error.injEq]
        constructor
        · rintro rfl
          exact ⟨hnil, rfl, hv⟩
        · exact fun h => h.2.1

/-- The v3 plan for one stream without selectors. -/
theorem planNegotiationV3_singleton (startStr endStr : Option Text) (hsel : s.selectors = []) :
    (planNegotiationV3 args startStr endStr [s]).1 =
      if args.multistation then (requestV3 args startStr endStr (!args.batchActive) s).1.map fun data =>
        [Commands.stationV3 s.stationId (!args.batchActive), data, Commands.endV3]
      else (requestV3 args startStr endStr false s).1.map fun data => [data] := by
  have hselects : selectsV3 args s = [] := by rw [selectsV3, hsel]; rfl
  unfold planNegotiationV3
  split
  · unfold planStreams planStreamV3
    simp only [hselects]
    cases (requestV3 args startStr endStr (!args.batchActive) s).1 <;> rfl
  · simp only [hselects]
    cases (requestV3 args startStr endStr false s).1 <;> rfl

/-- In v3 that plan is another one in multi-station mode, if there is one at all. -/
theorem planNegotiation_uniStation_iff (hv3 : args.protocol ≠ some .v4) (hmulti : args.multistation = true)
    (hsel : s.selectors = []) :
    (planNegotiation args [s]).1 = (planNegotiation { args with multistation := false } [s]).1 ↔
      ∃ e, (planNegotiation args [s]).1 = .error e := by
  unfold planNegotiation
  simp only
  cases hs : args.startTime.mapM toCommaTimestring with
  | error e => simp
  | ok startStr =>
  cases he : args.endTime.mapM toCommaTimestring with
  | error e => simp
  | ok endStr =>
  simp only [if_neg hv3]
  rw [planNegotiationV3_singleton _ _ hsel, planNegotiationV3_singleton _ _ hsel, if_pos hmulti,
    if_neg Bool.false_ne_true]
  have herr : ∀ e, (requestV3 args startStr endStr (!args.batchActive) s).1 = .error e ↔
      (requestV3 { args with multistation := false } startStr endStr false s).1 = .error e := fun e => by
    rw [requestV3_eq_error, requestV3_eq_error]
    exact Iff.rfl
  cases hreq : (requestV3 args startStr endStr (!args.batchActive) s).1 with
  | error e =>
    rw [(herr e).1 hreq]
    exact ⟨fun _ => ⟨e, rfl⟩, fun _ => rfl⟩
  | ok data =>
    refine ⟨fun h => ?_, fun ⟨e, h⟩ => by cases h⟩
    cases hreq' : (requestV3 { args with multistation := false } startStr endStr false s).1 with
    | error e => rw [hreq'] at h; cases h
    | ok data' => rw [hreq'] at h; cases h

/-- What stops the planning for one stream without selectors in v3. -/
theorem planNegotiation_stops_iff (hv3 : args.protocol ≠ some .v4) (hsel : s.selectors = [])
    (hpend : s.pendingPacket = none) (hresume : args.resume = true) (hlast : args.lastpkttime = true) :
    (∃ e, (planNegotiation args [s]).1 = .error e) ↔ Unwritable args.startTime ∨ Unwritable args.endTime ∨
      (args.startTime = none ∧ s.Unresumable) := by
  unfold planNegotiation
  rw [unwritable_iff, unwritable_iff]
  cases hs : args.startTime.mapM toCommaTimestring with
  | error e => simp
  | ok startStr =>
  cases he : args.endTime.mapM toCommaTimestring with
  | error e => simp
  | ok endStr =>
  have hstart : args.startTime = none ↔ startStr = none := by
    cases htime : args.startTime with
    | none => rw [htime] at hs; cases hs; simp
    | some dt =>
      rw [htime] at hs
      cases hw : toCommaTimestring dt with
      | error e =>
        have hs' : (toCommaTimestring dt >>= fun w => pure (some w)) = .ok startStr := hs
        rw [hw] at hs'
        cases hs'
      | ok w =>
        have hs' : (toCommaTimestring dt >>= fun w => pure (some w)) = .ok startStr := hs
        rw [hw] at hs'
        cases hs'
        simp
  have hmap : ∀ {x : Except Exn Command} {f : Command → List Command},
      (∃ e, x.map f = .error e) ↔ ∃ e, x = .error e :=
    ⟨fun ⟨e, h⟩ => ⟨e, error_of_map h⟩, fun ⟨e, h⟩ => ⟨e, by rw [h]; rfl⟩⟩
  have hreq : ∀ r, (∃ e, (requestV3 args startStr endStr r s).1 = .error e) ↔
      startStr = none ∧ s.Unresumable := by
    intro r
    simp only [requestV3_eq_error, resumeTimestamp_eq_error hpend hresume hlast, Stream.Unresumable]
    constructor
    · rintro ⟨e, hnone, hseq, t, ht⟩
      exact ⟨hnone, hseq, t, e, ht⟩
    · rintro ⟨hnone, hseq, t, e, ht⟩
      exact ⟨e, hnone, hseq, t, ht⟩
  simp only [if_neg hv3, reduceCtorEq, exists_false, false_or, hstart]
  rw [planNegotiationV3_singleton _ _ hsel]
  split
  · rw [hmap, hreq]
  · rw [hmap, hreq]

/-- Without streams, a negotiation sends what it would send after `set_all_stations()` unless it is in
v3 and in multi-station mode and its planning goes through. -/
theorem defaultPlan_iff (hfresh : c.base = {}) {calls : List Call}
    (hnil : (runAll calls c).base.streams = []) :
    (runAll calls c).prepared.1 = (after (runAll calls c) allStationsCall).prepared.1 ↔
      (runAll calls c).protocol = some .v4 ∨ (runAll calls c).base.multistation = false ∨
        (runAll calls c).base.Unplannable := by
  have hmodes := (modes_runAll hfresh calls).1
  generalize runAll calls c = c at hnil hmodes
  have hall : c.base.allStations = false := by
    by_contra hall
    obtain ⟨s, hs, -⟩ := hmodes.all (by simpa using hall)
    rw [hnil] at hs
    cases hs
  obtain ⟨hsel, hpend⟩ : c.base.defaultStream.selectors = [] ∧ c.base.defaultStream.pendingPacket = none := by
    unfold Base.defaultStream Base.applyRecoveredState
    split <;> exact ⟨rfl, rfl⟩
  rw [planned_of_nil hnil, planned_allStations hnil hall]
  by_cases hv4 : c.protocol = some .v4
  · have heq : ∀ args : NegotiationArgs, args.protocol = some .v4 → (planNegotiation args [c.base.defaultStream]).1 =
        (planNegotiation { args with multistation := false } [c.base.defaultStream]).1 := by
      intro args hargs
      unfold planNegotiation
      simp only [if_pos hargs]
      rfl
    simp only [heq c.negotiationArgs hv4, hv4, true_or]
  by_cases hmulti : c.base.multistation = false
  · have hargs : ({ c.negotiationArgs with multistation := false } : NegotiationArgs) = c.negotiationArgs := by
      unfold Client.negotiationArgs
      rw [hmulti]
    simp only [hargs, hmulti, true_or, or_true]
  have hmulti' : c.base.multistation = true := by simpa using hmulti
  rw [planNegotiation_uniStation_iff hv4 hmulti' hsel]
  rw [planNegotiation_stops_iff hv4 hsel hpend rfl rfl, or_iff_right hv4, or_iff_right hmulti]
  exact Iff.rfl

end default

/-- A client to which a stream list without entries has been added. -/
def afterEmptyList (p : Protocol) : Client :=
  @runAll Externals.bare [.op (.addStreamlist [] none)] (.listening p [])

/-- The texts of a plan. -/
def planTexts (plan : Except Exn (List Command)) : Option (List Text) :=
  plan.toOption.map (·.map (·.text))

/-- In v3 the server is sent a station without a name. -/
theorem defaultPlan_differs_emptyList :
    (afterEmptyList .v3).base.streams = [] ∧
    planTexts (@Client.prepared Externals.bare (afterEmptyList .v3)).1 =
      some ["STATION  *".toList, "DATA".toList, "END".toList] ∧
    planTexts (@Client.prepared Externals.bare (@after Externals.bare (afterEmptyList .v3) allStationsCall)).1 =
      some ["DATA".toList] ∧
    (@Client.prepared Externals.bare (afterEmptyList .v3)).1 ≠
      (@Client.prepared Externals.bare (@after Externals.bare (afterEmptyList .v3) allStationsCall)).1 := by
  have hsent : planTexts (@Client.prepared Externals.bare (afterEmptyList .v3)).1 =
      some ["STATION  *".toList, "DATA".toList, "END".toList] := rfl
  have hall : planTexts (@Client.prepared Externals.bare (@after Externals.bare (afterEmptyList .v3)
      allStationsCall)).1 = some ["DATA".toList] := rfl
  refine ⟨rfl, hsent, hall, fun h => ?_⟩
  rw [h, hall] at hsent
  cases hsent

theorem defaultPlan_iff_emptyList :
    (@Client.prepared Externals.bare (afterEmptyList .v4)).1 =
      (@Client.prepared Externals.bare (@after Externals.bare (afterEmptyList .v4) allStationsCall)).1 ↔
        (afterEmptyList .v4).protocol = some .v4 ∨ (afterEmptyList .v4).base.multistation = false ∨
          @Base.Unplannable Externals.bare (afterEmptyList .v4).base :=
  @defaultPlan_iff Externals.bare (.listening .v4 []) rfl [.op (.addStreamlist [] none)] rfl

end SeedLink
