import SeedLink.Instants
import SeedLink.Resume
import SeedLink.Setup

/-!
# What a plan asks of the streams

The documented order of what a stream is asked for: a time window before all data, all data before the
position to resume from (`wanted`). The requests of a plan follow it but for one case: with a position to
resume from, a v4 stream that wants all data is asked for what follows the position (`documented_iff`).

A saved timestamp changes one word of one request, unless it overflows on its way to the wire, which nothing
catches (`onlyTimestamp_iff`).
-/

namespace SeedLink

open Commands

/-! ### The documented order -/

/-- What a stream is asked for. -/
inductive Wanted
  | window (start : DateTime) (stop : Option DateTime)
  | all
  | after (n : Int)
  | next

/-- All data is known to v4 alone. -/
def wanted (args : NegotiationArgs) (s : Stream) : Wanted :=
  match args.startTime with
  | some start => .window start args.endTime
  | none =>
    if args.protocol = some .v4 ∧ s.allData = true then .all
    else
      match s.seqnum with
      | some n => if args.resume then .after n else .next
      | none => .next

/-- The words of v4. -/
inductive TextV4 : Wanted → Text → Prop
  | window {start : DateTime} {startWord : Text} (h : toIsoTimestring start = .ok startWord) :
      TextV4 (.window start none) ("DATA ALL ".toList ++ startWord)
  | windowEnd {start stop : DateTime} {startWord stopWord : Text} (h : toIsoTimestring start = .ok startWord)
      (h' : toIsoTimestring stop = .ok stopWord) :
      TextV4 (.window start (some stop)) ("DATA ALL ".toList ++ startWord ++ ' ' :: stopWord)
  | all : TextV4 .all "DATA ALL".toList
  | after (n : Int) : TextV4 (.after n) ("DATA ".toList ++ Text.intNumeral 10 (n + 1))
  | next : TextV4 .next "DATA".toList

/-- The words of v3, with the saved time if there is one. -/
inductive TextV3 (cmdName : Text) (savedTime : Option Text) : Wanted → Text → Prop
  | window {start : DateTime} {startWord : Text} (h : toCommaTimestring start = .ok startWord) :
      TextV3 cmdName savedTime (.window start none) ("TIME ".toList ++ startWord)
  | windowEnd {start stop : DateTime} {startWord stopWord : Text} (h : toCommaTimestring start = .ok startWord)
      (h' : toCommaTimestring stop = .ok stopWord) :
      TextV3 cmdName savedTime (.window start (some stop)) ("TIME ".toList ++ startWord ++ ' ' :: stopWord)
  | after (n : Int) (h : savedTime = none) :
      TextV3 cmdName savedTime (.after n) (cmdName ++ ' ' :: Text.intNumeral 16 (n + 1))
  | afterTime (n : Int) {time : Text} (h : savedTime = some time) :
      TextV3 cmdName savedTime (.after n) (cmdName ++ ' ' :: Text.intNumeral 16 (n + 1) ++ ' ' :: time)
  | next : TextV3 cmdName savedTime .next cmdName

/-- A position, not everything, is asked for. -/
def PositionBeforeAll (args : NegotiationArgs) (s : Stream) : Prop :=
  args.protocol = some .v4 ∧ args.startTime = none ∧ args.resume = true ∧ s.allData = true ∧ s.seqnum.isSome = true

/-- No decimal numeral is a word of letters. -/
theorem intNumeral_ne_all (n : Int) : Text.intNumeral 10 n ≠ "ALL".toList := by
  have hdigit : ∀ m, 'A' ∉ Text.numeral 10 m := by
    intro m hm
    obtain ⟨d, hd, heq⟩ := Text.exists_digit_of_mem_numeral (by decide) hm
    have : 10 = d := Text.digitChar_inj (by decide) (by omega) heq
    omega
  intro h
  have hmem : 'A' ∈ Text.intNumeral 10 n := by
    rw [h]
    exact List.mem_cons_self
  cases n with
  | ofNat n => exact hdigit n hmem
  | negSucc n =>
    rcases List.mem_cons.1 hmem with hmem | hmem
    · cases hmem
    · exact hdigit _ hmem

theorem toCommaTimestring_ne_nil {dt : DateTime} {w : Text} (h : toCommaTimestring dt = .ok w) : w ≠ [] := by
  obtain ⟨dt', -, h⟩ := exists_of_bind_ok h
  cases h
  simp [List.intercalate]

theorem truthy_some {w : Text} (h : w ≠ []) : truthy (some w) = true := by
  simpa [truthy] using h

theorem resumeSeqnum_eq_some {args : NegotiationArgs} {s : Stream} {m : Int} (h : args.resumeSeqnum s = some m) :
    args.resume = true ∧ ∃ n, s.seqnum = some n ∧ n + 1 = m := by
  unfold NegotiationArgs.resumeSeqnum at h
  split at h
  · rename_i hresume
    exact ⟨hresume, Option.map_eq_some_iff.1 h⟩
  · cases h

section v4
variable {args : NegotiationArgs} {s : Stream} {data : Command}

theorem wanted_window {start : DateTime} (hstart : args.startTime = some start) :
    wanted args s = .window start args.endTime := by
  unfold wanted
  rw [hstart]

theorem wanted_all (hp : args.protocol = some .v4) (hstart : args.startTime = none) (hall : s.allData = true) :
    wanted args s = .all := by
  unfold wanted
  rw [hstart]
  exact if_pos ⟨hp, hall⟩

theorem wanted_next (hstart : args.startTime = none) (hall : s.allData = false) (hseq : args.resumeSeqnum s = none) :
    wanted args s = .next := by
  unfold wanted
  rw [hstart, hall]
  unfold NegotiationArgs.resumeSeqnum at hseq
  cases hn : s.seqnum with
  | none => simp
  | some n =>
    rw [hn] at hseq
    cases hresume : args.resume with
    | false => simp
    | true =>
      rw [hresume] at hseq
      cases hseq

/-- A v4 request without a position. -/
theorem textV4_of_dataV4 (hp : args.protocol = some .v4) (hseq : args.startTime = none → args.resumeSeqnum s = none)
    (h : dataV4 s.stationId none s.allData args.startTime args.endTime = .ok data) :
    TextV4 (wanted args s) data.text := by
  obtain ⟨position, window, hwin, ⟨-, rfl⟩ | ⟨n, hn, -⟩, rfl⟩ := exists_of_dataV4_ok h
  swap
  · cases hn
  cases hstart : args.startTime with
  | none =>
    rw [hstart] at hwin
    cases hwin
    cases hall : s.allData with
    | true =>
      rw [wanted_all hp hstart hall]
      exact .all
    | false =>
      rw [wanted_next hstart hall (hseq hstart)]
      exact .next
  | some start =>
    rw [wanted_window hstart]
    rw [hstart] at hwin
    unfold windowWords at hwin
    simp only at hwin
    obtain ⟨startWord, hstart, hwin⟩ := exists_of_bind_ok hwin
    simp only [Option.isSome_some, Bool.or_true, if_true]
    cases hend : args.endTime with
    | none =>
      rw [hend] at hwin
      cases hwin
      have : joinWords ("DATA".toList :: ["ALL".toList] ++ [startWord]) = "DATA ALL ".toList ++ startWord := by
        simp [joinWords, List.intercalate]
      rw [this]
      exact .window hstart
    | some stop =>
      rw [hend] at hwin
      obtain ⟨stopWord, hstop, hwin⟩ := exists_of_bind_ok hwin
      cases hwin
      have : joinWords ("DATA".toList :: ["ALL".toList] ++ [startWord, stopWord]) =
          "DATA ALL ".toList ++ startWord ++ ' ' :: stopWord := by
        simp [joinWords, List.intercalate]
      rw [this]
      exact .windowEnd hstart hstop

/-- A v4 request is in the documented order unless a position goes before all data. -/
theorem textV4_iff (hp : args.protocol = some .v4)
    (h : dataV4 s.stationId (if args.startTime.isSome then none else args.resumeSeqnum s) s.allData args.startTime
      args.endTime = .ok data) :
    TextV4 (wanted args s) data.text ↔ ¬ PositionBeforeAll args s := by
  cases hstart : args.startTime with
  | some start =>
    rw [hstart, Option.isSome_some, if_pos rfl, ← hstart] at h
    refine iff_of_true (textV4_of_dataV4 hp (fun hnone => by rw [hstart] at hnone; cases hnone) h) ?_
    rintro ⟨-, hnone, -⟩
    rw [hstart] at hnone
    cases hnone
  | none =>
  rw [hstart, Option.isSome_none, if_neg Bool.false_ne_true, ← hstart] at h
  cases hseq : args.resumeSeqnum s with
  | none =>
    rw [hseq] at h
    refine iff_of_true (textV4_of_dataV4 hp (fun _ => hseq) h) ?_
    rintro ⟨-, -, hresume, -, hsome⟩
    obtain ⟨n, hn⟩ := Option.isSome_iff_exists.1 hsome
    unfold NegotiationArgs.resumeSeqnum at hseq
    rw [if_pos hresume, hn] at hseq
    cases hseq
  | some m =>
    obtain ⟨hresume, n, hn, rfl⟩ := resumeSeqnum_eq_some hseq
    rw [hseq, hstart] at h
    have htext : data.text = "DATA ".toList ++ Text.intNumeral 10 (n + 1) := (dataV4_text h).2.2 _ rfl
    rw [htext]
    cases hall : s.allData with
    | true =>
      refine iff_of_false ?_ (not_not.2 ⟨hp, hstart, hresume, hall, by rw [hn]; rfl⟩)
      rw [wanted_all hp hstart hall]
      -- the position stands where `ALL` is due
      generalize hw : "DATA ".toList ++ Text.intNumeral 10 (n + 1) = text
      intro htext
      cases htext
      have hall : "DATA ".toList ++ Text.intNumeral 10 (n + 1) = "DATA ".toList ++ "ALL".toList := hw
      exact intNumeral_ne_all (n + 1) (List.append_cancel_left hall)
    | false =>
      have : wanted args s = .after n := by
        unfold wanted
        simp [hstart, hall, hn, hresume]
      rw [this]
      refine iff_of_true (.after n) ?_
      rintro ⟨-, -, -, hall', -⟩
      rw [hall] at hall'
      cases hall'

end v4

section requests
variable [Pymseed] [Unicode] [Iso8601]

/-- The saved time in comma form, if it can be read. -/
def Stream.savedTime (s : Stream) : Option Text :=
  if truthy s.resolveTimestamp.timestamp then
    (parseTimestring (s.resolveTimestamp.timestamp.getD []) >>= toCommaTimestring).toOption
  else none

/-- The request follows the documented order. -/
def Documented (args : NegotiationArgs) (s : Stream) (text : Text) : Prop :=
  if args.protocol = some .v4 then TextV4 (wanted args s) text
  else TextV3 args.cmdName (if args.lastpkttime then s.savedTime else none) (wanted args s) text

/-- A request without a window. -/
theorem requestV3_resume {args : NegotiationArgs} {s : Stream} {endStr : Option Text} {expectReply : Bool} :
    (requestV3 args none endStr expectReply s).1 = (resumeTimestamp args (args.resumeSeqnum s) s).1.map
      fun timestamp => dataV3 s.stationId args.cmdName (args.resumeSeqnum s) timestamp expectReply := by
  have hid : (resumeTimestamp args (args.resumeSeqnum s) s).2.stationId = s.stationId := by
    rcases @resolves_resumeTimestamp _ _ _ args (args.resumeSeqnum s) s with h | h <;> rw [h]
    exact resolveTimestamp_stationId
  unfold requestV3
  simp only
  split <;> rename_i heq
  · rw [heq] at hid ⊢
    rw [← hid]
    rfl
  · rw [heq]
    rfl

/-- The word for a timestamp that is asked for. -/
def timeWord (timestamp : Option Text) : Except Exn (Option Text) :=
  if truthy timestamp then
    match parseTimestring (timestamp.getD []) >>= toCommaTimestring with
    | .ok t => .ok (some t)
    | .error e => if e.isValueError then .ok none else .error e
  else .ok none

theorem resumeTimestamp_fst {args : NegotiationArgs} {seqnum : Option Int} {s : Stream} :
    (resumeTimestamp args seqnum s).1 =
      if args.lastpkttime && seqnum.isSome then timeWord s.resolveTimestamp.timestamp else .ok none := by
  unfold resumeTimestamp timeWord
  split
  · simp only
    split
    · cases parseTimestring (s.resolveTimestamp.timestamp.getD []) >>= toCommaTimestring with
      | ok t => rfl
      | error e => exact apply_ite Prod.fst _ _ _
    · rfl
  · rfl

theorem timeWord_ok {s : Stream} {timestamp : Option Text} (h : timeWord s.resolveTimestamp.timestamp = .ok timestamp) :
    timestamp = s.savedTime := by
  unfold timeWord at h
  unfold Stream.savedTime
  split at h
  · rename_i htrue
    rw [if_pos htrue]
    cases hword : parseTimestring (s.resolveTimestamp.timestamp.getD []) >>= toCommaTimestring with
    | ok t =>
      rw [hword] at h
      cases h
      rfl
    | error e =>
      rw [hword] at h
      simp only at h
      split at h
      · cases h
        rfl
      · cases h
  · rename_i hfalse
    rw [if_neg hfalse]
    cases h
    rfl

theorem resumeTimestamp_ok {args : NegotiationArgs} {s : Stream} {n : Int} {timestamp : Option Text}
    (h : (resumeTimestamp args (some n) s).1 = .ok timestamp) :
    timestamp = if args.lastpkttime then s.savedTime else none := by
  rw [resumeTimestamp_fst, Option.isSome_some, Bool.and_true] at h
  split at h
  · rename_i hlast
    rw [if_pos hlast]
    exact timeWord_ok h
  · rename_i hlast
    rw [if_neg hlast]
    cases h
    rfl

theorem Stream.savedTime_ne_nil {s : Stream} {time : Text} (h : s.savedTime = some time) : time ≠ [] := by
  unfold Stream.savedTime at h
  split at h
  · cases ht : parseTimestring (s.resolveTimestamp.timestamp.getD []) >>= toCommaTimestring with
    | error e => rw [ht] at h; cases h
    | ok w =>
      rw [ht] at h
      cases h
      obtain ⟨dt, -, hw⟩ := exists_of_bind_ok ht
      exact toCommaTimestring_ne_nil hw
  · cases h

omit [Pymseed] [Unicode] [Iso8601] in
theorem mapM_toCommaTimestring {time : Option DateTime} {word : Option Text}
    (h : time.mapM toCommaTimestring = .ok word) :
    time = none ∧ word = none ∨ ∃ dt w, time = some dt ∧ word = some w ∧ toCommaTimestring dt = .ok w := by
  cases time with
  | none =>
    cases h
    exact .inl ⟨rfl, rfl⟩
  | some dt =>
    have h' : (toCommaTimestring dt >>= fun w => pure (some w)) = .ok word := h
    obtain ⟨w, hw, h'⟩ := exists_of_bind_ok h'
    cases h'
    exact .inr ⟨dt, w, rfl, rfl, hw⟩

theorem streamId_requestV3 {args : NegotiationArgs} {s : Stream} {data : Command} {startStr endStr : Option Text}
    {expectReply : Bool} (h : (requestV3 args startStr endStr expectReply s).1 = .ok data) :
    data.streamId = some s.stationId := by
  cases startStr with
  | some start =>
    cases h
    rfl
  | none =>
    rw [requestV3_resume] at h
    obtain ⟨timestamp, -, rfl⟩ := exists_of_map_ok h
    rfl

/-- A v3 request is in the documented order. -/
theorem textV3_of_requestV3 {args : NegotiationArgs} {s : Stream} {data : Command} {startStr endStr : Option Text}
    {expectReply : Bool} (hp : args.protocol ≠ some .v4) (hs : args.startTime.mapM toCommaTimestring = .ok startStr)
    (he : args.endTime.mapM toCommaTimestring = .ok endStr)
    (h : (requestV3 args startStr endStr expectReply s).1 = .ok data) :
    TextV3 args.cmdName (if args.lastpkttime then s.savedTime else none) (wanted args s) data.text := by
  unfold wanted
  rcases mapM_toCommaTimestring hs with ⟨hstart, rfl⟩ | ⟨start, startWord, hstart, rfl, hword⟩
  · simp only [hstart, hp, false_and, if_false]
    rw [requestV3_resume] at h
    obtain ⟨timestamp, hts, rfl⟩ := exists_of_map_ok h
    show TextV3 _ _ _ (dataV3Text args.cmdName (args.resumeSeqnum s) timestamp)
    cases hn : s.seqnum with
    | none =>
      have hseq : args.resumeSeqnum s = none := by simp [NegotiationArgs.resumeSeqnum, hn]
      rw [hseq]
      exact .next
    | some n =>
    cases hresume : args.resume with
    | false =>
      have hseq : args.resumeSeqnum s = none := by simp [NegotiationArgs.resumeSeqnum, hresume]
      rw [hseq]
      exact .next
    | true =>
    have hseq : args.resumeSeqnum s = some (n + 1) := by simp [NegotiationArgs.resumeSeqnum, hresume, hn]
    rw [hseq] at hts ⊢
    have htime := resumeTimestamp_ok hts
    cases timestamp with
    | none =>
      have : dataV3Text args.cmdName (some (n + 1)) none = args.cmdName ++ ' ' :: Text.intNumeral 16 (n + 1) := by
        simp [dataV3Text, truthy]
      rw [this]
      exact .after n htime.symm
    | some time =>
      have hne : time ≠ [] := by
        split at htime
        · exact Stream.savedTime_ne_nil htime.symm
        · cases htime
      have : dataV3Text args.cmdName (some (n + 1)) (some time) =
          args.cmdName ++ ' ' :: Text.intNumeral 16 (n + 1) ++ ' ' :: time := by
        simp [dataV3Text, truthy_some hne]
      rw [this]
      exact .afterTime n htime.symm
  · simp only [hstart]
    cases h
    show TextV3 _ _ _ ("TIME ".toList ++ startWord ++ (if truthy endStr then ' ' :: endStr.getD [] else []))
    rcases mapM_toCommaTimestring he with ⟨hend, rfl⟩ | ⟨stop, stopWord, hend, rfl, hword'⟩
    · rw [hend]
      simp only [truthy, Option.any_none, Bool.false_eq_true, if_false, List.append_nil]
      exact .window hword
    · rw [hend, truthy_some (toCommaTimestring_ne_nil hword'), if_pos rfl]
      exact .windowEnd hword hword'

/-- The requests of a plan, one for each stream, are in the documented order but for the v4 streams with a
position to resume from that want all data. -/
theorem documented_iff {args : NegotiationArgs} {streams : List Stream} {plan : List Command}
    (h : (planNegotiation args streams).1 = .ok plan) :
    List.Forall₂ (fun s cmd => cmd.streamId = some s.stationId ∧
      (Documented args s cmd.text ↔ ¬ PositionBeforeAll args s)) streams (dataCommands plan) := by
  refine forall₂_dataCommands (fun hp s data hdata => ⟨?_, ?_⟩) (fun hp startStr endStr _ s data hs he hdata => ⟨?_, ?_⟩) h
  · exact (dataV4_shape hdata).2.2
  · unfold Documented
    rw [if_pos hp]
    exact textV4_iff hp hdata
  · exact streamId_requestV3 hdata
  · unfold Documented
    rw [if_neg hp]
    exact iff_of_true (textV3_of_requestV3 hp hs he hdata) fun hall => hp hall.1

/-! ### One saved timestamp -/

/-- The saved time of the stream is what its request depends on. -/
structure AsksSavedTime (args : NegotiationArgs) (s : Stream) (t : Text) : Prop where
  startTime_eq : args.startTime = none
  resume_eq : args.resume = true
  lastpkttime_eq : args.lastpkttime = true
  seqnum_isSome : s.seqnum.isSome = true
  ne_nil : t ≠ []
  pending : ∀ pkt ∈ s.pendingPacket, ∀ record, pkt.parsed ≠ .ok record

/-- The same command, or the same with a time behind its text. -/
def Command.WithTime (t : Text) (data data' : Command) : Prop :=
  data' = data ∨ ∃ w, (parseTimestring t >>= toCommaTimestring) = .ok w ∧
    data' = { data with text := data.text ++ ' ' :: w }

omit [Pymseed] in
theorem timeWord_some {t : Text} (hne : t ≠ []) :
    (∃ w, (parseTimestring t >>= toCommaTimestring) = .ok w ∧ timeWord (some t) = .ok (some w)) ∨
      ((parseTimestring t >>= toCommaTimestring) ≠ .error .overflowError ∧ timeWord (some t) = .ok none) ∨
      ((parseTimestring t >>= toCommaTimestring) = .error .overflowError ∧
        timeWord (some t) = .error .overflowError) := by
  unfold timeWord
  rw [if_pos (truthy_some hne), Option.getD_some]
  cases h : parseTimestring t >>= toCommaTimestring with
  | ok w => exact .inl ⟨w, rfl, rfl⟩
  | error e =>
    rcases commaForm_error h with rfl | hv
    · exact .inr (.inr ⟨rfl, rfl⟩)
    · refine .inr (.inl ⟨fun heq => ?_, if_pos hv⟩)
      cases heq
      cases hv

omit [Unicode] [Iso8601] in
theorem resolveTimestamp_setTimestamp {s : Stream} (h : ∀ pkt ∈ s.pendingPacket, ∀ record, pkt.parsed ≠ .ok record)
    (x : Option Text) : ({ s with timestamp := x } : Stream).resolveTimestamp.timestamp = x := by
  unfold Stream.resolveTimestamp
  cases hpend : s.pendingPacket with
  | none => rfl
  | some pkt =>
    cases hparsed : pkt.parsed with
    | ok record => exact absurd hparsed (h pkt hpend record)
    | error e => simp [hparsed]

omit [Unicode] [Iso8601] in
theorem resolveTimestamp_pending {s : Stream} (h : ¬ ∀ pkt ∈ s.pendingPacket, ∀ record, pkt.parsed ≠ .ok record)
    (x y : Option Text) : ({ s with timestamp := x } : Stream).resolveTimestamp.timestamp =
      ({ s with timestamp := y } : Stream).resolveTimestamp.timestamp := by
  push Not at h
  obtain ⟨pkt, hpend, record, hparsed⟩ := h
  unfold Stream.resolveTimestamp
  rw [Option.mem_def.1 hpend]
  simp [hparsed]

section saved
variable {args : NegotiationArgs} {s : Stream} {t : Text} {startStr endStr : Option Text} {expectReply : Bool}

/-- Where it is not asked for, the saved time changes nothing. -/
theorem requestV3_congr (hs : args.startTime.mapM toCommaTimestring = .ok startStr) (h : ¬ AsksSavedTime args s t) :
    (requestV3 args startStr endStr expectReply { s with timestamp := some t }).1 =
      (requestV3 args startStr endStr expectReply { s with timestamp := none }).1 := by
  rcases mapM_toCommaTimestring hs with ⟨hstart, rfl⟩ | ⟨start, startWord, hstart, rfl, hword⟩
  · rw [requestV3_resume, requestV3_resume, resumeTimestamp_fst, resumeTimestamp_fst]
    have hseq : args.resumeSeqnum { s with timestamp := some t } = args.resumeSeqnum { s with timestamp := none } := rfl
    rw [hseq]
    by_cases hasks : (args.lastpkttime && (args.resumeSeqnum { s with timestamp := none }).isSome) = true
    · rw [if_pos hasks, if_pos hasks]
      obtain ⟨hlast, hsome⟩ := Bool.and_eq_true_iff.1 hasks
      obtain ⟨m, hm⟩ := Option.isSome_iff_exists.1 hsome
      obtain ⟨hresume, n, hn, -⟩ := resumeSeqnum_eq_some hm
      by_cases hpend : ∀ pkt ∈ s.pendingPacket, ∀ record, pkt.parsed ≠ .ok record
      · have hnil : t = [] := by
          by_contra hne
          exact h ⟨hstart, hresume, hlast, Option.isSome_iff_exists.2 ⟨n, hn⟩, hne, hpend⟩
        rw [resolveTimestamp_setTimestamp hpend, resolveTimestamp_setTimestamp hpend, hnil]
        rfl
      · rw [resolveTimestamp_pending hpend (some t) none]
    · rw [if_neg hasks, if_neg hasks]
  · rfl

/-- A saved time changes a word of the request, or is asked for and overflows. -/
theorem requestV3_saved (hiso : Iso8601.WellFormed)
    (hs : args.startTime.mapM toCommaTimestring = .ok startStr) {data : Command}
    (h : (requestV3 args startStr endStr expectReply { s with timestamp := none }).1 = .ok data) :
    (¬ (AsksSavedTime args s t ∧ Overflows t) ∧
      ∃ data', (requestV3 args startStr endStr expectReply { s with timestamp := some t }).1 = .ok data' ∧
        data.WithTime t data') ∨
      ((AsksSavedTime args s t ∧ Overflows t) ∧
        (requestV3 args startStr endStr expectReply { s with timestamp := some t }).1 = .error .overflowError) := by
  by_cases hasks : AsksSavedTime args s t
  · rw [← overflows_iff hiso]
    rcases mapM_toCommaTimestring hs with ⟨hstart, rfl⟩ | ⟨start, startWord, hstart, rfl, hword⟩
    · obtain ⟨n, hn⟩ := Option.isSome_iff_exists.1 hasks.seqnum_isSome
      have hseq : ∀ x, args.resumeSeqnum { s with timestamp := x } = some (n + 1) := by
        intro x
        simp [NegotiationArgs.resumeSeqnum, hasks.resume_eq, hn]
      have hreq : ∀ x, (requestV3 args none endStr expectReply { s with timestamp := x }).1 =
          (timeWord x).map fun time => dataV3 s.stationId args.cmdName (some (n + 1)) time expectReply := by
        intro x
        rw [requestV3_resume, resumeTimestamp_fst, hseq, hasks.lastpkttime_eq,
          resolveTimestamp_setTimestamp hasks.pending]
        rfl
      rw [hreq] at h ⊢
      cases h
      rcases timeWord_some hasks.ne_nil with ⟨w, hw, hword⟩ | ⟨hne, hword⟩ | ⟨heq, hword⟩
      · rw [hword]
        refine .inl ⟨fun hover => (by rw [hw] at hover; cases hover.2), _, rfl, .inr ⟨w, hw, ?_⟩⟩
        obtain ⟨dt, -, hdt⟩ := exists_of_bind_ok hw
        have htrue := truthy_some (toCommaTimestring_ne_nil hdt)
        have hnone : truthy none = false := rfl
        simp [dataV3, dataV3Text, htrue, hnone]
      · rw [hword]
        exact .inl ⟨fun hover => hne hover.2, _, rfl, .inl rfl⟩
      · rw [hword]
        exact .inr ⟨⟨hasks, heq⟩, rfl⟩
    · have := hasks.startTime_eq
      rw [hstart] at this
      cases this
  · rw [requestV3_congr hs hasks]
    exact .inl ⟨fun hboth => hasks hboth.1, data, h, .inl rfl⟩

end saved

section middle
variable {args : NegotiationArgs}

omit [Unicode] [Pymseed] [Iso8601] in
theorem planStreams_middle {plan : Stream → Except Exn (List Command) × Stream} {before after : List Stream}
    {s : Stream} {cmds₁ cmds₂ : List Command} (h₁ : (planStreams plan before).1 = .ok cmds₁)
    (h₂ : (planStreams plan after).1 = .ok cmds₂) :
    (planStreams plan (before ++ s :: after)).1 = (plan s).1.map fun cmds => cmds₁ ++ (cmds ++ cmds₂) := by
  induction before generalizing cmds₁ with
  | nil =>
    cases h₁
    rw [List.nil_append, planStreams]
    cases hs : plan s with
    | mk res s' =>
    cases res with
    | error e => rfl
    | ok cmds =>
      simp only [h₂]
      rfl
  | cons x before ih =>
    rw [planStreams] at h₁
    rw [List.cons_append, planStreams]
    cases hx : plan x with
    | mk res x' =>
    rw [hx] at h₁
    cases res with
    | error e => cases h₁
    | ok cmds =>
      obtain ⟨cmds', hcmds', rfl⟩ := exists_of_map_ok h₁
      simp only [ih hcmds']
      cases (plan s).1 with
      | error e => rfl
      | ok _ => simp [Except.map]

omit [Unicode] [Pymseed] [Iso8601] in
theorem exists_of_planStreams {plan : Stream → Except Exn (List Command) × Stream} {before after : List Stream}
    {s : Stream} {cmds : List Command} (h : (planStreams plan (before ++ s :: after)).1 = .ok cmds) :
    ∃ cmds₁ cmds₂ cmds₃, (planStreams plan before).1 = .ok cmds₁ ∧ (plan s).1 = .ok cmds₂ ∧
      (planStreams plan after).1 = .ok cmds₃ := by
  induction before generalizing cmds with
  | nil =>
    rw [List.nil_append, planStreams] at h
    cases hs : plan s with
    | mk res s' =>
    rw [hs] at h
    cases res with
    | error e => cases h
    | ok cmds₂ =>
      obtain ⟨cmds₃, hcmds₃, -⟩ := exists_of_map_ok h
      exact ⟨[], cmds₂, cmds₃, rfl, rfl, hcmds₃⟩
  | cons x before ih =>
    rw [List.cons_append, planStreams] at h
    rw [planStreams]
    cases hx : plan x with
    | mk res x' =>
    rw [hx] at h
    cases res with
    | error e => cases h
    | ok cmds₀ =>
      obtain ⟨cmds', hcmds', -⟩ := exists_of_map_ok h
      obtain ⟨cmds₁, cmds₂, cmds₃, h₁, h₂, h₃⟩ := ih hcmds'
      exact ⟨cmds₀ ++ cmds₁, cmds₂, cmds₃, by simp [h₁, Except.map], h₂, h₃⟩

omit [Pymseed] [Iso8601] in
theorem dataCommands_selectsV3 (s : Stream) : dataCommands (selectsV3 args s) = [] :=
  List.filter_eq_nil_iff.2 fun cmd hmem => by simpa using role_selectsV3 hmem

/-- A v3 plan around the request of one stream. -/
theorem planNegotiation_middle (hv3 : args.protocol ≠ some .v4) {before after : List Stream} {s : Stream}
    {plan : List Command} (h : (planNegotiation args (before ++ s :: after)).1 = .ok plan) :
    ∃ startStr endStr expectReply pre post data, args.startTime.mapM toCommaTimestring = .ok startStr ∧
      (requestV3 args startStr endStr expectReply s).1 = .ok data ∧ plan = pre ++ data :: post ∧
      (dataCommands pre).length = before.length ∧
      ∀ s' : Stream, s'.stationId = s.stationId → s'.selectors = s.selectors →
        (planNegotiation args (before ++ s' :: after)).1 =
          (requestV3 args startStr endStr expectReply s').1.map fun data => pre ++ data :: post := by
  unfold planNegotiation at h ⊢
  cases hs : args.startTime.mapM toCommaTimestring with
  | error e => rw [hs] at h; cases h
  | ok startStr =>
  cases he : args.endTime.mapM toCommaTimestring with
  | error e => rw [hs, he] at h; cases h
  | ok endStr =>
  rw [hs, he] at h
  simp only [if_neg hv3] at h ⊢
  unfold planNegotiationV3 at h ⊢
  cases hmulti : args.multistation with
  | true =>
    simp only [hmulti, if_true] at h ⊢
    obtain ⟨cmds, hcmds, rfl⟩ := exists_of_map_ok h
    obtain ⟨cmds₁, cmds₂, cmds₃, h₁, h₂, h₃⟩ := exists_of_planStreams hcmds
    have hreq : (requestV3 args startStr endStr (!args.batchActive) s).1.map (fun data =>
      stationV3 s.stationId (!args.batchActive) :: selectsV3 args s ++ [data]) = .ok cmds₂ := h₂
    obtain ⟨data, hdata, rfl⟩ := exists_of_map_ok hreq
    rw [planStreams_middle h₁ h₃, h₂] at hcmds
    cases hcmds
    refine ⟨startStr, endStr, !args.batchActive,
      cmds₁ ++ stationV3 s.stationId (!args.batchActive) :: selectsV3 args s, cmds₃ ++ [endV3], data, rfl, hdata,
      by simp, ?_, fun s' hid hsel => ?_⟩
    · have hone : ∀ s cmds, (planStreamV3 args startStr endStr s).1 = .ok cmds →
          ∃ data, dataCommands cmds = [data] ∧ True := by
        intro s cmds h
        obtain ⟨data, hdata, -⟩ := dataCommands_planStreamV3 h
        exact ⟨data, hdata, trivial⟩
      have hlen := (planStreams_requests (R := fun _ _ => True) hone h₁).length_eq
      have hstation : dataCommands (stationV3 s.stationId (!args.batchActive) :: selectsV3 args s) = [] := by
        refine List.filter_eq_nil_iff.2 fun cmd hmem => ?_
        have hrole : cmd.role ≠ .data := by
          rcases List.mem_cons.1 hmem with rfl | hmem
          · exact Role.noConfusion
          · exact role_selectsV3 hmem
        simpa using hrole
      rw [dataCommands, List.filter_append]
      show (dataCommands cmds₁ ++ dataCommands _).length = _
      rw [hstation, List.append_nil, hlen]
    · have hselects : selectsV3 args s' = selectsV3 args s := by rw [selectsV3, selectsV3, hid, hsel]
      rw [planStreams_middle h₁ h₃]
      unfold planStreamV3
      simp only [hid, hselects]
      cases (requestV3 args startStr endStr (!args.batchActive) s').1 with
      | error e => rfl
      | ok data' => simp [Except.map]
  | false =>
    simp only [hmulti, Bool.false_eq_true, if_false] at h ⊢
    rcases before with _ | ⟨x, before⟩
    · rcases after with _ | ⟨y, after⟩
      · obtain ⟨data, hdata, rfl⟩ := exists_of_map_ok h
        refine ⟨startStr, endStr, false, selectsV3 args s, [], data, rfl, hdata, rfl, ?_, fun s' hid hsel => ?_⟩
        · rw [dataCommands_selectsV3]
          rfl
        · have hselects : selectsV3 args s' = selectsV3 args s := by rw [selectsV3, selectsV3, hid, hsel]
          simp only [List.nil_append, hselects]
      · cases h
    · rcases before with _ | ⟨y, before⟩ <;> cases h

end middle

/-- The plans differ in the request of stream `i` alone, and there in its time alone. -/
def OnlyTimestamp (i : Nat) (t : Text) (plan plan' : List Command) : Prop :=
  ∃ pre data data' post, plan = pre ++ data :: post ∧ plan' = pre ++ data' :: post ∧ data.role = .data ∧
    (dataCommands pre).length = i ∧ data.WithTime t data'

/-- Saving a timestamp with a stream changes the time in its request, unless the timestamp is asked for and
overflows. -/
theorem onlyTimestamp_iff (hiso : Iso8601.WellFormed) {args : NegotiationArgs} (hv3 : args.protocol ≠ some .v4)
    {before after : List Stream} {s : Stream} {t : Text} {plan : List Command}
    (h : (planNegotiation args (before ++ { s with timestamp := none } :: after)).1 = .ok plan) :
    (∃ plan', (planNegotiation args (before ++ { s with timestamp := some t } :: after)).1 = .ok plan' ∧
      OnlyTimestamp before.length t plan plan') ↔ ¬ (AsksSavedTime args s t ∧ Overflows t) := by
  obtain ⟨startStr, endStr, expectReply, pre, post, data, hs, hdata, rfl, hlen, hmiddle⟩ :=
    planNegotiation_middle hv3 h
  rw [hmiddle { s with timestamp := some t } rfl rfl]
  rcases requestV3_saved (t := t) hiso hs hdata with ⟨hno, data', hdata', hwith⟩ | ⟨hyes, herror⟩
  · rw [hdata']
    exact iff_of_true ⟨_, rfl, pre, data, data', post, rfl, rfl, role_requestV3 hdata, hlen, hwith⟩ hno
  · rw [herror]
    refine iff_of_false ?_ fun hno => hno hyes
    rintro ⟨plan', hplan', -⟩
    cases hplan'

end requests

/-- A v4 client that resumes and asks for no window. -/
def resumingV4 : NegotiationArgs :=
  { protocol := some .v4, dialup := false, multistation := true, resume := true, lastpkttime := true,
    batchActive := false, startTime := none, endTime := none }

/-- All data from a station of which packet 5 has been received. -/
def allAfterFive : Stream := { stationId := "A_B".toList, seqnum := some 5, allData := true }

/-- The request is not for all data. -/
theorem not_documented_allAfterFive :
    ∃ data, (@planNegotiation Pymseed.bare Externals.bare.toUnicode Externals.bare.toIso8601 resumingV4
        [allAfterFive]).1 = .ok [stationV4 "A_B".toList, data, endV4 false] ∧
      data.text = "DATA 6".toList ∧
      ¬ @Documented Pymseed.bare Externals.bare.toUnicode Externals.bare.toIso8601 resumingV4 allAfterFive
        data.text := by
  refine ⟨_, rfl, rfl, fun hdoc => ?_⟩
  have htext : ∀ text, TextV4 .all text → text = "DATA ALL".toList := by
    intro text h
    cases h
    rfl
  have := htext _ hdoc
  revert this
  decide

theorem documented_iff_all :
    List.Forall₂ (fun s cmd => cmd.streamId = some s.stationId ∧
      (@Documented Pymseed.bare Externals.bare.toUnicode Externals.bare.toIso8601 resumingV4 s cmd.text ↔
        ¬ PositionBeforeAll resumingV4 s)) [{ allAfterFive with seqnum := none }]
      (dataCommands [stationV4 "A_B".toList,
        { text := "DATA ALL".toList, parse := some .expectOk, terminator := cr, role := .data,
          streamId := some "A_B".toList }, endV4 false]) :=
  @documented_iff Pymseed.bare Externals.bare.toUnicode Externals.bare.toIso8601 resumingV4
    [{ allAfterFive with seqnum := none }] _ rfl

/-- A v3 client that resumes in uni-station mode. -/
def resumingV3 : NegotiationArgs :=
  { protocol := some .v3, dialup := false, multistation := false, resume := true, lastpkttime := true,
    batchActive := false, startTime := none, endTime := none }

def afterFive (timestamp : Option Text) : Stream :=
  { stationId := "A_B".toList, seqnum := some 5, timestamp := timestamp }

def dataAfterFive : Command :=
  { text := "DATA 6".toList, parse := none, role := .data, streamId := some "A_B".toList }

/-- A year beyond the range of a C integer stops the planning. -/
theorem planNegotiation_overflows :
    (@planNegotiation Pymseed.bare Externals.bare.toUnicode Externals.bare.toIso8601 resumingV3
        [afterFive none]).1 = .ok [dataAfterFive] ∧
      (@planNegotiation Pymseed.bare Externals.bare.toUnicode Externals.bare.toIso8601 resumingV3
        [afterFive (some "99999999999,1,1".toList)]).1 = .error .overflowError :=
  ⟨rfl, rfl⟩

theorem onlyTimestamp_iff_comma :
    ∃ plan', (@planNegotiation Pymseed.bare Externals.bare.toUnicode Externals.bare.toIso8601 resumingV3
        [afterFive (some "2024,1,2".toList)]).1 = .ok plan' ∧
      @OnlyTimestamp Externals.bare.toUnicode Externals.bare.toIso8601 0 "2024,1,2".toList [dataAfterFive] plan' := by
  have hiso : @Iso8601.WellFormed Externals.bare.toIso8601 := fun t dt h => by cases h
  refine (@onlyTimestamp_iff Pymseed.bare Externals.bare.toUnicode Externals.bare.toIso8601 hiso resumingV3
    (by decide) [] [] (afterFive none) "2024,1,2".toList [dataAfterFive] rfl).2 ?_
  rintro ⟨-, hover⟩
  have := (@overflows_iff Externals.bare.toUnicode Externals.bare.toIso8601 hiso _).2 hover
  cases this

end SeedLink
