import SeedLink.Lib.OneLine
import SeedLink.Lib.Spacing
import SeedLink.Plans

/-!
# State files (`state.py`)

A state file has a line for each station: its ID, a sequence number and perhaps a timestamp. Saving
resolves the timestamps that are still pending; what a save meets on disk is a parameter, the
exception that each of its steps raises, if any.
-/

namespace SeedLink

def headerV2 : Text := "#V2 StationID  Sequence  [Timestamp]".toList

/-! ### Loading -/

/-- Station ID, sequence number and timestamp among the words of a line. -/
def stateFields (isV2 : Bool) (fields : List Text) : Option (Text × Text × Option Text) :=
  if isV2 then
    match fields with
    | stationId :: seqStr :: rest => some (stationId, seqStr, rest.head?)
    | _ => none
  else
    match fields with
    | net :: sta :: seqStr :: rest =>
      let stationId := if net = "XX".toList ∧ sta = "UNI".toList then ['*'] else net ++ '_' :: sta
      some (stationId, seqStr, rest.head?)
    | _ => none

section load
variable [Unicode]

/-- The sequence number of a line, `none` when it cannot be read. -/
def stateSeqnum (seqStr : Text) : Option (Option Int) :=
  if seqStr = "UNSET".toList ∨ seqStr = "-1".toList then some none
  else (Text.intBase10 seqStr).map some

/-- One line of a state file, `none` when it is skipped. -/
def loadStateLine (isV2 : Bool) (line : Text) : Option (Text × Position) :=
  let line := Text.strip line
  if line.isEmpty ∨ line.head? = some '#' then none
  else do
    let (stationId, seqStr, timestamp) ← stateFields isV2 (Text.splitWords line)
    let seqnum ← stateSeqnum seqStr
    return (stationId, seqnum, timestamp)

/-- `load_state` on the text of the file; a later line for a station replaces an earlier one. -/
def loadState (content : Text) : RecoveredState :=
  let lines := content.splitOn '\n'
  let isV2 := "#V2".toList.isPrefixOf (lines.headD [])
  ((if isV2 then lines.drop 1 else lines).filterMap (loadStateLine isV2)).foldl
    (fun state entry => state.insert entry.1 entry.2) ∅

end load

/-! ### Saving -/

/-- The exception that the `n`th step on the file raises. -/
abbrev Faults := Nat → Option Exn

def sequenceText (seqnum : Option Int) : Except Exn Text :=
  match seqnum with
  | none => .ok "UNSET".toList
  | some n => Commands.str n

def stateLine (stationId seq : Text) (timestamp : Option Text) : Text :=
  joinWords ([stationId, seq] ++ if truthy timestamp then [timestamp.getD []] else []) ++ ['\n']

section save
variable [Pymseed]

/-- The lines of the streams, written from step `n` on; each stream is resolved before its line is
written. -/
def stateLines (faults : Faults) : Nat → List Stream → Except Exn Text × List Stream
  | _, [] => (.ok [], [])
  | n, s :: rest =>
    match sequenceText s.seqnum with
    | .error e => (.error e, s :: rest)
    | .ok seq =>
      let s := s.resolveTimestamp
      match faults n with
      | some e => (.error e, s :: rest)
      | none =>
        let lines := stateLines faults (n + 1) rest
        (lines.1.map (stateLine s.stationId seq s.timestamp ++ ·), s :: lines.2)

/-- `save_state`: the new contents of the file, which stays as it is when the save raises, and the
streams. The first step opens the temporary file, the last one renames it. -/
def saveState (faults : Faults) (streams : List Stream) : Except Exn Text × List Stream :=
  match faults 0 with
  | some e => (.error e, streams)
  | none =>
    let lines := stateLines faults 1 streams
    match faults (streams.length + 1) with
    | some e => (lines.1.bind fun _ => .error e, lines.2)
    | none => (lines.1.map (headerV2 ++ '\n' :: ·), lines.2)

variable {faults : Faults}

theorem resolves_stateLines : ∀ (n : Nat) (streams : List Stream),
    List.Forall₂ Resolves streams (stateLines faults n streams).2
  | _, [] => .nil
  | n, s :: rest => by
    have hrest : List.Forall₂ Resolves rest rest := List.forall₂_same.2 fun _ _ => .inl rfl
    unfold stateLines
    split
    · exact .cons (.inl rfl) hrest
    · simp only
      split
      · exact .cons (.inr rfl) hrest
      · exact .cons (.inr rfl) (resolves_stateLines (n + 1) rest)

theorem resolves_saveState (streams : List Stream) :
    List.Forall₂ Resolves streams (saveState faults streams).2 := by
  unfold saveState
  split
  · exact List.forall₂_same.2 fun _ _ => .inl rfl
  · simp only
    split <;> exact resolves_stateLines 1 streams

end save

/-! ### Reading a saved file back -/

section entries
variable [Unicode]

/-- The entries in the text of a file, as far as its lines can be read. -/
def stateEntries (content : Text) : List (Text × Position) :=
  ((Text.universalNewlines content).splitOn '\n').filterMap (loadStateLine true)

/-- The entries of two pieces, the first of which ends its line. -/
theorem stateEntries_append (s t : Text) :
    stateEntries (s ++ '\n' :: t) = stateEntries (s ++ ['\n']) ++ stateEntries t := by
  obtain ⟨s', hs⟩ := Text.exists_universalNewlines s
  have hline : loadStateLine true [] = none := rfl
  have hnil : [].splitOn '\n' = [[]] := by rw [List.splitOn_eq_splitOnP, List.splitOnP_nil]
  unfold stateEntries
  rw [Text.universalNewlines_append, hs, List.append_assoc, List.singleton_append, Text.splitOn_append_newline,
    List.filterMap_append, Text.splitOn_append_newline, hnil, List.filterMap_append]
  simp [hline]

theorem stateEntries_flatten {lines : List Text} (h : ∀ line ∈ lines, ∃ s, line = s ++ ['\n']) :
    stateEntries lines.flatten = lines.flatMap stateEntries := by
  induction lines with
  | nil => simp [stateEntries, Text.universalNewlines, List.splitOn_eq_splitOnP, List.splitOnP_nil, loadStateLine,
      Text.strip, Text.lstrip, Text.rstrip]
  | cons line lines ih =>
    obtain ⟨s, rfl⟩ := h line List.mem_cons_self
    rw [List.flatten_cons, List.append_assoc, List.singleton_append, stateEntries_append,
      ih fun l hl => h l (List.mem_cons_of_mem _ hl), List.flatMap_cons]

omit [Unicode] in
theorem lookup_foldl_insert {X : Text} {P : Position → Prop} {entries : List (Text × Position)}
    (hmem : ∃ e ∈ entries, e.1 = X) (h : ∀ e ∈ entries, e.1 = X → P e.2) (state : RecoveredState) :
    ∃ pos, (entries.foldl (fun state e => state.insert e.1 e.2) state).lookup X = some pos ∧ P pos := by
  induction entries using List.reverseRecOn with
  | nil => simp at hmem
  | append_singleton entries e ih =>
    rw [List.foldl_append, List.foldl_cons, List.foldl_nil]
    by_cases he : e.1 = X
    · exact ⟨e.2, he ▸ AList.lookup_insert _, h e (by simp) he⟩
    · rw [AList.lookup_insert_ne (Ne.symm he)]
      refine ih ?_ fun e' he' => h e' (List.mem_append_left _ he')
      obtain ⟨e', he', hX⟩ := hmem
      rcases List.mem_append.1 he' with he' | he'
      · exact ⟨e', he', hX⟩
      · rw [List.mem_singleton.1 he'] at hX
        exact absurd hX he

theorem loadState_header (body : Text) :
    loadState (Text.universalNewlines (headerV2 ++ '\n' :: body)) =
      (stateEntries body).foldl (fun state e => state.insert e.1 e.2) ∅ := by
  have hheader : Text.OneLine headerV2 := by decide
  rw [Text.universalNewlines_append, Text.universalNewlines_of_noReturn hheader.noReturn_newline, List.append_assoc,
    List.singleton_append, loadState, Text.splitOn_append_newline,
    Text.splitOn_of_noNewline fun c hc => hheader.ne_newline hc]
  rfl

/-- A line that is words joined by blanks. -/
theorem stateEntries_words {words : List Text} (h : ∀ w ∈ words, Text.Word w) :
    stateEntries (joinWords words ++ ['\n']) = (loadStateLine true (joinWords words)).toList := by
  have hline : Text.OneLine (joinWords words) :=
    Text.oneLine_intercalate (by decide) fun w hw => Text.oneLine_of_noSpace (h w hw).noSpace
  have hsplit : (joinWords words ++ ['\n']).splitOn '\n' = [joinWords words, []] := by
    rw [Text.splitOn_append_newline, Text.splitOn_of_noNewline fun c hc => hline.ne_newline hc,
      List.splitOn_eq_splitOnP, List.splitOnP_nil]
    rfl
  have hnil : loadStateLine true [] = none := rfl
  rw [stateEntries, Text.universalNewlines_of_noReturn hline.noReturn_newline, hsplit]
  cases hload : loadStateLine true (joinWords words) <;> simp [hload, hnil]

theorem loadStateLine_words {stationId seq : Text} {rest : List Text}
    (h : ∀ w ∈ stationId :: seq :: rest, Text.Word w) : loadStateLine true (joinWords (stationId :: seq :: rest)) =
      if stationId.head? = some '#' then none
      else (stateSeqnum seq).map fun seqnum => (stationId, seqnum, rest.head?) := by
  have hhead : (joinWords (stationId :: seq :: rest)).head? = stationId.head? := by
    rw [joinWords, List.intercalate_cons_cons, List.append_assoc,
      List.head?_append_of_ne_nil _ (h stationId List.mem_cons_self).ne_nil]
  have hne : joinWords (stationId :: seq :: rest) ≠ [] := by
    intro hnil
    rw [hnil, List.head?_nil, eq_comm, List.head?_eq_none_iff] at hhead
    exact (h stationId List.mem_cons_self).ne_nil hhead
  have hempty : (joinWords (stationId :: seq :: rest)).isEmpty = false := by simpa using hne
  simp only [loadStateLine, joinWords, Text.strip_intercalate h, Text.splitWords_intercalate h]
  rw [← joinWords, hempty, hhead]
  by_cases hhash : stationId.head? = some '#'
  · simp [hhash]
  · rw [if_neg (by simp [hhash]), if_neg hhash]
    show ((stateSeqnum seq).bind fun seqnum => some (stationId, seqnum, rest.head?)) = _
    cases stateSeqnum seq <;> rfl

/-- The words of a stream's line. -/
def stateWords (stationId seq : Text) (timestamp : Option Text) : List Text :=
  stationId :: seq :: if truthy timestamp then [timestamp.getD []] else []

omit [Unicode] in
theorem word_stateWords {stationId seq : Text} {timestamp : Option Text} (hid : Text.Word stationId)
    (hseq : Text.Word seq) (htime : ∀ t ∈ timestamp, t ≠ [] → Text.Word t) :
    ∀ w ∈ stateWords stationId seq timestamp, Text.Word w := by
  intro w hw
  rcases List.mem_cons.1 hw with rfl | hw
  · exact hid
  rcases List.mem_cons.1 hw with rfl | hw
  · exact hseq
  rcases timestamp with _ | t
  · simp [truthy] at hw
  · by_cases ht : t = []
    · simp [truthy, ht] at hw
    · have hw : w = t := by simpa [truthy, ht] using hw
      exact hw ▸ htime t rfl ht

/-- The line of a station ID that is a word is read back, unless it is a comment. -/
theorem stateEntries_stateLine {stationId seq : Text} {timestamp : Option Text} (hid : Text.Word stationId)
    (hseq : Text.Word seq) (htime : ∀ t ∈ timestamp, t ≠ [] → Text.Word t) :
    stateEntries (stateLine stationId seq timestamp) =
      if stationId.head? = some '#' then []
      else (stateSeqnum seq).toList.map fun seqnum =>
        (stationId, seqnum, if truthy timestamp then timestamp else none) := by
  have hwords := word_stateWords hid hseq htime
  have htimestamp : (if truthy timestamp then [timestamp.getD []] else []).head? =
      if truthy timestamp then timestamp else none := by
    rcases timestamp with _ | t
    · rfl
    · by_cases ht : t = [] <;> simp [truthy, ht]
  show stateEntries (joinWords (stateWords stationId seq timestamp) ++ ['\n']) = _
  rw [stateEntries_words hwords, stateWords, loadStateLine_words hwords, htimestamp]
  split
  · rfl
  · cases stateSeqnum seq <;> rfl

omit [Unicode] in
theorem word_sequenceText {seqnum : Option Int} {seq : Text} (h : sequenceText seqnum = .ok seq) : Text.Word seq := by
  rcases seqnum with _ | n
  · obtain rfl := Except.ok.inj h
    decide
  · obtain rfl := (Commands.str_ok h).2
    exact Text.word_intNumeral n

/-- The number `-1` is read as no number. -/
theorem stateSeqnum_of_sequenceText {seqnum : Option Int} {seq : Text} (h : sequenceText seqnum = .ok seq)
    (hne : seqnum ≠ some (-1)) : stateSeqnum seq = some seqnum := by
  rcases seqnum with _ | n
  · obtain rfl := Except.ok.inj h
    rfl
  · obtain ⟨ht, ht'⟩ := Commands.str_ok h
    have hunset : seq ≠ "UNSET".toList := by
      rw [ht']
      intro hU
      have hmem : 'U' ∈ Text.intNumeral 10 n := by rw [hU]; decide
      rcases n with n | n
      · have hmem : 'U' ∈ Text.numeral 10 n := hmem
        obtain ⟨d, hd, hU⟩ := Text.exists_digit_of_mem_numeral (by decide) hmem
        have hdigit : ∀ d < 10, Text.digitChar d ≠ 'U' := by decide
        exact hdigit d hd hU.symm
      · cases hU
    have hminus : seq ≠ "-1".toList := by
      rw [ht']
      intro h1
      have : Text.intNumeral 10 n = Text.intNumeral 10 (-1) := h1.trans (by decide)
      exact hne (congrArg some (Text.intNumeral_inj (by decide) (by decide) this))
    rw [stateSeqnum, if_neg (by simp only [hunset, hminus, or_self, not_false_eq_true]),
      Text.intBase10_of_strInt ht]
    rfl

/-! ### What a file says of a station -/

/-- A timestamp is read back whole. -/
def Unbroken (timestamp : Option Text) : Prop := ∀ t ∈ timestamp, ∀ c ∈ t, Text.isSpace c = false

omit [Unicode] in
theorem Unbroken.word {timestamp : Option Text} (h : Unbroken timestamp) : ∀ t ∈ timestamp, t ≠ [] → Text.Word t :=
  fun t ht hne => ⟨hne, h t ht⟩

/-- A line for the station ID `y` may be read as one for `X`. -/
def Mistakable (X y : Text) : Prop :=
  ∃ seqnum seq timestamp, sequenceText seqnum = .ok seq ∧ Unbroken timestamp ∧
    ∃ entry ∈ stateEntries (stateLine y seq timestamp), entry.1 = X

/-- A station ID that is a word is not mistaken for another. -/
theorem not_mistakable {X y : Text} (hy : Text.Word y) (hne : y ≠ X) : ¬ Mistakable X y := by
  rintro ⟨seqnum, seq, timestamp, hseq, htime, entry, hentry, rfl⟩
  rw [stateEntries_stateLine hy (word_sequenceText hseq) htime.word] at hentry
  split at hentry
  · cases hentry
  · obtain ⟨n, -, rfl⟩ := List.mem_map.1 hentry
    exact hne rfl

/-- What a line gives is a word that begins no comment, and a timestamp that is a word. -/
theorem loadStateLine_spec {isV2 : Bool} {line X : Text} {pos : Position}
    (h : loadStateLine isV2 line = some (X, pos)) :
    Text.Word X ∧ X.head? ≠ some '#' ∧ ∀ t ∈ pos.2, Text.Word t := by
  have hword : ∀ w ∈ Text.splitWords (Text.strip line), Text.Word w := fun _ hw => Text.word_of_mem_splitWords hw
  have hfirst : ∀ w words, Text.splitWords (Text.strip line) = w :: words → w.head? = (Text.strip line).head? :=
    fun _ _ hw => Text.head?_splitWords hw
  have hhead : ∀ words : List Text, (∀ w ∈ words, Text.Word w) → ∀ t ∈ words.head?, Text.Word t :=
    fun words h t ht => h t (List.mem_of_mem_head? ht)
  rw [loadStateLine] at h
  simp only at h
  split at h
  · cases h
  rename_i hcomment
  rw [not_or] at hcomment
  rcases hsplit : Text.splitWords (Text.strip line) with _ | ⟨w, _ | ⟨w', rest⟩⟩
  · cases isV2 <;> simp [hsplit, stateFields] at h
  · cases isV2 <;> simp [hsplit, stateFields] at h
  rw [hsplit] at hword h
  have hhash : w.head? ≠ some '#' := hfirst w (w' :: rest) hsplit ▸ hcomment.2
  cases isV2 with
  | true =>
    simp only [stateFields, if_true, Option.bind_eq_bind, Option.bind_some, Option.bind_eq_some_iff, Option.pure_def,
      Option.some.injEq, Prod.mk.injEq] at h
    obtain ⟨seqnum, -, rfl, rfl⟩ := h
    exact ⟨hword w List.mem_cons_self, hhash, hhead rest fun v hv => hword v (by simp [hv])⟩
  | false =>
    rcases rest with _ | ⟨w'', rest⟩
    · simp [stateFields] at h
    simp only [stateFields, Bool.false_eq_true, if_false, Option.bind_eq_bind, Option.bind_some,
      Option.bind_eq_some_iff, Option.pure_def, Option.some.injEq, Prod.mk.injEq] at h
    obtain ⟨seqnum, -, rfl, rfl⟩ := h
    have hw := hword w List.mem_cons_self
    refine ⟨?_, ?_, hhead rest fun v hv => hword v (by simp [hv])⟩
    · split
      · decide
      · refine ⟨by simp, fun c hc => ?_⟩
        rcases List.mem_append.1 hc with hc | hc
        · exact hw.noSpace c hc
        rcases List.mem_cons.1 hc with rfl | hc
        · decide
        · exact (hword w' (by simp)).noSpace c hc
    · split
      · decide
      · rwa [List.head?_append_of_ne_nil _ hw.ne_nil]

theorem loadState_spec {content X : Text} {pos : Position} (h : (loadState content).lookup X = some pos) :
    Text.Word X ∧ X.head? ≠ some '#' ∧ ∀ t ∈ pos.2, Text.Word t := by
  have hfold : ∀ (entries : List (Text × Position)) (state : RecoveredState),
      (∀ X pos, state.lookup X = some pos → Text.Word X ∧ X.head? ≠ some '#' ∧ ∀ t ∈ pos.2, Text.Word t) →
      (∀ e ∈ entries, Text.Word e.1 ∧ e.1.head? ≠ some '#' ∧ ∀ t ∈ e.2.2, Text.Word t) →
      ∀ X pos, (entries.foldl (fun state e => state.insert e.1 e.2) state).lookup X = some pos →
        Text.Word X ∧ X.head? ≠ some '#' ∧ ∀ t ∈ pos.2, Text.Word t := by
    intro entries
    induction entries with
    | nil => exact fun _ hstate _ => hstate
    | cons e entries ih =>
      intro state hstate hentries
      refine ih _ (fun X pos hX => ?_) fun e' he' => hentries e' (List.mem_cons_of_mem _ he')
      by_cases hXe : X = e.1
      · subst hXe
        rw [AList.lookup_insert, Option.some.injEq] at hX
        exact hX ▸ hentries e List.mem_cons_self
      · rw [AList.lookup_insert_ne hXe] at hX
        exact hstate X pos hX
  refine hfold _ ∅ (by simp) (fun e he => ?_) X pos h
  obtain ⟨line, -, hline⟩ := List.mem_filterMap.1 he
  exact loadStateLine_spec hline

end entries

section saved
variable [Unicode] [Pymseed] {faults : Faults} {streams : List Stream} {text : Text}

omit [Unicode] in
theorem stateLines_ok : ∀ {streams : List Stream} {n : Nat} {text : Text},
    (stateLines faults n streams).1 = .ok text → ∃ lines, text = lines.flatten ∧
      List.Forall₂ (fun s line => ∃ seq, sequenceText s.seqnum = .ok seq ∧
        line = stateLine s.stationId seq s.resolveTimestamp.timestamp) streams lines
  | [], _, _, h => by
    obtain rfl := Except.ok.inj h
    exact ⟨[], rfl, .nil⟩
  | s :: rest, n, text, h => by
    unfold stateLines at h
    split at h
    · cases h
    · rename_i seq hseq
      simp only at h
      split at h
      · cases h
      · rcases hrest : (stateLines faults (n + 1) rest).1 with e | t
        · rw [hrest] at h
          cases h
        · rw [hrest] at h
          obtain rfl := Except.ok.inj h
          obtain ⟨lines, rfl, hlines⟩ := stateLines_ok hrest
          refine ⟨_, (List.flatten_cons ..).symm, .cons ⟨seq, hseq, ?_⟩ hlines⟩
          rw [resolveTimestamp_stationId]

omit [Unicode] in
theorem saveState_ok (h : (saveState faults streams).1 = .ok text) :
    ∃ lines, text = headerV2 ++ '\n' :: lines.flatten ∧ List.Forall₂ (fun s line => ∃ seq,
      sequenceText s.seqnum = .ok seq ∧ line = stateLine s.stationId seq s.resolveTimestamp.timestamp)
      streams lines := by
  unfold saveState at h
  split at h
  · cases h
  · simp only at h
    split at h
    · rcases hlines : (stateLines faults 1 streams).1 with e | t
      · rw [hlines] at h
        cases h
      · rw [hlines] at h
        cases h
    · rcases hlines : (stateLines faults 1 streams).1 with e | t
      · rw [hlines] at h
        cases h
      · rw [hlines] at h
        obtain rfl := Except.ok.inj h
        obtain ⟨lines, rfl, hl⟩ := stateLines_ok hlines
        exact ⟨lines, rfl, hl⟩

/-- What a saved file says of `X`: a position of one of its streams. -/
theorem lookup_saveState {X : Text} {P : Option Int → Prop} (h : (saveState faults streams).1 = .ok text)
    (hX : Text.Word X) (hhash : X.head? ≠ some '#') (hmem : ∃ s ∈ streams, s.stationId = X)
    (hself : ∀ s ∈ streams, s.stationId = X → s.seqnum ≠ some (-1) ∧ P s.seqnum)
    (hother : ∀ s ∈ streams, s.stationId = X ∨ ¬ Mistakable X s.stationId)
    (htime : ∀ s ∈ streams, Unbroken s.resolveTimestamp.timestamp) :
    ∃ pos, (loadState (Text.universalNewlines text)).lookup X = some pos ∧ P pos.1 := by
  obtain ⟨lines, rfl, hlines⟩ := saveState_ok h
  have hline : ∀ {s : Stream} {seq : Text}, s ∈ streams → s.stationId = X → sequenceText s.seqnum = .ok seq →
      stateEntries (stateLine s.stationId seq s.resolveTimestamp.timestamp) =
        [(X, s.seqnum, if truthy s.resolveTimestamp.timestamp then s.resolveTimestamp.timestamp else none)] := by
    intro s seq hs hid hseq
    rw [stateEntries_stateLine (hid ▸ hX) (word_sequenceText hseq) (htime s hs).word, hid, if_neg hhash,
      stateSeqnum_of_sequenceText hseq (hself s hs hid).1]
    rfl
  have hends : ∀ line ∈ lines, ∃ t, line = t ++ ['\n'] := by
    intro line hl
    obtain ⟨s, -, seq, -, rfl⟩ := exists_of_forall₂ hlines.flip hl
    exact ⟨_, rfl⟩
  rw [loadState_header, stateEntries_flatten hends]
  refine lookup_foldl_insert (P := fun pos => P pos.1) ?_ (fun e he hid => ?_) ∅
  · obtain ⟨s, hs, hid⟩ := hmem
    obtain ⟨line, hl, seq, hseq, rfl⟩ := exists_of_forall₂ hlines hs
    have hentry := hline hs hid hseq
    exact ⟨_, List.mem_flatMap.2 ⟨_, hl, hentry ▸ List.mem_singleton_self _⟩, rfl⟩
  · obtain ⟨line, hl, he⟩ := List.mem_flatMap.1 he
    obtain ⟨s, hs, seq, hseq, rfl⟩ := exists_of_forall₂ hlines.flip hl
    rcases hother s hs with hX' | hno
    · rw [hline hs hX' hseq, List.mem_singleton] at he
      rw [he]
      exact (hself s hs hX').2
    · exact absurd ⟨_, seq, _, hseq, htime s hs, e, he, hid⟩ hno

end saved

namespace Base

def saveState [Pymseed] (faults : Faults) : BaseM Text := fun b =>
  let saved := SeedLink.saveState faults b.streams
  match saved.1 with
  | .ok text => .ok text { b with streams := saved.2 }
  | .error e => .error e { b with streams := saved.2 }

/-- `recover_state`; `file` is what reading the state file gives. -/
def recoverState [Unicode] (file : Except Exn Text) : BaseM Unit := fun b =>
  match file with
  | .error e => .error e b
  | .ok content =>
    let recovered := loadState content ∪ b.recoveredState
    .ok ⟨⟩ { b with streams := b.streams.map (applyRecoveredState recovered),
                    recoveredState := recovered }

end Base

end SeedLink
