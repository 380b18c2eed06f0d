import SeedLink.Recovery

/-!
# Saving and loading

What has been saved is loaded again as the positions of the streams, as long as it can be written as words: the
fields of a line stand between blanks and nothing quotes them. A timestamp with white space in it, which the time
parser takes, comes back cut off, and a number too long to be printed stops the save (`roundTrips_iff`).
-/

namespace SeedLink

theorem lookup_foldl_insert_iff {κ β : Type} [DecidableEq κ] {entries : List (κ × β)} (h : (entries.map (·.1)).Nodup)
    {k : κ} {v : β} :
    (entries.foldl (fun m e => m.insert e.1 e.2) (∅ : AList fun _ : κ => β)).lookup k = some v ↔ (k, v) ∈ entries := by
  induction entries using List.reverseRecOn with
  | nil => simp
  | append_singleton entries e ih =>
    rw [List.map_append, List.map_singleton, List.nodup_append] at h
    obtain ⟨hentries, -, hnew⟩ := h
    rw [List.foldl_concat, List.mem_append, List.mem_singleton]
    by_cases hk : k = e.1
    · subst hk
      have hno : (e.1, v) ∉ entries := fun hmem =>
        hnew _ (List.mem_map_of_mem (f := fun e => e.1) hmem) _ (List.mem_singleton_self _) rfl
      rw [AList.lookup_insert, Option.some.injEq]
      constructor
      · rintro rfl
        exact .inr rfl
      · rintro (hmem | heq)
        · exact absurd hmem hno
        · rw [← heq]
    · have hne : (k, v) ≠ e := fun heq => hk (congrArg Prod.fst heq)
      rw [AList.lookup_insert_ne hk, ih hentries]
      simp [hne]

/-- Every step on the file goes through. -/
def noFaults : Faults := fun _ => none

/-- The number can be printed. -/
def Printable (seqnum : Option Int) : Prop := ∀ n ∈ seqnum, (Text.numeral 10 n.natAbs).length ≤ Text.maxStrDigits

theorem printable_iff {seqnum : Option Int} : Printable seqnum ↔ ∃ seq, sequenceText seqnum = .ok seq := by
  unfold Printable sequenceText
  cases seqnum with
  | none => simp
  | some n =>
    simp only [Option.mem_some_iff, forall_eq']
    unfold Commands.str Text.strInt
    by_cases hlen : (Text.numeral 10 n.natAbs).length ≤ Text.maxStrDigits
    · simp [hlen]
    · simp [hlen]

section save
variable [Pymseed] {streams : List Stream}

theorem stateLines_noFaults {n : Nat} (h : ∀ s ∈ streams, Printable s.seqnum) :
    ∃ text, (stateLines noFaults n streams).1 = .ok text := by
  induction streams generalizing n with
  | nil => exact ⟨_, rfl⟩
  | cons s rest ih =>
    obtain ⟨seq, hseq⟩ := printable_iff.1 (h s List.mem_cons_self)
    obtain ⟨text, htext⟩ := @ih (n + 1) fun s hs => h s (List.mem_cons_of_mem _ hs)
    unfold stateLines
    rw [hseq]
    simp only [noFaults, htext]
    exact ⟨_, rfl⟩

theorem saveState_noFaults (h : ∀ s ∈ streams, Printable s.seqnum) :
    ∃ text, (saveState noFaults streams).1 = .ok text := by
  obtain ⟨text, htext⟩ := @stateLines_noFaults _ streams 1 h
  unfold saveState
  simp only [noFaults, htext]
  exact ⟨_, rfl⟩

end save

section roundtrip
variable [Unicode] [Pymseed] {streams : List Stream}

/-- What is loaded from the saved file are the positions of the streams. -/
def RoundTrips (streams : List Stream) : Prop :=
  ∃ text, (saveState noFaults streams).1 = .ok text ∧
    ∀ X pos, (loadState (Text.universalNewlines text)).lookup X = some pos ↔
      ∃ s ∈ streams, s.stationId = X ∧ s.position = pos

/-- Words are read back as they have been written. -/
theorem flatMap_stateEntries {lines : List Text} (hlines : List.Forall₂ (fun s line => ∃ seq,
      sequenceText s.seqnum = .ok seq ∧ line = stateLine s.stationId seq s.resolveTimestamp.timestamp) streams lines)
    (hid : ∀ s ∈ streams, Text.Word s.stationId ∧ s.stationId.head? ≠ some '#')
    (hseq : ∀ s ∈ streams, s.seqnum ≠ some (-1)) (htime : ∀ s ∈ streams, ∀ t ∈ s.position.2, Text.Word t) :
    lines.flatMap stateEntries = streams.map fun s => (s.stationId, s.position) := by
  induction hlines with
  | nil => rfl
  | @cons s line streams lines hline _ ih =>
    obtain ⟨seq, htext, rfl⟩ := hline
    obtain ⟨hword, hhash⟩ := hid s List.mem_cons_self
    have ht : ∀ t ∈ s.resolveTimestamp.timestamp, Text.Word t := htime s List.mem_cons_self
    have htimestamp : (if truthy s.resolveTimestamp.timestamp then s.resolveTimestamp.timestamp else none) =
        s.resolveTimestamp.timestamp := by
      cases hts : s.resolveTimestamp.timestamp with
      | none => rfl
      | some t => simp [truthy, (ht t hts).ne_nil]
    rw [List.flatMap_cons, List.map_cons, ih (fun s hs => hid s (List.mem_cons_of_mem _ hs))
        (fun s hs => hseq s (List.mem_cons_of_mem _ hs)) (fun s hs => htime s (List.mem_cons_of_mem _ hs)),
      stateEntries_stateLine hword (word_sequenceText htext) (fun t ht' _ => ht t ht'), if_neg hhash,
      stateSeqnum_of_sequenceText htext (hseq s List.mem_cons_self), htimestamp]
    rfl

/-- A file round-trips exactly when its numbers can be printed and its timestamps are words. -/
theorem roundTrips_iff (hdistinct : (streams.map (·.stationId)).Nodup)
    (hid : ∀ s ∈ streams, Text.Word s.stationId ∧ s.stationId.head? ≠ some '#')
    (hseq : ∀ s ∈ streams, ∀ n ∈ s.seqnum, 0 ≤ n) :
    RoundTrips streams ↔ ∀ s ∈ streams, Printable s.seqnum ∧ ∀ t ∈ s.position.2, Text.Word t := by
  constructor
  · rintro ⟨text, htext, hlookup⟩ s hs
    obtain ⟨lines, -, hlines⟩ := saveState_ok htext
    obtain ⟨line, -, seq, hseq', -⟩ := exists_of_forall₂ hlines hs
    exact ⟨printable_iff.2 ⟨seq, hseq'⟩, (loadState_spec ((hlookup _ _).2 ⟨s, hs, rfl, rfl⟩)).2.2⟩
  · intro h
    obtain ⟨text, htext⟩ := saveState_noFaults fun s hs => (h s hs).1
    refine ⟨text, htext, fun X pos => ?_⟩
    obtain ⟨lines, rfl, hlines⟩ := saveState_ok htext
    have hends : ∀ line ∈ lines, ∃ t, line = t ++ ['\n'] := by
      intro line hl
      obtain ⟨s, -, seq, -, rfl⟩ := exists_of_forall₂ hlines.flip hl
      exact ⟨_, rfl⟩
    have hne : ∀ s ∈ streams, s.seqnum ≠ some (-1) := by
      intro s hs heq
      have := hseq s hs (-1) heq
      omega
    rw [loadState_header, stateEntries_flatten hends, flatMap_stateEntries hlines hid hne fun s hs => (h s hs).2,
      lookup_foldl_insert_iff (by simpa [List.map_map, Function.comp_def] using hdistinct)]
    simp only [List.mem_map, Prod.mk.injEq]

end roundtrip

def savedFive (timestamp : Text) : Stream :=
  { stationId := "A_B".toList, seqnum := some 5, timestamp := some timestamp }

/-- A time with blanks behind its commas is cut off at the first one. -/
theorem not_roundTrips_blanks :
    (∃ dt, @parseTimestring Externals.bare.toUnicode Externals.bare.toIso8601 "2024, 1, 2".toList = .ok dt) ∧
      (∃ text, (@saveState Pymseed.bare noFaults [savedFive "2024, 1, 2".toList]).1 = .ok text ∧
        (@loadState Externals.bare.toUnicode (Text.universalNewlines text)).lookup "A_B".toList =
          some (some 5, some "2024,".toList)) ∧
      ¬ @RoundTrips Externals.bare.toUnicode Pymseed.bare [savedFive "2024, 1, 2".toList] := by
  refine ⟨⟨_, rfl⟩, ⟨_, rfl, by decide +kernel⟩, ?_⟩
  rintro ⟨text, -, hlookup⟩
  have hword := (@loadState_spec Externals.bare.toUnicode _ _ _
    ((hlookup _ _).2 ⟨_, List.mem_singleton_self _, rfl, rfl⟩)).2.2 "2024, 1, 2".toList rfl
  have := hword.noSpace ' ' (by decide)
  cases this

theorem roundTrips_iff_comma :
    @RoundTrips Externals.bare.toUnicode Pymseed.bare [savedFive "2024,1,2".toList] := by
  refine (@roundTrips_iff Externals.bare.toUnicode Pymseed.bare [savedFive "2024,1,2".toList] (by decide) ?_ ?_).2 ?_
  all_goals
    intro s hs
    obtain rfl := List.mem_singleton.1 hs
  · exact ⟨by decide, by decide⟩
  · rintro n ⟨⟩
    decide
  · refine ⟨?_, ?_⟩
    · rintro n ⟨⟩
      decide
    · rintro t ⟨⟩
      decide

end SeedLink
