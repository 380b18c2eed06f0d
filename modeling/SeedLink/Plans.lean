import SeedLink.Client

/-!
# What planning does to the streams

Planning a negotiation reads the streams; all it may change is to resolve the timestamp of a pending
packet (`Resolves`). `prepareNegotiation` so keeps every stream at its place, with its position.
-/

namespace SeedLink

section plans
variable [Pymseed] {s s' : Stream}

/-- `s'` is `s`, its timestamp perhaps resolved. -/
def Resolves (s s' : Stream) : Prop := s' = s ∨ s' = s.resolveTimestamp

theorem resolveTimestamp_of_none (h : s.pendingPacket = none) : s.resolveTimestamp = s := by
  simp [Stream.resolveTimestamp, h]

@[simp] theorem resolveTimestamp_stationId : s.resolveTimestamp.stationId = s.stationId := by
  unfold Stream.resolveTimestamp
  split
  · rfl
  · split <;> rfl

@[simp] theorem resolveTimestamp_seqnum : s.resolveTimestamp.seqnum = s.seqnum := by
  unfold Stream.resolveTimestamp
  split
  · rfl
  · split <;> rfl

@[simp] theorem resolveTimestamp_allData : s.resolveTimestamp.allData = s.allData := by
  unfold Stream.resolveTimestamp
  split
  · rfl
  · split <;> rfl

@[simp] theorem resolveTimestamp_selectors : s.resolveTimestamp.selectors = s.selectors := by
  unfold Stream.resolveTimestamp
  split
  · rfl
  · split <;> rfl

namespace Resolves

theorem stationId (h : Resolves s s') : s'.stationId = s.stationId := by
  rcases h with rfl | rfl <;> simp

theorem seqnum (h : Resolves s s') : s'.seqnum = s.seqnum := by
  rcases h with rfl | rfl <;> simp

theorem allData (h : Resolves s s') : s'.allData = s.allData := by
  rcases h with rfl | rfl <;> simp

theorem selectors (h : Resolves s s') : s'.selectors = s.selectors := by
  rcases h with rfl | rfl <;> simp

/-- Without a pending packet there is nothing to resolve. -/
theorem eq_of_none (h : Resolves s s') (hs : s.pendingPacket = none) : s' = s := by
  rcases h with rfl | rfl
  · rfl
  · exact resolveTimestamp_of_none hs

theorem stationIds {l l' : List Stream} (h : List.Forall₂ Resolves l l') :
    l'.map (·.stationId) = l.map (·.stationId) := by
  induction h with
  | nil => rfl
  | cons hr _ ih => rw [List.map_cons, List.map_cons, hr.stationId, ih]

end Resolves

end plans

theorem resolves_planStreams [Pymseed] {plan : Stream → Except Exn (List Command) × Stream}
    (h : ∀ s, Resolves s (plan s).2) :
    ∀ streams, List.Forall₂ Resolves streams (planStreams plan streams).2
  | [] => .nil
  | s :: rest => by
    have hs := h s
    unfold planStreams
    split
    · rename_i heq
      rw [heq] at hs
      exact .cons hs (List.forall₂_same.2 fun _ _ => .inl rfl)
    · rename_i heq
      rw [heq] at hs
      exact .cons hs (resolves_planStreams h rest)

section planners
variable [Pymseed] [Unicode] [Iso8601] {args : NegotiationArgs}

theorem resolves_resumeTimestamp (seqnum : Option Int) (s : Stream) :
    Resolves s (resumeTimestamp args seqnum s).2 := by
  unfold resumeTimestamp
  split
  · right
    simp only
    split
    · split
      · rfl
      · split <;> rfl
    · rfl
  · exact .inl rfl

theorem resolves_requestV3 (startStr endStr : Option Text) (expectReply : Bool) (s : Stream) :
    Resolves s (requestV3 args startStr endStr expectReply s).2 := by
  have h := @resolves_resumeTimestamp _ _ _ args (args.resumeSeqnum s) s
  unfold requestV3
  split
  · exact .inl rfl
  · simp only
    split <;> rename_i heq <;> rw [heq] at h <;> exact h

theorem resolves_planNegotiation (streams : List Stream) :
    List.Forall₂ Resolves streams (planNegotiation args streams).2 := by
  have hrefl : List.Forall₂ Resolves streams streams := List.forall₂_same.2 fun _ _ => .inl rfl
  unfold planNegotiation
  split
  · exact hrefl
  · exact hrefl
  · rename_i startStr endStr _ _
    split
    · exact resolves_planStreams (fun s => .inl rfl) streams
    · unfold planNegotiationV3
      split
      · exact resolves_planStreams (fun s => resolves_requestV3 _ _ _ s) streams
      · split
        · exact .cons (resolves_requestV3 _ _ _ _) .nil
        · exact hrefl

end planners

/-! ### What planning raises -/

theorem exists_of_bind_error {α β ε : Type} {x : Except ε α} {f : α → Except ε β} {e : ε}
    (h : x >>= f = .error e) : x = .error e ∨ ∃ a, x = .ok a ∧ f a = .error e := by
  cases x with
  | error e' => cases h; exact .inl rfl
  | ok a => exact .inr ⟨a, rfl, h⟩

/-- A map raises what it is a map of. -/
theorem error_of_map {α β ε : Type} {x : Except ε α} {f : α → β} {e : ε} (h : x.map f = .error e) :
    x = .error e := by
  cases x with
  | error e' => cases h; rfl
  | ok a => cases h

theorem windowWords_error {e : Exn} {start stop : Option DateTime}
    (h : Commands.windowWords start stop = .error e) : e = .overflowError := by
  unfold Commands.windowWords at h
  split at h
  · cases h
  rcases exists_of_bind_error h with h | ⟨w, -, h⟩
  · exact toIsoTimestring_error h
  split at h
  · cases h
  rcases exists_of_bind_error h with h | ⟨w', -, h⟩
  · exact toIsoTimestring_error h
  · cases h

theorem str_error {e : Exn} {n : Int} (h : Commands.str n = .error e) : e.Plain := by
  unfold Commands.str at h
  split at h <;> cases h
  exact ⟨rfl, nofun⟩

theorem dataV4_error {e : Exn} {stationId : Text} {seqnum : Option Int} {allData : Bool}
    {start stop : Option DateTime} (h : Commands.dataV4 stationId seqnum allData start stop = .error e) :
    e.Plain := by
  have hrest : ∀ position : List Text, (do
      let window ← Commands.windowWords start stop
      return ({ text := joinWords ("DATA".toList :: position ++ window), parse := some .expectOk,
                terminator := cr, role := .data, streamId := some stationId } : Command)) = .error e →
      e.Plain := by
    intro position h
    rcases exists_of_bind_error h with h | ⟨w, -, h⟩
    · rw [windowWords_error h]; exact ⟨rfl, nofun⟩
    · cases h
  unfold Commands.dataV4 at h
  cases seqnum with
  | none => exact hrest _ h
  | some n =>
    rcases exists_of_bind_error h with h | ⟨t, -, h⟩
    · exact str_error h
    · exact hrest [t] h

theorem planStreams_error {e : Exn} {plan : Stream → Except Exn (List Command) × Stream}
    (h : ∀ s, (plan s).1 = .error e → e.Plain) :
    ∀ {streams : List Stream}, (planStreams plan streams).1 = .error e → e.Plain
  | [], hp => by cases hp
  | s :: rest, hp => by
    unfold planStreams at hp
    cases hs : plan s with
    | mk res s' =>
      rw [hs] at hp
      cases res with
      | error e' =>
        cases hp
        exact h s (by rw [hs])
      | ok cmds =>
        have hp' : (planStreams plan rest).1.map (cmds ++ ·) = .error e := hp
        cases hrest : (planStreams plan rest).1 with
        | error e' =>
          rw [hrest] at hp'
          cases hp'
          exact planStreams_error h hrest
        | ok cmds' => rw [hrest] at hp'; cases hp'

theorem planStreamV4_error [Unicode] {args : NegotiationArgs} {e : Exn} {s : Stream} (h : planStreamV4 args s = .error e) :
    e.Plain := by
  unfold planStreamV4 at h
  simp only at h
  rcases exists_of_bind_error h with h | ⟨data, -, h⟩
  · exact dataV4_error h
  · cases h

section planners
variable [Pymseed] [Unicode] [Iso8601] {args : NegotiationArgs} {e : Exn}

theorem requestV3_error {startStr endStr : Option Text} {expectReply : Bool} {s : Stream}
    (h : (requestV3 args startStr endStr expectReply s).1 = .error e) : e.Plain := by
  unfold requestV3 at h
  split at h
  · cases h
  · simp only at h
    split at h
    · cases h
    · rename_i hts
      cases h
      unfold resumeTimestamp at hts
      simp only at hts
      split at hts
      · split at hts
        · split at hts
          · cases hts
          · rename_i ht
            split at hts <;> cases hts
            cases hparse : parseTimestring (s.resolveTimestamp.timestamp.getD []) with
            | error e' =>
              rw [hparse] at ht
              cases ht
              exact parseTimestring_error hparse
            | ok dt =>
              rw [hparse] at ht
              rw [toCommaTimestring_error ht]
              exact ⟨rfl, nofun⟩
        · cases hts
      · cases hts

/-- Planning raises no `SeedLinkError` of its own but for the number of streams in uni-station mode. -/
theorem planNegotiation_error {streams : List Stream} (h : (planNegotiation args streams).1 = .error e) :
    e.Plain ∨ (e.isSeedLinkError = true ∧ args.multistation = false ∧ streams.length ≠ 1) := by
  have htime : ∀ {t : Option DateTime} {e : Exn}, t.mapM toCommaTimestring = .error e →
      e.Plain := by
    intro t e ht
    cases t with
    | none => cases ht
    | some dt =>
      rcases exists_of_bind_error ht with ht | ⟨w, -, ht⟩
      · rw [toCommaTimestring_error ht]; exact ⟨rfl, nofun⟩
      · cases ht
  unfold planNegotiation at h
  split at h
  · cases h; exact .inl (htime ‹_›)
  · cases h; exact .inl (htime ‹_›)
  split at h
  · exact .inl (planStreams_error (fun s => planStreamV4_error) (error_of_map h))
  unfold planNegotiationV3 at h
  split at h
  · refine .inl (planStreams_error (fun s hs => ?_) (error_of_map h))
    unfold planStreamV3 at hs
    exact requestV3_error (error_of_map hs)
  · rename_i hmulti
    split at h
    · exact .inl (requestV3_error (error_of_map h))
    · rename_i hne
      cases h
      refine .inr ⟨rfl, by simpa using hmulti, fun hlen => ?_⟩
      obtain ⟨s, hs⟩ := List.length_eq_one_iff.1 hlen
      exact hne s hs

end planners

/-! ### Preparing a negotiation -/

namespace Base

theorem getElem?_writeBack (places : List Nat) (new streams : List Stream) (i : Nat) :
    (writeBack streams places new)[i]? = streams[i]? ∨
      ∃ x, (i, x) ∈ places.zip new ∧ (writeBack streams places new)[i]? = some x := by
  unfold writeBack
  generalize places.zip new = l
  induction l generalizing streams with
  | nil => exact .inl rfl
  | cons p l ih =>
    obtain ⟨k, x⟩ := p
    rw [List.foldl_cons]
    rcases ih (streams.set k x) with h | ⟨y, hy, h⟩
    · rw [List.getElem?_set] at h
      split at h
      · rename_i hk
        obtain rfl : k = i := hk
        split at h
        · exact .inr ⟨x, List.mem_cons_self, h⟩
        · exact .inl (h.trans (List.getElem?_eq_none (by omega)).symm)
      · exact .inl h
    · exact .inr ⟨y, List.mem_cons_of_mem _ hy, h⟩

theorem length_writeBack (places : List Nat) (new streams : List Stream) :
    (writeBack streams places new).length = streams.length := by
  unfold writeBack
  generalize places.zip new = l
  induction l generalizing streams with
  | nil => rfl
  | cons p l ih => rw [List.foldl_cons, ih, List.length_set]

/-- What a planner gives back for things sent in some order, found at their places. -/
theorem exists_of_mem_zip {α β γ δ : Type} {R : β → δ → Prop} {f : α → β} {g : α → γ} {k : γ} {x : δ} :
    ∀ {l : List α} {new : List δ}, List.Forall₂ R (l.map f) new → (k, x) ∈ (l.map g).zip new →
      ∃ a ∈ l, g a = k ∧ R (f a) x
  | [], _, _, hx => by simp at hx
  | a :: l, _ :: new, .cons hr h, hx => by
    rw [List.map_cons, List.zip_cons_cons, List.mem_cons] at hx
    rcases hx with heq | hx
    · cases heq
      exact ⟨a, List.mem_cons_self, rfl, hr⟩
    · obtain ⟨a', ha', hg, hr'⟩ := exists_of_mem_zip h hx
      exact ⟨a', List.mem_cons_of_mem _ ha', hg, hr'⟩

theorem mem_sendOrder {b : Base} {s : Stream} {i : Nat} :
    (s, i) ∈ b.sendOrder ↔ b.streams[i]? = some s := by
  rw [sendOrder, mem_sortByStation, List.mem_zipIdx_iff_getElem?]

theorem ensureDefaultStream_streams {b : Base} : b.ensureDefaultStream.streams =
    if b.streams = [] then [applyRecoveredState b.recoveredState { stationId := ['*'] }]
    else b.streams := by
  unfold ensureDefaultStream
  simp only [List.isEmpty_iff]
  split <;> rfl

theorem sendOrder_singleton {b : Base} {s : Stream} (h : b.streams = [s]) : b.sendOrder.map (·.1) = [s] := by
  unfold sendOrder
  rw [h]
  rfl

section prepare
variable [Externals] {args : NegotiationArgs} {b : Base}

/-- Every stream stays where it is, the default stream included. -/
theorem prepareNegotiation_streams {i : Nat} {s : Stream}
    (h : b.ensureDefaultStream.streams[i]? = some s) :
    ∃ s', (b.prepareNegotiation args).2.streams[i]? = some s' ∧ Resolves s s' := by
  have hens : ({ b with matchCache := ∅ } : Base).ensureDefaultStream.streams[i]? = some s := by
    rw [← h, ensureDefaultStream_streams, ensureDefaultStream_streams]
  show ∃ s', (writeBack _ _ _)[i]? = some s' ∧ _
  generalize ({ b with matchCache := ∅ } : Base).ensureDefaultStream = b' at hens
  rcases getElem?_writeBack (b'.sendOrder.map (·.2)) (planNegotiation args (b'.sendOrder.map (·.1))).2
    b'.streams i with heq | ⟨x, hx, heq⟩
  · exact ⟨s, heq.trans hens, .inl rfl⟩
  · obtain ⟨⟨t, k⟩, hmem, rfl, hr⟩ := exists_of_mem_zip (resolves_planNegotiation _) hx
    rw [mem_sendOrder] at hmem
    obtain rfl : s = t := Option.some.inj (hens.symm.trans hmem)
    exact ⟨x, heq, hr⟩

theorem prepareNegotiation_length :
    (b.prepareNegotiation args).2.streams.length = b.ensureDefaultStream.streams.length := by
  show (writeBack _ _ _).length = _
  rw [length_writeBack, ensureDefaultStream_streams, ensureDefaultStream_streams]

/-- What the flags, the recovered positions and the window are afterwards. -/
theorem prepareNegotiation_rest : (b.prepareNegotiation args).2 =
    { b with matchCache := ∅, streams := (b.prepareNegotiation args).2.streams } := by
  have hens : ∀ b : Base, { b with streams := b.ensureDefaultStream.streams } = b.ensureDefaultStream := by
    intro b
    unfold ensureDefaultStream
    split <;> rfl
  show ({ ensureDefaultStream _ with streams := _ } : Base) = _
  rw [← hens]
  rfl

theorem prepareNegotiation_matchCache : (b.prepareNegotiation args).2.matchCache = ∅ := by
  rw [prepareNegotiation_rest]

theorem prepareNegotiation_recoveredState :
    (b.prepareNegotiation args).2.recoveredState = b.recoveredState := by
  rw [prepareNegotiation_rest]

theorem resolves_prepareNegotiation :
    List.Forall₂ Resolves b.ensureDefaultStream.streams (b.prepareNegotiation args).2.streams := by
  refine List.forall₂_iff_get.2 ⟨prepareNegotiation_length.symm, fun i hi hi' => ?_⟩
  obtain ⟨s', hs', hr⟩ := @prepareNegotiation_streams _ args b i b.ensureDefaultStream.streams[i]
    (List.getElem?_eq_getElem hi)
  have heq := (List.getElem?_eq_some_iff.1 hs').2
  rw [List.get_eq_getElem, List.get_eq_getElem, heq]
  exact hr

end prepare

end Base

end SeedLink
