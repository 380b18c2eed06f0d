import SeedLink.Blindness
import SeedLink.Interchange
import SeedLink.Lib.Stable
import SeedLink.Recovery

/-!
# Stations in another order

Two selections are rearrangements of each other when they have the same streams for every station ID, in the
order in which these came (`Base.Rearranges`). Commands are sorted by station ID before they are sent, and
a packet finds its streams wherever they are; so a program gets the same from a client whose stations have
been added in another order, and the server hears the same (`script_rearranged`).
-/

namespace SeedLink

open StateExc Client

/-! ### The sending order -/

theorem sortLe_refl (x : Text) : sortLe x x := .inr ⟨rfl, List.lt_irrefl x⟩

theorem sortLe_antisymm (x y : Text) (h : sortLe x y) (h' : sortLe y x) : x = y := by
  unfold sortLe at h h'
  rcases h with h | ⟨h, hle⟩
  · rcases h' with h' | ⟨h', -⟩ <;> omega
  · rcases h' with h' | ⟨-, hle'⟩
    · omega
    · exact List.le_antisymm hle hle'

instance : Std.Total sortLe where
  total x y := by
    unfold sortLe
    rcases Nat.lt_trichotomy (sortRank x) (sortRank y) with h | h | h
    · exact .inl (.inl h)
    · exact (List.le_total x y).imp (fun hle => .inr ⟨h, hle⟩) fun hle => .inr ⟨h.symm, hle⟩
    · exact .inr (.inl h)

instance : IsTrans Text sortLe where
  trans x y z h h' := by
    unfold sortLe at h h' ⊢
    rcases h with h | ⟨h, hle⟩
    · exact .inl (by omega)
    · rcases h' with h' | ⟨h', hle'⟩
      · exact .inl (by omega)
      · exact .inr ⟨by omega, List.le_trans hle hle'⟩

/-- The streams of every station ID are sent in their order. -/
theorem filter_sortByStation {α : Type} (stationId : α → Text) (l : List α) (X : Text) :
    (sortByStation stationId l).filter (stationId · = X) = l.filter (stationId · = X) :=
  Stable.filter_key_insertionSort sortLe_refl l X

theorem sortByStation_eq_iff {α : Type} {stationId : α → Text} {l l' : List α} :
    sortByStation stationId l = sortByStation stationId l' ↔
      ∀ X, l.filter (stationId · = X) = l'.filter (stationId · = X) :=
  Stable.insertionSort_eq_iff sortLe_refl sortLe_antisymm

theorem fst_sendOrder (b : Base) : b.sendOrder.map (·.1) = sortStreams b.streams := by
  unfold Base.sendOrder sortStreams sortByStation
  rw [List.map_insertionSort _ (fun a b : Stream => sortLe a.stationId b.stationId) _ _ fun _ _ _ _ => .rfl,
    List.zipIdx_map_fst]

/-! ### Streams put back in their places -/

section places
variable {l : List (Nat × Stream)} {streams : List Stream} {i : Nat} {s : Stream}

theorem getElem?_foldl_set_of_not_mem (h : i ∉ l.map (·.1)) :
    (l.foldl (fun streams p => streams.set p.1 p.2) streams)[i]? = streams[i]? := by
  induction l generalizing streams with
  | nil => rfl
  | cons p l ih =>
    simp only [List.map_cons, List.mem_cons, not_or] at h
    rw [List.foldl_cons, ih h.2, List.getElem?_set_ne (Ne.symm h.1)]

theorem getElem?_foldl_set (hnodup : (l.map (·.1)).Nodup) (h : (i, s) ∈ l) (hi : i < streams.length) :
    (l.foldl (fun streams p => streams.set p.1 p.2) streams)[i]? = some s := by
  induction l generalizing streams with
  | nil => cases h
  | cons p l ih =>
    obtain ⟨hp, hnodup⟩ := List.nodup_cons.1 hnodup
    rw [List.foldl_cons]
    rcases List.mem_cons.1 h with rfl | h
    · rw [getElem?_foldl_set_of_not_mem hp, List.getElem?_set_self hi]
    · exact ih hnodup h (by rwa [List.length_set])

end places

section writeBack
variable {b : Base} {new : List Stream} {X : Text}

@[simp] theorem length_sendOrder (b : Base) : b.sendOrder.length = b.streams.length := by
  rw [Base.sendOrder, (perm_sortByStation _ _).length_eq, List.length_zipIdx]

theorem nodup_places (b : Base) : (b.sendOrder.map (·.2)).Nodup := by
  have hperm : (b.sendOrder.map (·.2)).Perm (List.range' 0 b.streams.length) := by
    rw [← List.zipIdx_map_snd 0 b.streams]
    exact (perm_sortByStation _ _).map _
  exact hperm.nodup_iff.2 List.nodup_range'

theorem map_filter_congr {α β γ : Type} {l : List α} {m : List β} {k : α → Text} {k' : β → Text} {v : α → γ} {v' : β → γ}
    (hk : l.map k = m.map k') (hv : l.map v = m.map v') :
    (l.filter (k · = X)).map v = (m.filter (k' · = X)).map v' := by
  induction l generalizing m with
  | nil =>
    obtain rfl := List.map_eq_nil_iff.1 hk.symm
    rfl
  | cons a l ih =>
    cases m with
    | nil => cases hk
    | cons b m =>
      simp only [List.map_cons, List.cons.injEq] at hk hv
      simp only [List.filter_cons, hk.1]
      split
      · simp only [List.map_cons, hv.1, ih hk.2 hv.2]
      · exact ih hk.2 hv.2

theorem fst_zip_places (h : new.length = b.streams.length) :
    ((b.sendOrder.map (·.2)).zip new).map (·.1) = b.sendOrder.map (·.2) := by
  refine List.map_fst_zip (Nat.le_of_eq ?_)
  rw [List.length_map, length_sendOrder, h]

theorem mem_zip_places_iff (h : new.length = b.streams.length) {i : Nat} {s : Stream} :
    (i, s) ∈ (b.sendOrder.map (·.2)).zip new ↔
      (Base.writeBack b.streams (b.sendOrder.map (·.2)) new)[i]? = some s := by
  have hput : ∀ s, (i, s) ∈ (b.sendOrder.map (·.2)).zip new →
      (Base.writeBack b.streams (b.sendOrder.map (·.2)) new)[i]? = some s := by
    intro s his
    refine getElem?_foldl_set ?_ his ?_
    · rw [fst_zip_places h]
      exact nodup_places b
    · have hi := List.mem_map_of_mem (f := (·.1)) his
      rw [fst_zip_places h] at hi
      obtain ⟨⟨t, k⟩, ht, rfl⟩ := List.mem_map.1 hi
      exact (List.getElem?_eq_some_iff.1 (Base.mem_sendOrder.1 ht)).1
  refine ⟨hput s, fun hs => ?_⟩
  obtain ⟨hi, -⟩ := List.getElem?_eq_some_iff.1 hs
  rw [Base.length_writeBack] at hi
  have hplace : i ∈ ((b.sendOrder.map (·.2)).zip new).map (·.1) := by
    rw [fst_zip_places h]
    exact List.mem_map.2 ⟨(b.streams[i], i), Base.mem_sendOrder.2 (List.getElem?_eq_getElem hi), rfl⟩
  obtain ⟨⟨k, t⟩, ht, rfl⟩ := List.mem_map.1 hplace
  obtain rfl := Option.some.inj ((hput t ht).symm.trans hs)
  exact ht

/-- The streams of every station ID are put back in their order. -/
theorem filter_writeBack (h : new.map (·.stationId) = b.sendOrder.map (·.1.stationId)) :
    (Base.writeBack b.streams (b.sendOrder.map (·.2)) new).filter (·.stationId = X) = new.filter (·.stationId = X) := by
  have hlength : new.length = b.streams.length := by simpa using congrArg List.length h
  generalize hz : (b.sendOrder.map (·.2)).zip new = z
  generalize hr : Base.writeBack b.streams (b.sendOrder.map (·.2)) new = r
  have hz₁ : z.map (·.1) = b.sendOrder.map (·.2) := hz ▸ fst_zip_places hlength
  have hz₂ : z.map (·.2) = new := by
    rw [← hz]
    exact List.map_snd_zip (by rw [List.length_map, length_sendOrder, hlength])
  have hplaces : (z.filter (·.2.stationId = X)).map (·.1) = (b.streams.zipIdx.filter (·.1.stationId = X)).map (·.2) := by
    rw [← filter_sortByStation (fun p : Stream × Nat => p.1.stationId)]
    refine map_filter_congr ?_ hz₁
    rw [Base.sendOrder] at h
    rw [← h, ← hz₂, List.map_map]
    rfl
  -- both lists of places and streams have the places in ascending order
  have hascending : ∀ {l : List Stream}, (l.zipIdx.filter (·.1.stationId = X)).Pairwise fun p q => p.2 < q.2 := by
    refine List.pairwise_map.1 (List.Pairwise.sublist (List.filter_sublist.map _) ?_)
    rw [List.zipIdx_map_snd]
    exact List.pairwise_lt_range'
  have hperm : (r.zipIdx.map Prod.swap).Perm z := by
    refine (List.perm_ext_iff_of_nodup (.of_map (·.1) ?_) (.of_map (·.1) ?_)).2 ?_
    · rw [List.map_map]
      show (r.zipIdx.map (·.2)).Nodup
      rw [List.zipIdx_map_snd]
      exact List.nodup_range'
    · rw [hz₁]
      exact nodup_places b
    · rintro ⟨i, s⟩
      rw [← hz, mem_zip_places_iff hlength, hr]
      simp [List.mem_zipIdx_iff_getElem?]
  have heq : (r.zipIdx.filter (·.1.stationId = X)).map Prod.swap = z.filter (·.2.stationId = X) := by
    have hr' : ((r.zipIdx.filter (·.1.stationId = X)).map Prod.swap).Pairwise fun p q => p.1 < q.1 :=
      List.pairwise_map.2 hascending
    refine List.Perm.eq_of_pairwise (fun p q _ _ hpq hqp => absurd hpq (Nat.lt_asymm hqp)) hr'
      (List.pairwise_map.1 ?_) ?_
    · rw [hplaces]
      exact List.pairwise_map.2 hascending
    · have := hperm.filter (·.2.stationId = X)
      rwa [List.filter_map] at this
  calc r.filter (·.stationId = X)
      = (r.zipIdx.map (·.1)).filter (·.stationId = X) := by rw [List.zipIdx_map_fst]
    _ = ((r.zipIdx.filter (·.1.stationId = X)).map Prod.swap).map (·.2) := by rw [List.filter_map, List.map_map]; rfl
    _ = (z.filter (·.2.stationId = X)).map (·.2) := by rw [heq]
    _ = (z.map (·.2)).filter (·.stationId = X) := by rw [List.filter_map]; rfl
    _ = new.filter (·.stationId = X) := by rw [hz₂]

end writeBack

/-! ### Rearranged selections -/

/-- The streams of every station ID are the same, and so is everything else but the cache. -/
structure Base.Rearranges (b b' : Base) : Prop where
  streams : ∀ X, b.streams.filter (·.stationId = X) = b'.streams.filter (·.stationId = X)
  recoveredState : b'.recoveredState = b.recoveredState
  multistation : b'.multistation = b.multistation
  allStations : b'.allStations = b.allStations
  startTime : b'.startTime = b.startTime
  endTime : b'.endTime = b.endTime
  cacheOk : b.CacheOk
  cacheOk' : b'.CacheOk

theorem filter_map_of_keeps {f : Stream → Stream} (hf : ∀ s, (f s).stationId = s.stationId) (l : List Stream) (X : Text) :
    (l.map f).filter (·.stationId = X) = (l.filter (·.stationId = X)).map f := by
  rw [List.filter_map]
  congr 2
  funext s
  simp [hf]

namespace Base.Rearranges
variable {b b' : Base}

theorem isEmpty (h : b.Rearranges b') : b'.streams.isEmpty = b.streams.isEmpty := by
  have hnil : ∀ l l' : List Stream, (∀ X, l.filter (·.stationId = X) = l'.filter (·.stationId = X)) → l = [] → l' = [] := by
    rintro _ l' heq rfl
    cases l' with
    | nil => rfl
    | cons s l' => simpa using heq s.stationId
  rw [Bool.eq_iff_iff, List.isEmpty_iff, List.isEmpty_iff]
  exact ⟨hnil _ _ fun X => (h.streams X).symm, hnil _ _ h.streams⟩

theorem sent (h : b.Rearranges b') : b'.sendOrder.map (·.1) = b.sendOrder.map (·.1) := by
  rw [fst_sendOrder, fst_sendOrder]
  exact sortByStation_eq_iff.2 fun X => (h.streams X).symm

/-- Both selections fall back to the default stream, or neither does. -/
theorem ensureDefaultStream (h : b.Rearranges b') : ({ b with matchCache := ∅ } : Base).ensureDefaultStream.Rearranges
    ({ b' with matchCache := ∅ } : Base).ensureDefaultStream := by
  unfold Base.ensureDefaultStream
  simp only [h.isEmpty, h.recoveredState]
  split
  · exact ⟨fun _ => rfl, rfl, h.multistation, h.allStations, h.startTime, h.endTime,
      cacheOk_of_matchCache_eq_empty rfl, cacheOk_of_matchCache_eq_empty rfl⟩
  · exact ⟨h.streams, rfl, h.multistation, h.allStations, h.startTime, h.endTime,
      cacheOk_of_matchCache_eq_empty rfl, cacheOk_of_matchCache_eq_empty rfl⟩

theorem arrival (h : b.Rearranges b') (pkt : SeedLinkPacket) :
    (b.updateStreamState pkt).Rearranges (b'.updateStreamState pkt) := by
  have hkeeps : ∀ s, (noteArrival pkt s).stationId = s.stationId := by
    intro s
    unfold noteArrival
    split <;> rfl
  rw [updateStreamState_rest pkt, updateStreamState_rest (b := b') pkt]
  refine ⟨fun X => ?_, h.recoveredState, h.multistation, h.allStations, h.startTime, h.endTime, ?_, ?_⟩
  · show List.filter _ (b.updateStreamState pkt).streams = List.filter _ (b'.updateStreamState pkt).streams
    rw [h.cacheOk.streams_updateStreamState, h.cacheOk'.streams_updateStreamState, filter_map_of_keeps hkeeps,
      filter_map_of_keeps hkeeps, h.streams]
  · exact (h.cacheOk.updateStreamState pkt).congr rfl rfl
  · exact (h.cacheOk'.updateStreamState pkt).congr rfl rfl

theorem extend (h : b.Rearranges b') (new : List Stream) : (b.extend new).Rearranges (b'.extend new) := by
  refine ⟨fun X => ?_, h.recoveredState, rfl, h.allStations, h.startTime, h.endTime,
    cacheOk_of_matchCache_eq_empty rfl, cacheOk_of_matchCache_eq_empty rfl⟩
  simp only [Base.extend, List.filter_append, h.streams, h.recoveredState]

variable [Externals]

/-- The same is sent, and the selections remain rearrangements of each other. -/
theorem prepareNegotiation (h : b.Rearranges b') (args : NegotiationArgs) :
    (b'.prepareNegotiation args).1 = (b.prepareNegotiation args).1 ∧
      (b.prepareNegotiation args).2.Rearranges (b'.prepareNegotiation args).2 := by
  have hens := h.ensureDefaultStream
  have hcache : ∀ b : Base, (b.prepareNegotiation args).2.CacheOk :=
    fun b => cacheOk_of_matchCache_eq_empty prepareNegotiation_matchCache
  refine ⟨?_, fun X => ?_, hens.recoveredState, hens.multistation, hens.allStations, hens.startTime, hens.endTime,
    hcache b, hcache b'⟩
  · show (planNegotiation args _).1 = (planNegotiation args _).1
    rw [hens.sent]
  · have hids : ∀ d : Base, (planNegotiation args (d.sendOrder.map (·.1))).2.map (·.stationId) =
        d.sendOrder.map (·.1.stationId) := by
      intro d
      rw [Resolves.stationIds (resolves_planNegotiation _), List.map_map]
      rfl
    show List.filter _ (Base.writeBack _ _ _) = List.filter _ (Base.writeBack _ _ _)
    rw [filter_writeBack (hids _), filter_writeBack (hids _), hens.sent]

end Base.Rearranges

/-! ### Calls -/

/-- On clients with rearranged selections the call ends the same, and leaves such clients. -/
abbrev Orderless {α : Type} (x : ClientM α) : Prop := Lockstep (selection.Beside Base.Rearranges) Eq x x

section rules
variable {α : Type} {x : ClientM α}

theorem orderless_get_bind {f : Client → ClientM α} (hf : ∀ c, Orderless (f c))
    (hsame : ∀ b c, f (selection.put b c) = f c) : Orderless (get >>= f) := by
  refine .get_bind fun c d h => ?_
  rw [h.eq, hsame]
  exact hf c

theorem orderless_modify {f : Client → Client} {k : Base → Base} (hf : ∀ c, (f c).base = k c.base)
    (hput : ∀ b c, f (selection.put b c) = selection.put (k b) (f c))
    (hk : ∀ b b' : Base, b.Rearranges b' → (k b).Rearranges (k b')) : Orderless (modify f : ClientM PUnit) := by
  refine .modify fun c d h => ⟨?_, ?_⟩
  · show (f c).base.Rearranges (f d).base
    rw [hf, hf]
    exact hk _ _ h.portion
  · show f d = selection.put (f d).base (f c)
    rw [hf]
    exact (congrArg f h.eq).trans (hput d.base c)

theorem orderless_tryExcept {caught : Exn → Bool} {handler : Exn → ClientM α} (hx : Orderless x)
    (hh : ∀ e, Orderless (handler e)) : Orderless (tryExcept x caught handler) := by
  refine .tryCatch hx fun stop stop' hstop => ?_
  subst hstop
  cases stop with
  | raised e => exact .ite (hh e) (.throw rfl)
  | blocked => exact .throw rfl

theorem orderless_timeoutScope {message : String} (hx : Orderless x) : Orderless (timeoutScope message x) := by
  refine orderless_get_bind (fun c => .ite hx ?_) fun _ _ => rfl
  refine .bind (Blind.modify fun _ _ => rfl).lockstep fun _ => .bind (.tryCatch hx fun stop stop' hstop => ?_) fun _ =>
    .bind (Blind.modify fun _ _ => rfl).lockstep fun _ => .pure _
  subst hstop
  refine Blind.lockstep (.bind (.modify fun _ _ => rfl) fun _ => .ite ?_ (.throw _))
  exact .bind blind_close fun _ => blind_raise _

end rules

section calls
variable [Externals]

theorem orderless_negotiate : Orderless negotiate := by
  refine orderless_timeoutScope (.get_bind fun c d h => ?_)
  have hb : c.base.Rearranges d.base := h.portion
  have hd : d = { c with base := d.base } := h.eq
  have hargs : d.negotiationArgs = c.negotiationArgs := by
    rw [hd]
    simp only [Client.negotiationArgs, hb.multistation, hb.startTime, hb.endTime]
  obtain ⟨hplan, hbase⟩ := hb.prepareNegotiation c.negotiationArgs
  have hset : selection.Beside Base.Rearranges { c with base := (c.base.prepareNegotiation c.negotiationArgs).2 }
      { d with base := (d.base.prepareNegotiation c.negotiationArgs).2 } := by
    refine ⟨hbase, ?_⟩
    rw [hd]
    rfl
  simp only [hargs, hplan]
  refine .bind (fun _ _ _ => .set hset) fun _ => Blind.lockstep ?_
  exact .bind (blind_liftExcept _) fun plan => .bind (blind_runPlan plan) fun _ => .modify fun _ _ => rfl

theorem orderless_reconnect : Orderless reconnect := by
  refine .bind blind_close.lockstep fun _ => .bind (blind_connect true).lockstep fun _ => .get_bind fun c d h => ?_
  rw [show d.base.streams.isEmpty = _ from h.portion.isEmpty]
  exact .ite orderless_negotiate (.pure _)

theorem orderless_reconnectAttempt : Orderless reconnectAttempt := by
  refine .get_bind fun c d h => ?_
  rw [h.eq]
  refine .bind (blind_liftExcept c.cfg.sleep).lockstep fun _ => orderless_tryExcept ?_ fun e => ?_
  · exact .bind (blind_connect true).lockstep fun _ => .bind orderless_negotiate fun _ => blind_enterLoop.lockstep
  · exact Blind.lockstep (.ite (blind_raise e) (.bind blind_close fun _ => .pure _))

theorem orderless_handleFrame (reconnect : Bool) (last : Int) (next : Option Int) (received : Received) :
    Orderless (handleFrame reconnect last next received) := by
  cases received with
  | endOfStream => exact Blind.lockstep (.bind (.modify fun _ _ => rfl) fun _ => .pure _)
  | reply resp => exact (blind_closeAndRaise _ _ _).lockstep
  | packet frame =>
    refine .ite (.bind (blind_liftExcept _).lockstep fun _ => (blind_closeAndRaise _ _ _).lockstep) (.ite (.pure _) ?_)
    refine .bind blind_monotonic.lockstep fun now => .bind ?_ fun _ => .pure _
    exact orderless_modify (k := Base.updateStreamState (toPacket frame)) (fun _ => rfl) (fun _ _ => rfl)
      fun _ _ h => h.arrival _

theorem orderless_collectPass (reconnect : Bool) (last : Int) (next : Option Int) :
    Orderless (collectPass reconnect last next) := by
  refine orderless_get_bind (fun c => .ite (.pure _) ?_) fun _ _ => rfl
  refine .bind blind_monotonic.lockstep fun now => .ite (blind_closeAndRaise _ _ _).lockstep (.bind ?_ fun pass => ?_)
  · exact (blind_tryExcept (.map blind_awaitFrame) fun e => .map (blind_closeAndRaise _ e _)).lockstep
  · rcases pass with (_ | received) | result
    · exact (blind_keepalivePass last next).lockstep
    · exact orderless_handleFrame reconnect last next received
    · exact .pure _

/-- The step lemma. -/
theorem orderless_collectStep (reconnect : Bool) (g : Collect) : Orderless (collectStep reconnect g) := by
  cases g with
  | start =>
    refine orderless_get_bind (fun c => ?_) fun _ _ => rfl
    exact .ite (.bind orderless_negotiate fun _ => .bind blind_enterLoop.lockstep fun _ => .pure _)
      (.bind blind_enterLoop.lockstep fun _ => .pure _)
  | looping last next => exact orderless_collectPass reconnect last next
  | reconnecting => exact .bind orderless_reconnectAttempt fun _ => .pure _
  | finished => exact .pure _

theorem orderless_method (call : Method) : Orderless call.run := by
  cases call with
  | connect handshake => exact .bind (blind_connect handshake).lockstep fun _ => .pure _
  | ping => exact .bind blind_ping.lockstep fun _ => .pure _
  | negotiate => exact .bind orderless_negotiate fun _ => .pure _
  | info level => exact .bind (blind_info level).lockstep fun _ => .pure _
  | infoDict level => exact .bind (blind_infoDict level).lockstep fun _ => .pure _
  | bye => exact .bind blind_bye.lockstep fun _ => .pure _
  | reconnect => exact .bind orderless_reconnect fun _ => .pure _
  | close => exact .bind blind_close.lockstep fun _ => .pure _
  | collect again g => exact .bind (orderless_collectStep again g) fun _ => .pure _

/-! ### Selecting -/

omit [Externals] in
theorem orderless_onBase {x : BaseM Unit} (h : Lockstep Base.Rearranges Eq x x) : Orderless (onBase x) := by
  intro c d hcd
  have hx := h c.base d.base hcd.portion
  have hput : ∀ b b' : Base, b.Rearranges b' →
      selection.Beside Base.Rearranges { c with base := b } { d with base := b' } := by
    intro b b' hb
    refine ⟨hb, ?_⟩
    rw [hcd.eq]
    rfl
  unfold Alike at hx ⊢
  unfold onBase
  cases hc : x c.base with
  | ok a b =>
    rw [hc] at hx
    cases hd : x d.base with
    | ok a' b' =>
      rw [hd] at hx
      exact ⟨rfl, hput _ _ hx.2⟩
    | error e b' =>
      rw [hd] at hx
      exact hx.elim
  | error e b =>
    rw [hc] at hx
    cases hd : x d.base with
    | ok a' b' =>
      rw [hd] at hx
      exact hx.elim
    | error e' b' =>
      rw [hd] at hx
      exact ⟨congrArg Stop.raised hx.1, hput _ _ hx.2⟩

omit [Externals] in
theorem rearranges_extend {e : Exn} (new : List Stream) : Lockstep Base.Rearranges Eq
    (fun b => if b.allStations then .error e b else .ok ⟨⟩ (b.extend new) : BaseM Unit)
    (fun b => if b.allStations then .error e b else .ok ⟨⟩ (b.extend new)) := by
  intro b b' h
  have hall := h.allStations
  cases hb : b.allStations with
  | true =>
    simp only [Alike, hall, hb, if_true]
    exact ⟨trivial, h⟩
  | false =>
    simp only [Alike, hall, hb, Bool.false_eq_true, if_false]
    exact ⟨trivial, h.extend new⟩

omit [Externals] in
/-- A list file that cannot be read. -/
theorem rearranges_raise {e e' : Exn} : Lockstep Base.Rearranges Eq
    (fun b => if b.allStations then .error e b else .error e' b : BaseM Unit)
    (fun b => if b.allStations then .error e b else .error e' b) := by
  intro b b' h
  have hall := h.allStations
  cases hb : b.allStations with
  | true =>
    simp only [Alike, hall, hb, if_true]
    exact ⟨trivial, h⟩
  | false =>
    simp only [Alike, hall, hb, Bool.false_eq_true, if_false]
    exact ⟨trivial, h⟩

omit [Externals] in
theorem rearranges_setAllStations {selectors : Option Base.Selectors} {seqnum : Option Int} {allData : Bool}
    {timestamp : Option Text} : Lockstep Base.Rearranges Eq (Base.setAllStations selectors seqnum allData timestamp)
      (Base.setAllStations selectors seqnum allData timestamp) := by
  intro b b' h
  have hall := h.allStations
  have hempty := h.isEmpty
  cases hb : b.allStations with
  | true =>
    simp only [Alike, Base.setAllStations, hall, hb, if_true]
    exact ⟨trivial, h⟩
  | false =>
    cases he : b.streams.isEmpty with
    | false =>
      simp only [Alike, Base.setAllStations, hall, hb, hempty, he, Bool.not_false, Bool.false_eq_true, if_true, if_false]
      exact ⟨trivial, h⟩
    | true =>
      simp only [Alike, Base.setAllStations, hall, hb, hempty, he, Bool.not_true, Bool.false_eq_true, if_false]
      exact ⟨trivial, fun X => by rw [h.recoveredState], h.recoveredState, rfl, rfl, h.startTime, h.endTime,
        Base.cacheOk_of_matchCache_eq_empty rfl, Base.cacheOk_of_matchCache_eq_empty rfl⟩

theorem rearranges_recoverState (file : Except Exn Text) :
    Lockstep Base.Rearranges Eq (Base.recoverState file) (Base.recoverState file) := by
  intro b b' h
  cases file with
  | error e => exact ⟨rfl, h⟩
  | ok content =>
    have hkeeps : ∀ recovered s, (Base.applyRecoveredState recovered s).stationId = s.stationId :=
      fun _ _ => stationId_applyRecoveredState
    refine ⟨rfl, fun X => ?_, ?_, h.multistation, h.allStations, h.startTime, h.endTime, h.cacheOk.congr rfl ?_,
      h.cacheOk'.congr rfl ?_⟩
    · simp only [filter_map_of_keeps (hkeeps _), h.streams, h.recoveredState]
    · simp only [h.recoveredState]
    · simp only [List.map_map]
      exact List.map_congr_left fun s _ => hkeeps _ s
    · simp only [List.map_map]
      exact List.map_congr_left fun s _ => hkeeps _ s

theorem rearranges_setTimewindow (start : Base.TimeArg) (stop : Option Base.TimeArg) :
    Lockstep Base.Rearranges Eq (Base.setTimewindow start stop) (Base.setTimewindow start stop) := by
  intro b b' h
  simp only [Alike, Base.setTimewindow]
  cases start.resolve with
  | error e => exact ⟨rfl, h⟩
  | ok dt =>
    have hwindow : ∀ startTime endTime, ({ b with startTime, endTime } : Base).Rearranges { b' with startTime, endTime } :=
      fun _ _ => ⟨h.streams, h.recoveredState, h.multistation, h.allStations, rfl, rfl, h.cacheOk.congr rfl rfl,
        h.cacheOk'.congr rfl rfl⟩
    cases stop.map Base.TimeArg.resolve with
    | none => exact ⟨trivial, hwindow _ _⟩
    | some r =>
      cases r with
      | ok dt' => exact ⟨trivial, hwindow _ _⟩
      | error e =>
        exact ⟨rfl, h.streams, h.recoveredState, h.multistation, h.allStations, rfl, h.endTime,
          h.cacheOk.congr rfl rfl, h.cacheOk'.congr rfl rfl⟩

/-- The call leaves the state file alone. Saving writes the streams in the order of the list. -/
def Call.Unsaved : Call → Prop
  | saveState _ => False
  | _ => True

theorem orderless_call {call : Call} (h : call.Unsaved) : Orderless call.run := by
  cases call with
  | saveState faults => exact h.elim
  | recoverState file => exact orderless_onBase (rearranges_recoverState file)
  | setTimewindow start stop => exact orderless_onBase (rearranges_setTimewindow start stop)
  | op o =>
    cases o with
    | addStream | addStreamlist => exact orderless_onBase (rearranges_extend _)
    | addStreamlistFile file defaultSelectors =>
      refine orderless_onBase ?_
      cases file with
      | ok content => exact rearranges_extend _
      | error e => exact rearranges_raise
    | setAllStations => exact orderless_onBase rearranges_setAllStations
    | negotiate => exact orderless_negotiate
    | packet pkt =>
      exact orderless_modify (k := Base.updateStreamState pkt) (fun _ => rfl) (fun _ _ => rfl) fun _ _ h => h.arrival pkt

/-! ### Programs -/

/-- What a program does with its client; how a call ends decides how it goes on. -/
inductive Script
  | done
  | call (m : Method) (next : Except Stop Returned → Script)
  | select (s : Call) (h : s.Unsaved) (next : Except Stop Returned → Script)

/-- How a call ends, and the client it leaves. -/
def carryOut (x : ClientM Returned) (c : Client) : Except Stop Returned × Client :=
  match x c with
  | .ok r c' => (.ok r, c')
  | .error stop c' => (.error stop, c')

def Script.run : Script → Client → List (Except Stop Returned) × Client
  | .done, c => ([], c)
  | .call m next, c =>
    let ended := carryOut m.run c
    let rest := (next ended.1).run ended.2
    (ended.1 :: rest.1, rest.2)
  | .select s _ next, c =>
    let ended := carryOut (do s.run; return .nothing) c
    let rest := (next ended.1).run ended.2
    (ended.1 :: rest.1, rest.2)

omit [Externals] in
theorem carryOut_orderless {x : ClientM Returned} (hx : Orderless x) {c d : Client}
    (h : selection.Beside Base.Rearranges c d) :
    (carryOut x d).1 = (carryOut x c).1 ∧ selection.Beside Base.Rearranges (carryOut x c).2 (carryOut x d).2 := by
  have halike := hx c d h
  unfold carryOut
  cases hrun : x c with
  | ok r s =>
    obtain ⟨t, hrun', hst⟩ := halike.of_ok hrun
    rw [hrun']
    exact ⟨rfl, hst⟩
  | error stop s =>
    obtain ⟨stop', t, hrun', rfl, hst⟩ := halike.of_error hrun
    rw [hrun']
    exact ⟨rfl, hst⟩

/-- The run lemma. -/
theorem Script.run_orderless (script : Script) {c d : Client} (h : selection.Beside Base.Rearranges c d) :
    (script.run d).1 = (script.run c).1 ∧ selection.Beside Base.Rearranges (script.run c).2 (script.run d).2 := by
  induction script generalizing c d with
  | done => exact ⟨rfl, h⟩
  | call m next ih =>
    obtain ⟨hsame, hst⟩ := carryOut_orderless (orderless_method m) h
    simp only [run, hsame]
    obtain ⟨hrest, hend⟩ := ih (carryOut m.run c).1 hst
    exact ⟨by rw [hrest], hend⟩
  | select s hu next ih =>
    have hcall : Orderless (do s.run; return Returned.nothing) := .bind (orderless_call hu) fun _ => .pure _
    obtain ⟨hsame, hst⟩ := carryOut_orderless hcall h
    simp only [run, hsame]
    obtain ⟨hrest, hend⟩ := ih (carryOut (do s.run; return .nothing) c).1 hst
    exact ⟨by rw [hrest], hend⟩

/-- Whatever a program does, and whatever it makes of what it gets: from clients that have their stations in
another order it gets the same, sends the same, and leaves clients that differ in the order only. -/
theorem script_rearranged (script : Script) {c : Client} {b : Base} (h : c.base.Rearranges b) :
    (script.run { c with base := b }).1 = (script.run c).1 ∧
      (script.run { c with base := b }).2 =
        { (script.run c).2 with base := (script.run { c with base := b }).2.base } ∧
      (script.run c).2.base.Rearranges (script.run { c with base := b }).2.base := by
  have hbeside : selection.Beside Base.Rearranges c { c with base := b } := ⟨h, rfl⟩
  obtain ⟨hsame, hend⟩ := script.run_orderless hbeside
  exact ⟨hsame, hend.eq, hend.portion⟩

end calls

/-- A selection of these streams. -/
def choosing (streams : List Stream) : Base := { streams, multistation := true }

def streamAB : Stream := { stationId := "A_B".toList, seqnum := some 5 }
def streamCD : Stream := { stationId := "C_D".toList }

/-- Its server greets, and accepts whatever else is sent. -/
def accepting (streams : List Stream) : Client :=
  { cfg := {},
    env := ⟨fun _ => .opened
      { incoming := [],
        peer := fun _ pending wire => .ok (pending ++ [.data (
          if wire = Bytes.lit "HELLO" ++ crlf then Bytes.lit "SeedLink v3.1" ++ crlf ++ Bytes.lit "ORG" ++ crlf
          else Bytes.lit "OK" ++ crlf)]) }, fun _ => 0, fun _ => true⟩,
    base := choosing streams }

/-- It negotiates once it is connected. -/
def connectThenNegotiate : Script :=
  .call (.connect true) fun
    | .ok _ => .call .negotiate fun _ => .done
    | .error _ => .done

/-- What it sends. -/
def greetThenPlan : List Bytes :=
  [Bytes.lit "HELLO", Bytes.lit "STATION B A", Bytes.lit "DATA 6", Bytes.lit "STATION D C", Bytes.lit "DATA",
    Bytes.lit "END"].map (· ++ crlf)

theorem choosing_rearranges_swapped :
    (choosing [streamAB, streamCD]).Rearranges (choosing [streamCD, streamAB]) := by
  refine ⟨fun X => ?_, rfl, rfl, rfl, rfl, rfl, Base.cacheOk_of_matchCache_eq_empty rfl,
    Base.cacheOk_of_matchCache_eq_empty rfl⟩
  by_cases hX : X = "A_B".toList
  · subst hX
    decide
  · have hAB : ¬ streamAB.stationId = X := fun h => hX h.symm
    simp [choosing, hAB, List.filter_cons]

/-- With the stations swapped it sends what it sends with the stations in their order. -/
theorem script_rearranged_swapped :
    (@Script.run Externals.bare connectThenNegotiate (accepting [streamAB, streamCD])).2.sent = greetThenPlan ∧
      (@Script.run Externals.bare connectThenNegotiate
        { accepting [streamAB, streamCD] with base := choosing [streamCD, streamAB] }).2.sent = greetThenPlan := by
  have hsent : (@Script.run Externals.bare connectThenNegotiate (accepting [streamAB, streamCD])).2.sent =
      greetThenPlan := by decide +kernel
  have hbase : ∀ (c : Client) (b : Base), Client.sent { c with base := b } = c.sent := fun _ _ => rfl
  have hswapped := congrArg Client.sent (@script_rearranged Externals.bare connectThenNegotiate
    (accepting [streamAB, streamCD]) (choosing [streamCD, streamAB]) choosing_rearranges_swapped).2.1
  exact ⟨hsent, by rw [hswapped, hbase, hsent]⟩

end SeedLink
