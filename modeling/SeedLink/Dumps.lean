import SeedLink.Restarts

/-!
# What the dump file has

No position that the state file holds is ahead of the dump file, however `main` ends, when no packet is
struck between the update of its streams and the write of its payload, and the dump file can be closed
(`dumped_of_received`). The number of a packet that cannot be printed is saved without its payload
(`not_covered_unprintable`).
-/

namespace SeedLink

open StateExc

namespace Cli

/-! ### The dump file of a run -/

/-- The dump file, its buffer and the packets received are left alone. -/
structure Aside (p p' : Process) : Prop where
  dumped : p'.dumped = p.dumped
  buffered : p'.buffered = p.buffered
  received : p'.received = p.received

instance : IsPreorder Process Aside where
  refl _ := ⟨rfl, rfl, rfl⟩
  trans _ _ _ h h' := ⟨h'.dumped.trans h.dumped, h'.buffered.trans h.buffered, h'.received.trans h.received⟩

section aside
variable {α : Type} {m : Mishaps} {args : Args}

theorem aside_onClient (x : ClientM α) : Keeps Aside (onClient x) := by
  intro p
  unfold wp onClient
  cases x p.client <;> exact ⟨rfl, rfl, rfl⟩

theorem aside_strike (place : Place) : Keeps Aside (strike m place) := fun p =>
  wp_strike (fun _ _ => refl p) fun _ => refl p

theorem aside_catching {x : MainM α} {caught : Exn → Bool} {handler : Exn → MainM α} (hx : Keeps Aside x)
    (hh : ∀ e, Keeps Aside (handler e)) : Keeps Aside (catching x caught handler) :=
  .tryCatch hx fun stop => by
    rcases stop with e | _
    · exact .ite (hh e) (.throw _)
    · exact .throw _

theorem aside_await (place : Place) (x : ClientM α) : Keeps Aside (await m place x) :=
  .tryCatch (aside_onClient x) fun stop => by
    rcases stop with e | _
    · exact .throw _
    · exact .bind (aside_strike place) fun _ => .throw _

theorem aside_setStreams (streams : List Stream) : Keeps Aside (setStreams streams) :=
  .modify fun _ => ⟨rfl, rfl, rfl⟩

variable [Externals]

theorem aside_configureStreams : Keeps Aside (configureStreams args m) := by
  have hrecover : Keeps Aside (recoverState m) := by
    refine .bind (aside_strike _) fun _ => .bind .get fun p => ?_
    split
    · exact .throw _
    · refine .bind (aside_onClient _) fun _ => ?_
      split
      · exact .pure _
      · exact .bind .get fun _ => .bind (aside_setStreams _) fun _ => .throw _
  exact .bind (aside_strike _) fun _ => .bind (aside_onClient _) fun _ => .bind (aside_strike _) fun _ =>
    .bind (.ite (aside_catching (aside_onClient _) fun _ => .throw _) (.pure _)) fun _ =>
      .ite (aside_catching hrecover fun _ => .pure _) (.pure _)

theorem aside_saveState : Keeps Aside (saveState m) := by
  intro p
  simp only [saveState, wp_bind, wp_get]
  split <;> exact ⟨rfl, rfl, rfl⟩

theorem aside_leave : Keeps Aside (leave args m) :=
  .bind (aside_strike _) fun _ =>
    .bind (.bind .get fun _ => .ite (aside_catching aside_saveState fun _ => .pure _) (.pure _)) fun _ =>
      .bind (aside_strike _) fun _ => aside_onClient _

theorem aside_saveIfDue (i : Nat) (lastSave : Int) : Keeps Aside (saveIfDue args m i lastSave) :=
  .ite (.bind (aside_onClient _) fun _ => .ite (.bind aside_saveState fun _ => .bind (aside_strike _) fun _ =>
    aside_onClient _) (.pure _)) (.pure _)

end aside

section dumping
variable [Externals] {m : Mishaps} {args : Args} {p p' : Process} {pkts : List SeedLinkPacket}

/-- Nothing goes wrong between updating the streams of a packet and writing its payload, nor when the dump
file is closed. -/
structure Mishaps.SparesPackets (m : Mishaps) (args : Args) : Prop where
  updating : ∀ i, m.updating i = none
  /-- Nothing is printed and no signal arrives, or printing succeeds. -/
  printing : ∀ i e, m.strike (.printing i) = some e → args.prints = false ∧ e ≠ .keyboardInterrupt
  writing : ∀ i, m.strike (.writing i) = none
  closing : m.strike .closing = none

/-- All the payloads but those of `pkts` have been written, in their order. -/
def Behind (pkts : List SeedLinkPacket) (p : Process) : Prop :=
  p.dumped ++ p.buffered ++ pkts.map (·.payload) = p.received.map (·.payload)

/-- All the payloads are in the dump file. -/
def Flushed (p : Process) : Prop := p.dumped = p.received.map (·.payload)

omit [Externals] in
theorem Behind.aside (h : Behind pkts p) (ha : Aside p p') : Behind pkts p' := by
  unfold Behind
  rw [ha.dumped, ha.buffered, ha.received]
  exact h

omit [Externals] in
theorem Flushed.aside (h : Flushed p) (ha : Aside p p') : Flushed p' := by
  unfold Flushed
  rw [ha.dumped, ha.received]
  exact h

theorem wp_receive_behind (hspares : m.SparesPackets args) {i : Nat} {g : Collect} (h : Behind [] p) :
    wp (receive m i g) (fun r => Behind r.1.toList) (fun _ => Behind []) p := by
  refine wp_receive_of (fun _ => wp_strikeDefault_of fun _ _ => by split <;> exact h) ?_
  refine wp_mono (aside_await _ _ p) (fun r p₁ ha => ?_) fun _ _ ha => h.aside ha
  have h₁ := h.aside ha
  refine ⟨fun hnone => by rw [hnone]; exact h₁, fun pkt hpkt => ?_⟩
  simp only [note, wp_bind, wp_modify, hspares.updating, wp_pure, hpkt, Option.toList_some]
  simpa [Behind] using congrArg (· ++ [pkt.payload]) h₁

theorem wp_handlePacket_behind (hdump : truthy args.dumpfile = true) (hspares : m.SparesPackets args) {i : Nat}
    {lastSave : Int} {pkt : SeedLinkPacket} (h : Behind [pkt] p) :
    wp (handlePacket args m i lastSave pkt) (fun _ => Behind []) (fun _ => Behind []) p := by
  have hdumped : Behind [] { p with buffered := p.buffered ++ [pkt.payload] } := by
    simpa [Behind] using h
  rw [handlePacket, wp_bind]
  refine wp_strikePrint (fun e he hstruck => ?_) ?_
  · obtain ⟨hprints, hsignal⟩ := hspares.printing i e he
    rw [hprints] at hstruck
    exact absurd hstruck (by simp [hsignal])
  rw [wp_bind, dump, if_pos hdump, wp_bind]
  refine wp_strike (fun e he => ?_) fun _ => ?_
  · rw [hspares.writing] at he
    cases he
  rw [wp_modify, wp_bind]
  refine wp_strike (fun _ _ => hdumped) fun _ => ?_
  exact wp_mono (aside_saveIfDue _ _ _) (fun _ _ ha => hdumped.aside ha) fun _ _ ha => hdumped.aside ha

theorem wp_stream_behind (hdump : truthy args.dumpfile = true) (hspares : m.SparesPackets args) :
    ∀ (fuel i : Nat) (g : Collect) (lastSave : Int) (p : Process), Behind [] p →
      wp (stream args m fuel i g lastSave) (fun _ => Behind []) (fun _ => Behind []) p
  | 0, _, _, _, _, h => h
  | fuel + 1, i, g, lastSave, p, h => by
    rw [stream, wp_bind]
    refine wp_strike (fun _ _ => h) fun _ => ?_
    rw [wp_bind]
    refine wp_mono (wp_receive_behind hspares h) ?_ fun _ _ h => h
    rintro ⟨_ | pkt, g⟩ p' h'
    · simp only [wp_ite]
      split
      · exact h'
      · exact wp_stream_behind hdump hspares fuel _ _ _ _ h'
    · simp only [wp_bind]
      exact wp_mono (wp_handlePacket_behind hdump hspares h')
        (fun _ p'' h'' => wp_stream_behind hdump hspares fuel _ _ _ _ h'') fun _ _ h => h

/-- A run that ends has closed the dump file. -/
theorem wp_session_flushed (hdump : truthy args.dumpfile = true) (hspares : m.SparesPackets args) {fuel : Nat}
    (h : Flushed p) (hempty : p.buffered = []) :
    wp (session args m fuel) (fun _ => Flushed) (fun stop p' => stop ≠ .blocked → Flushed p') p := by
  rw [session, wp_bind]
  refine wp_mono (aside_await _ _ p) (fun _ p₁ ha => ?_) fun _ _ ha _ => h.aside ha
  rw [wp_bind]
  refine wp_strikePrint (fun _ _ _ _ => h.aside ha) ?_
  rw [wp_ite]
  split
  · rw [wp_bind]
    refine wp_mono (aside_await _ _ p₁) (fun _ p₂ ha' => ?_) fun _ _ ha' _ => (h.aside ha).aside ha'
    rw [wp_bind]
    exact wp_strike (fun _ _ _ => (h.aside ha).aside ha') fun _ => (h.aside ha).aside ha'
  · rw [wp_bind]
    refine wp_mono (aside_configureStreams p₁) (fun _ p₂ ha' => ?_) fun _ _ ha' _ => (h.aside ha).aside ha'
    have h₂ := (h.aside ha).aside ha'
    have hempty₂ : p₂.buffered = [] := by rw [ha'.buffered, ha.buffered, hempty]
    rw [wp_bind]
    refine wp_strike (fun _ _ _ => h₂) fun _ => ?_
    have hclose : ∀ p', Behind [] p' → wp (closeDump args m) (fun _ => Flushed) (fun _ p' => Flushed p') p' := by
      intro p' h'
      rw [closeDump, wp_bind]
      refine wp_strike (fun e he => ?_) fun _ => ?_
      · rw [hspares.closing] at he
        cases he
      · rw [wp_ite, if_pos hdump, wp_modify]
        simpa [Behind, Flushed] using h'
    rw [wp_bind, wp_onClient, wp_monotonic, wp_bind, wp_tryFinally]
    have hbehind : Behind [] p₂ := by
      rw [Behind, hempty₂]
      simpa [Flushed] using h₂
    refine wp_mono (wp_stream_behind hdump hspares fuel 0 _ _ _ hbehind) (fun _ p' h' => ?_) fun stop p' h' => ?_
    · exact wp_mono (hclose p' h') (fun _ _ h => h) fun _ _ h _ => h
    · rcases stop with e | _
      · exact wp_mono (hclose p' h') (fun _ _ h _ => h) fun _ _ h _ => h
      · exact fun hne => absurd rfl hne

theorem wp_main_flushed (hdump : truthy args.dumpfile = true) (hspares : m.SparesPackets args) (h : Flushed p)
    (hempty : p.buffered = []) (fuel : Nat) :
    wp (main args m fuel) (fun _ => Flushed) (fun stop p' => stop ≠ .blocked → Flushed p') p := by
  have hkept : ∀ {α : Type} {x : MainM α} {p : Process}, Keeps Aside x → Flushed p →
      wp x (fun _ => Flushed) (fun stop p' => stop ≠ .blocked → Flushed p') p := fun hx h =>
    wp_mono (hx _) (fun _ _ ha => h.aside ha) fun _ _ ha _ => h.aside ha
  rw [main]
  split
  · exact hkept (aside_catching (.bind (aside_await _ _) fun _ => .bind (aside_strike _) fun _ => .pure _)
      fun _ => .bind (aside_strike _) fun _ => .pure _) h
  · rw [wp_tryFinally, report, wp_catching]
    refine wp_mono (wp_session_flushed hdump hspares h hempty) (fun _ p' h' => hkept aside_leave h')
      fun stop p' h' => ?_
    rcases stop with e | _
    · have hleave : wp (leave args m) (fun _ => Flushed) (fun stop p' => stop ≠ .blocked → Flushed p') p' :=
        hkept aside_leave (h' (by rintro ⟨⟩))
      simp only
      split
      · rw [wp_bind]
        exact wp_strike (fun _ _ => wp_mono hleave (fun _ _ h _ => h) fun _ _ h => h) fun _ => hleave
      · exact wp_mono hleave (fun _ _ h _ => h) fun _ _ h => h
    · exact h'

/-- No position that the state file holds is that of a packet which the dump file lacks. -/
def Covered (p : Process) : Prop :=
  ∀ pkt ∈ p.received, ∀ timestamp, pkt.seqnum.isSome = true →
    p.recorded pkt.stationId = some (pkt.seqnum, timestamp) → pkt.payload ∈ p.dumped

/-- However the run ends, its packets are all in the dump file, in their order, when nothing goes wrong
between updating the streams of a packet and writing its payload. -/
theorem dumped_of_received (hdump : truthy args.dumpfile = true) (hspares : m.SparesPackets args)
    (hdumped : p.dumped = []) (hbuffered : p.buffered = []) (hreceived : p.received = [])
    (hexit : Exits args m p p') :
    p'.dumped = p'.received.map (·.payload) ∧ Covered p' := by
  have hflushed : Flushed p' := by
    have h : Flushed p := by rw [Flushed, hdumped, hreceived]; rfl
    obtain ⟨fuel, hrun⟩ := hexit
    have hmain := wp_main_flushed hdump hspares h hbuffered fuel
    rcases hrun with ⟨code, hrun⟩ | ⟨e, hrun⟩
    · exact (wp_iff_of_ok hrun).1 hmain
    · exact (wp_iff_of_error hrun).1 hmain nofun
  refine ⟨hflushed, fun pkt hpkt _ _ _ => ?_⟩
  rw [hflushed]
  exact List.mem_map_of_mem hpkt

end dumping

theorem dumped_of_received_interrupted : ∃ p', @Exits Externals.bare argsAB interrupted savedAt5 p' ∧
    p'.received = [packet7] ∧ p'.dumped = p'.received.map (·.payload) ∧ @Covered Externals.bare p' := by
  let _ : Externals := Externals.bare
  have hrun : remains argsAB interrupted 5 savedAt5 "A_B".toList =
      some ⟨some (some 7, none), ["A_B".toList], [packet7], [Bytes.lit "data"]⟩ := by decide +kernel
  obtain ⟨p', hexit, -, -, hreceived, -⟩ := exits_of_remains hrun
  have hspares : interrupted.SparesPackets argsAB := ⟨fun _ => rfl, nofun, fun _ => rfl, rfl⟩
  exact ⟨p', hexit, hreceived, dumped_of_received (p := savedAt5) rfl hspares rfl rfl rfl hexit⟩

/-- With `-v` a line is printed for each packet. -/
def argsVerbose : Args := { argsAB with verbose := true }

/-- The packet cannot be printed. -/
def unprintable : Mishaps := { strike := fun place => if place = .printing 1 then some .osError else none }

/-- Its number is saved, its payload is not. -/
theorem not_covered_unprintable : ¬ ∀ (args : Args) (m : Mishaps) (p p' : Process), truthy args.dumpfile = true →
    truthy args.statefile = true → p.client.base = {} → p.client.streaming = false → p.dumped = [] →
    p.buffered = [] → p.received = [] → @Exits Externals.bare args m p p' →
    (∀ stationId ∈ p'.stationIds, isWildcard stationId = false) → @Covered Externals.bare p' := by
  let _ : Externals := Externals.bare
  intro h
  have hrun : remains argsVerbose unprintable 5 savedAt5 "A_B".toList =
      some ⟨some (some 7, none), ["A_B".toList], [packet7], []⟩ := by decide +kernel
  obtain ⟨p', hexit, hrecorded, hids, hreceived, hdumped⟩ := exits_of_remains hrun
  have hcovered := h _ _ savedAt5 p' rfl rfl rfl rfl rfl rfl rfl hexit (by rw [hids]; decide)
  have := hcovered packet7 (by simp [hreceived]) none rfl hrecorded
  rw [hdumped] at this
  cases this

end Cli

end SeedLink
