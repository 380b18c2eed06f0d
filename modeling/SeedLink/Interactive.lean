import SeedLink.Restarts
import SeedLink.ShellSessions

/-!
# Interactive runs

`main -c` on a state file. Whatever is typed, the streams move with the packets received only, so that the
save on the way out keeps a position or moves it to a packet (`position_survives_typing`).
-/

namespace SeedLink

open StateExc Client Commands

namespace Cli

section run
variable [Externals] {X : Text} {n : Int} {args : Args} {m : Mishaps} {op : Operator} {fuel : Nat} {s : Shell}
  {p p' : Process} {g : Collect}

theorem Calls.steady {α : Type} {x : ClientM α} (h : Calls x) : Steady x := by
  cases h with
  | command cmd => exact SeedLink.steady.sendCommand cmd
  | greet =>
    simp only [doHelloWith, Bool.false_eq_true, if_false]
    exact .bind (SeedLink.steady.sendCommand _) fun _ => .bind SeedLink.steady.reading.readLine fun _ =>
      .bind SeedLink.steady.reading.readLine fun _ => .bind (.modify fun _ => ⟨rfl, rfl, rfl⟩) fun _ => .pure _
  | inform level => exact steady_infoDict level
  | leave => exact .bind .get fun _ => .ite (.bind (SeedLink.steady.sendCommand _) fun _ => .pure _) (.pure _)

theorem Safe.same {c : Client} (h : Safe X n p) (hc : p.client.SameSelection c) : Safe X n { p with client := c } :=
  h.congr hc.base rfl rfl

theorem wp_watchPass_safe (hplain : PlainTimes) {press : Option Press} (h : Safe X n s.process) :
    wp (watchPass press g) (fun _ s' => Safe X n s'.process) (fun _ s' => Safe X n s'.process) s := by
  have hwait : ∀ s₁ : Shell, Safe X n s₁.process → wp (takePacket press s₁.client.base.streams g)
      (fun _ s' => Safe X n s'.process) (fun _ s' => Safe X n s'.process) s₁ := by
    intro s₁ h₁
    have hmoved : ∀ {c : Client}, s₁.client.Evolves none c → Safe X n (s₁.withClient c).process := fun he =>
      (h₁.evolves hplain he).congr rfl rfl (List.append_nil _).symm
    rw [takePacket, wp_bind]
    refine wp_awaiting (wp_mono (wp_collectStep_base false g) (fun r c he => ?_) fun _ c he => hmoved he)
    cases hpkt : r.1 with
    | none =>
      rw [hpkt] at he
      exact hmoved he
    | some pkt =>
      rw [hpkt] at he
      have hids := (stationIds_of_evolves he).resolve_left fun hnone => Option.some_ne_none _ hnone.2
      simp only [wp_bind, wp_onProcess, wp_pure]
      exact wp_mono (wp_note (p := (s₁.withClient c).process) (h₁.evolves hplain he) hids h₁.secured.streams)
        (fun _ _ h => h.1) fun _ _ h => h
  rw [watchPass, wp_bind, wp_modify, wp_bind]
  unfold Press.strike
  split
  · refine hwait (Shell.watcher _ { s with passes := s.passes + 1 }) ?_
    unfold Shell.watcher
    split
    · exact h
    · exact h.congr rfl rfl rfl
  · exact h
  · exact hwait { s with passes := s.passes + 1 } h

theorem wp_watch_safe (hplain : PlainTimes) : ∀ {fuel : Nat} {g : Collect} {s : Shell}, Safe X n s.process →
    wp (watch op fuel g) (fun _ s' => Safe X n s'.process) (fun _ s' => Safe X n s'.process) s
  | 0, _, _, h => h
  | fuel + 1, g, s, h => by
    simp only [watch, wp_bind, wp_get, wp_ite, wp_pure, wp_throw]
    refine wp_mono (wp_watchPass_safe hplain h) (fun r s₁ h₁ => ?_) fun _ _ h₁ => h₁
    split
    · exact h₁
    · split
      · rw [wp_onSl, wp_close]
        exact h₁.congr rfl rfl rfl
      · exact wp_watch_safe hplain h₁

/-- What every turn keeps. -/
theorem keepsSafe (hplain : PlainTimes) {k : Nat} : TurnKeeps op k fuel (fun s => Safe X n s.process)
    fun s => Safe X n s.process where
  raised _ h := h
  shell s s' hp _ _ h := hp ▸ h
  call hx s h := wp_mono (hx.steady s.client) (fun _ _ hc => h.same hc) fun _ _ hc => h.same hc
  finish cmd s h := by
    rw [finishHandshake, wp_bind]
    refine wp_mono (wp_attempt (P := fun s => Safe X n s.process) (Q := fun _ s => Safe X n s.process)
      (wp_mono (SeedLink.steady.sendCommand cmd s.client) (fun _ _ hc => h.same hc) fun _ _ hc => h.same hc)
      fun _ _ h => h) (fun r s₁ h₁ => ?_) fun _ _ h => h
    simp only [wp_ite, wp_bind, wp_modify, wp_pure]
    split
    · simp only [watchPackets, wp_bind, wp_tryCatch, wp_excepting, wp_modify, wp_throw]
      refine wp_mono (wp_watch_safe hplain (h₁.congr rfl rfl rfl)) (fun _ _ h => h) fun stop s' h => ?_
      rcases stop with e | _
      · simp only [wp_ite, wp_bind, wp_get, wp_pure, wp_fail]
        split
        · split
          · exact h
          · split <;> exact h
        · exact h
      · exact h
    · exact h₁

theorem wp_cmdloop_safe (hplain : PlainTimes) : ∀ {fuel k : Nat} {s : Shell}, Safe X n s.process →
    wp (cmdloop op fuel k) (fun _ s' => Safe X n s'.process) (fun _ s' => Safe X n s'.process) s
  | 0, _, _, h => h
  | fuel + 1, k, s, h => by
    rw [cmdloop, wp_bind]
    refine wp_mono ((keepsSafe hplain).turn h (fun _ _ _ _ _ _ h => h.congr rfl rfl rfl) fun _ _ _ _ _ _ h => h)
      (fun stop s₁ h₁ => ?_) fun _ _ h => h
    rw [wp_ite]
    split
    · exact h₁
    · exact wp_cmdloop_safe hplain h₁

theorem wp_interact_safe (hplain : PlainTimes) (h : Safe X n s.process) :
    wp (interact op fuel) (fun _ s' => Safe X n s'.process) (fun _ s' => Safe X n s'.process) s := by
  simp only [interact, wp_bind, wp_excepting, wp_get, wp_pure]
  refine wp_mono (wp_cmdloop_safe hplain h) (fun _ _ h => h) fun stop s' h => ?_
  rcases stop with e | _
  · simp only
    split <;> exact h
  · exact h

omit [Externals] in
theorem wp_shelled {α : Type} {details : Int} {unpack : Bool} {x : ShellM α} {Q : α → Process → Prop}
    {E : Stop → Process → Prop} : wp (shelled details unpack x) Q E p =
      wp x (fun a s => Q a s.process) (fun stop s => E stop s.process) { process := p, details, unpack } := by
  unfold wp shelled
  cases x { process := p, details, unpack } <;> rfl

theorem wp_sessionInteractive (hplain : PlainTimes) (hstate : truthy args.statefile = true) (hspares : m.Spares args X)
    (hids : args.Unmistaken X) (h : Fresh X n p) :
    wp (sessionInteractive op fuel args m) (fun _ => Ends X n) (fun _ => Ends X n) p := by
  rw [sessionInteractive, wp_bind]
  refine wp_await (wp_mono (wp_and (steady.connect false _) (idle_connect false _)) (fun _ c hc => ?_) fun stop c hc => ?_)
  · have hfresh : Fresh X n { p with client := c } :=
      ⟨hc.1.base.trans h.base, hc.2 h.streaming, h.received, h.recorded⟩
    rw [wp_bind]
    refine wp_strikePrint (fun _ _ _ => hfresh.ends) ?_
    rw [wp_bind]
    refine wp_mono (wp_configureStreams hstate hspares hids hfresh) (fun _ p₁ hready => ?_) fun _ _ h => h
    rw [wp_shelled]
    exact wp_mono (wp_interact_safe hplain hready.safe) (fun _ _ h => .inr h) fun _ _ h => .inr h
  · have hends : Ends X n { p with client := c } := h.ends_of_base hc.1.base
    rcases stop with e | _
    · exact hends
    · exact ⟨hends, fun _ => hends⟩

theorem wp_mainInteractive (hplain : PlainTimes) (hX : Savable X n) (hstate : truthy args.statefile = true)
    (hspares : m.Spares args X) (hids : args.Unmistaken X) (h : Fresh X n p) :
    wp (mainInteractive op fuel args m) (fun _ => Ends X n) (fun _ => Ends X n) p := by
  rw [mainInteractive, wp_tryFinally, report, wp_catching]
  refine wp_mono (wp_sessionInteractive hplain hstate hspares hids h) (fun _ p' hp' => wp_leave hplain hX hp')
    fun stop p' hp' => ?_
  rcases stop with e | _
  · simp only
    split
    · rw [wp_bind]
      exact wp_strike (fun _ _ => wp_leave hplain hX hp') fun _ => wp_leave hplain hX hp'
    · exact wp_leave hplain hX hp'
  · exact hp'

/-- The interactive run that begins in `p` has ended in `p'`. -/
def ExitsInteractive (op : Operator) (args : Args) (m : Mishaps) (p p' : Process) : Prop :=
  ∃ fuel, (∃ code, mainInteractive op fuel args m p = .ok code p') ∨
    ∃ e, mainInteractive op fuel args m p = .error (.raised e) p'

/-- Whatever is typed and pressed in an interactive run and however it ends, a position that the state file
holds is kept, or moved to a packet received for its station, when nothing goes wrong between configuring the
streams and recovering them. -/
theorem position_survives_typing (hplain : PlainTimes) (hbase : p.client.base = {})
    (hstreaming : p.client.streaming = false) (hreceived : p.received = []) (hstate : truthy args.statefile = true)
    {timestamp : Option Text} (hfile : p.recorded X = some (some n, timestamp)) (hn : n ≠ -1)
    (hspares : m.Spares args X) (hids : args.Unmistaken X) (hexit : ExitsInteractive op args m p p')
    (hX : X ∈ p'.stationIds) (hnum : Numbered X p'.received) :
    ∃ pos, p'.recorded X = some pos ∧ Held X n p'.received pos.1 := by
  have hsavable : Savable X n := by
    obtain ⟨text, -, hlookup⟩ := Option.bind_eq_some_iff.1 hfile
    exact ⟨(loadState_spec hlookup).1, (loadState_spec hlookup).2.1, hn⟩
  have hends : Ends X n p' := by
    obtain ⟨fuel, hrun⟩ := hexit
    have hmain : wp (mainInteractive op fuel args m) (fun _ => Ends X n) (fun _ => Ends X n) p :=
      wp_mainInteractive hplain hsavable hstate hspares hids ⟨hbase, hstreaming, hreceived, timestamp, hfile⟩
    rcases hrun with ⟨code, hrun⟩ | ⟨e, hrun⟩
    · exact (wp_iff_of_ok hrun).1 hmain
    · exact (wp_iff_of_error hrun).1 hmain
  rcases hends with ⟨hnil, -⟩ | hsafe
  · rw [hnil] at hX
    cases hX
  · exact hsafe.records (.inr hX) hnum

end run

/-- The server expects the handshake that is typed and sends packet 7. -/
def typedClient : Client :=
  { cfg := {}
    env := ⟨fun _ => .opened {
      incoming := []
      peer := scripted [
        (Bytes.lit "HELLO" ++ crlf, [.data (Bytes.lit "SeedLink v4.0 :: SLPROTO:4.0" ++ crlf ++ Bytes.lit "ORG" ++ crlf)]),
        (Bytes.lit "SLPROTO 4.0" ++ crlf, [.data (Bytes.lit "OK" ++ crlf)]),
        (Bytes.lit "STATION A_B" ++ [13], [.data (Bytes.lit "OK" ++ crlf)]),
        (Bytes.lit "DATA 6" ++ [13], [.data (Bytes.lit "OK" ++ crlf)]),
        (Bytes.lit "END" ++ crlf, [.data wire7])] }, fun _ => 0, fun _ => true⟩ }

def typingAB : Operator :=
  { Operator.typing ["hello", "slproto", "station A_B", "data 6", "end", "quit"] with
    press := fun k => if k = 2 then some .polling else none }

/-- What an interactive run leaves behind when it is over. -/
def remainsTyping [Externals] (op : Operator) (args : Args) (m : Mishaps) (fuel : Nat) (p : Process) (X : Text) : Option Remains :=
  match mainInteractive op fuel args m p with
  | .ok _ p' | .error (.raised _) p' => some ⟨p'.recorded X, p'.stationIds, p'.received, p'.dumped⟩
  | .error .blocked _ => none

theorem exitsInteractive_of_remains [Externals] {op : Operator} {args : Args} {m : Mishaps} {fuel : Nat} {p : Process}
    {X : Text} {r : Remains} (h : remainsTyping op args m fuel p X = some r) : ∃ p', ExitsInteractive op args m p p' ∧
      p'.recorded X = r.recorded ∧ p'.stationIds = r.stationIds ∧ p'.received = r.received := by
  unfold remainsTyping at h
  split at h
  · rename_i code p' hrun
    cases h
    exact ⟨p', ⟨fuel, .inl ⟨code, hrun⟩⟩, rfl, rfl, rfl⟩
  · rename_i e p' hrun
    cases h
    exact ⟨p', ⟨fuel, .inr ⟨e, hrun⟩⟩, rfl, rfl, rfl⟩
  · cases h

def typedAt5 : Process := { client := typedClient, file := some "#V2\nA_B 5\n".toList }

theorem position_survives_typing_AB : ∃ p', @ExitsInteractive Externals.bare typingAB argsAB {} typedAt5 p' ∧
    p'.received = [packet7] ∧ @Process.recorded Externals.bare p' "A_B".toList = some (some 7, none) ∧
    ∃ pos, @Process.recorded Externals.bare p' "A_B".toList = some pos ∧ Held "A_B".toList 5 p'.received pos.1 := by
  let _ : Externals := Externals.bare
  have hrun : remainsTyping typingAB argsAB {} 10 typedAt5 "A_B".toList =
      some ⟨some (some 7, none), ["A_B".toList], [packet7], []⟩ := by decide +kernel
  obtain ⟨p', hexit, hrecorded, hids, hreceived⟩ := exitsInteractive_of_remains hrun
  have hspares : ({} : Mishaps).Spares argsAB "A_B".toList := ⟨fun _ => rfl, nofun, nofun, nofun, fun _ => rfl⟩
  have hstation : ∀ s ∈ argsAB.configured, s.stationId = "A_B".toList := by decide
  have hfile : typedAt5.recorded "A_B".toList = some (some 5, none) := by decide
  refine ⟨p', hexit, hreceived, hrecorded, position_survives_typing (p := typedAt5) (fun _ t ht c hc => ?_) rfl rfl rfl
    rfl hfile (by decide) hspares (fun s hs => .inl (hstation s hs)) hexit (by simp [hids]) fun pkt hpkt _ => ?_⟩
  · cases ht
    cases hc
  · rw [hreceived, List.mem_singleton] at hpkt
    rw [hpkt]
    decide

end Cli

end SeedLink
