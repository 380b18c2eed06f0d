import SeedLink.Calls
import SeedLink.Escapes
import SeedLink.Servers
import SeedLink.ShellRuns

/-!
# Sessions of the shell

A session is what `cmdloop` does prompt by prompt. What is sent in it is what was typed, line by line and in
order (`session_sends`); how a line is meant depends on what the server accepted before it (`session_mode`).
The exit code is that of the line entered last (`interact_exits`).
-/

namespace SeedLink

open StateExc Client Commands

/-! ### What the calls of a turn leave alone -/

/-- The protocol is the same, and nothing streams that did not. -/
structure Client.Heeds (c c' : Client) : Prop where
  protocol : c'.protocol = c.protocol
  streaming : c'.streaming = true → c.streaming = true

instance : IsPreorder Client Client.Heeds where
  refl _ := ⟨rfl, fun h => h⟩
  trans _ _ _ h h' := ⟨h'.protocol.trans h.protocol, fun hs => h.streaming (h'.streaming hs)⟩

theorem heeds_closed (c : Client) : c.Heeds c.closed := ⟨rfl, nofun⟩

theorem heeds : Reads Client.Heeds where
  ensure n := by
    refine keeps_ensure fun c c' h => ?_
    cases h with
    | closed => exact ⟨rfl, nofun⟩
    | kept | enough | filled => exact ⟨rfl, fun h => h⟩
  close := heeds_closed
  rb _ _ _ := ⟨rfl, fun h => h⟩
  polls _ _ := ⟨rfl, fun h => h⟩

theorem heeds_sendCommand (cmd : Command) : Keeps Client.Heeds (sendCommand cmd) := by
  intro c
  refine wp_sendCommand (fun _ => refl c) (fun _ _ _ => refl c) (fun _ _ => heeds_closed c) fun wire c' _ hs => ?_
  have hsent : c.Heeds c' := by
    obtain ⟨sk, incoming, -, -, rfl⟩ := hs
    exact ⟨rfl, fun h => h⟩
  exact wp_mono (heeds.reading.awaitReply cmd.parse c') (fun _ _ h => IsTrans.trans _ _ _ hsent h)
    fun _ _ h => IsTrans.trans _ _ _ hsent h

theorem streams_heeds : Streams fun c c' => c'.protocol = c.protocol where
  toReading := Reads.reading
    { ensure := fun n c => wp_mono (heeds.ensure n c) (fun _ _ h => h.protocol) fun _ _ h => h.protocol
      close := fun _ => rfl
      rb := fun _ _ _ => rfl
      polls := fun _ _ => rfl }
  heartbeat c := wp_mono (heeds_sendCommand _ c) (fun _ _ h => h.protocol) fun _ _ h => h.protocol
  ticks _ _ := rfl
  ended _ := rfl
  base _ _ := rfl
  shutdown _ _ := rfl

theorem heeds_timeoutScope {α : Type} {message : String} {x : ClientM α} (hx : Keeps Client.Heeds x) :
    Keeps Client.Heeds (timeoutScope message x) := by
  have hscope : ∀ f : Client → Bool, Keeps Client.Heeds (modify fun c => { c with inScope := f c } : ClientM PUnit) :=
    fun _ => .modify fun _ => ⟨rfl, fun h => h⟩
  refine .bind .get fun c => .ite hx (.bind (hscope _) fun _ => .bind ?_ fun _ => .bind (hscope _) fun _ => .pure _)
  exact .tryCatch hx fun stop => .bind (hscope _) fun _ =>
    .ite (.bind (.modify heeds_closed) fun _ => keeps_raise _) (.throw stop)

theorem streams_rested {c : Client} (arriving : List Recv) (h : c.Rested) :
    ({ c with sock := c.sock.map (Sock.shutdown arriving) } : Client).Rested := by
  intro hsk
  exact h (Option.map_eq_none_iff.1 hsk)

namespace Cli

theorem Calls.heeds [Externals] {α : Type} {x : ClientM α} (h : Calls x) : Keeps Client.Heeds x := by
  cases h with
  | command cmd => exact heeds_sendCommand cmd
  | greet =>
    simp only [doHelloWith, Bool.false_eq_true, if_false]
    exact .bind (heeds_sendCommand _) fun _ => .bind SeedLink.heeds.reading.readLine fun _ =>
      .bind SeedLink.heeds.reading.readLine fun _ => .bind (.modify fun _ => ⟨rfl, fun h => h⟩) fun _ => .pure _
  | inform level =>
    have hinfo : Keeps Client.Heeds (Client.info level) :=
      .bind .get fun _ => .ite (keeps_raise _) <| heeds_timeoutScope <| .bind (heeds_sendCommand _) fun _ =>
        .bind .get fun _ => SeedLink.heeds.reading.infoLoop _ _
    exact .bind hinfo fun _ => .bind .get fun _ =>
      .ite (.bind (keeps_liftExcept _) fun _ => .pure _) (keeps_liftExcept _)
  | leave => exact .bind .get fun _ => .ite (.bind (heeds_sendCommand _) fun _ => .pure _) (.pure _)

theorem Calls.rests [Externals] {α : Type} {x : ClientM α} (h : Calls x) : Rests x := by
  cases h with
  | command cmd => exact .of_leads (leads_sendCommand cmd)
  | greet =>
    simp only [doHelloWith, Bool.false_eq_true, if_false]
    exact .of_leads <| .bind (leads_sendCommand _) fun _ => OnConnection.bind onConnection_readLine fun _ =>
      .bind onConnection_readLine fun _ => .bind (.modify fun _ => rfl) fun _ => .pure _
  | inform level => exact rests_infoDict level
  | leave => exact rests_bye

theorem Calls.usable [Externals] {α : Type} {x : ClientM α} (h : Calls x) : Keeps Client.KeepsUsable x := by
  cases h with
  | command cmd => exact SeedLink.usable.sendCommand cmd trivial
  | greet =>
    simp only [doHelloWith, Bool.false_eq_true, if_false]
    exact .bind (SeedLink.usable.sendCommand _ trivial) fun _ => .bind SeedLink.usable.readLine fun _ =>
      .bind SeedLink.usable.readLine fun _ => .bind (.modify fun _ h => ⟨h.size, h.wf⟩) fun _ => .pure _
  | inform level => exact SeedLink.usable.infoDict trivial
  | leave => exact SeedLink.usable.bye trivial

/-! ### Replies and stations -/

section replies
variable {s : Shell} {op : Operator} {n : Nat}

/-- A call that keeps the protocol keeps the mode. -/
theorem Shell.mode_withClient {c : Client} (h : s.client.Heeds c) : (s.withClient c).mode = s.mode := by
  rw [Shell.mode, Shell.mode, Shell.client_withClient, h.protocol]
  rfl

/-- The reply of `_send` is the command's. -/
theorem wp_send_reply (cmd : Command) : wp (send op n cmd)
    (fun r s' => s'.mode = s.mode ∧ r = (returned (sendCommand cmd) s.client).bind id) (fun _ _ => True) s := by
  rw [send, wp_bind]
  refine wp_mono (wp_attempt (Q := fun r s' => s'.mode = s.mode ∧ r = returned (sendCommand cmd) s.client)
    (P := fun s' => s'.mode = s.mode ∧ returned (sendCommand cmd) s.client = none)
    (wp_mono (wp_and (wp_returned (sendCommand cmd) s.client) (heeds_sendCommand cmd s.client))
      (fun _ _ h => ⟨Shell.mode_withClient h.2, h.1.symm⟩) fun _ _ h => ⟨Shell.mode_withClient h.2, h.1⟩)
    fun _ _ h => ⟨h.1, h.2.symm⟩) (fun r s' h => ⟨h.1, by rw [← h.2]⟩) fun _ _ _ => trivial

theorem wp_doSlproto_mode {arg : Text} : wp (doSlproto op n arg) (fun _ s' => s'.mode =
      ⟨(if ((returned (sendCommand (slproto (if arg.isEmpty then "4.0".toList else arg))) s.client).bind id).any (·.ok)
        then some (protocolOf (if arg.isEmpty then "4.0".toList else arg)) else none).or s.client.protocol,
        s.sentStation⟩) (fun _ _ => True) s := by
  simp only [doSlproto, wp_bind, wp_ite, wp_onSl, wp_modify, wp_pure]
  refine wp_mono (wp_send_reply _) ?_ fun _ _ _ => trivial
  rintro r s' ⟨hmode, hr⟩
  obtain ⟨-, hst⟩ := Mode.mk.inj hmode
  rw [← hr]
  split
  · exact congrArg (Mode.mk _) hst
  · exact hmode

theorem wp_doStation_mode {arg : Text} : wp (doStation op n arg)
    (fun _ s' => s'.mode = ⟨s.client.protocol, s.sentStation || !arg.isEmpty⟩) (fun _ _ => True) s := by
  simp only [doStation, wp_ite, wp_fail, wp_bind, wp_get, wp_modify]
  split
  · rename_i hempty
    rw [hempty, Bool.not_true, Bool.or_false]
    rfl
  · rename_i hne
    refine wp_mono (wp_send_reply _) ?_ fun _ _ _ => trivial
    rintro r s' ⟨hmode, -⟩
    rw [Bool.eq_false_of_not_eq_true hne, Bool.not_false, Bool.or_true]
    exact congrArg (Mode.mk · true) (Mode.mk.inj hmode).1

end replies

/-! ### What a streaming command leaves alone -/

/-- A relation that only the client, the count of the passes and the watcher's event matter little to. -/
structure Watches (R : Shell → Shell → Prop) : Prop where
  process : ∀ (s : Shell) process, R s { s with process }
  passes : ∀ (s : Shell) passes, R s { s with passes }
  stopped : ∀ s : Shell, R s { s with stopped := true }

namespace Watches
variable {R : Shell → Shell → Prop} (h : Watches R)
include h

theorem onProcess {α : Type} (x : MainM α) : Keeps R (onProcess x) := by
  intro s
  rw [wp_onProcess]
  unfold wp
  split <;> exact h.process s _

variable [IsPreorder Shell R]

theorem awaiting {α : Type} (interrupted : Bool) (x : ClientM α) : Keeps R (awaiting interrupted x) := by
  refine .tryCatch (h.onProcess _) fun stop => ?_
  cases stop with
  | raised e => exact .throw _
  | blocked => exact .ite (.throw _) (.throw _)

theorem strike (press : Option Press) : Keeps R (Press.strike press) := by
  unfold Press.strike
  split
  · refine .modify fun s => ?_
    unfold Shell.watcher
    split
    · exact refl s
    · exact IsTrans.trans _ _ _ (h.stopped s) (h.process _ _)
  · exact .throw _
  · exact .pure _

variable [Externals]

theorem watchPass (press : Option Press) (g : Collect) : Keeps R (watchPass press g) := by
  refine .bind (.modify fun s => h.passes s _) fun _ => .bind (h.strike press) fun _ => .bind .get fun s => ?_
  refine .bind (h.awaiting _ _) fun r => ?_
  cases r.1 with
  | none => exact .pure r
  | some pkt => exact .bind (h.onProcess _) fun _ => .pure r

theorem watch (op : Operator) : ∀ fuel g, Keeps R (watch op fuel g)
  | 0, _ => .throw _
  | fuel + 1, g => .bind .get fun _ => .bind (h.watchPass _ g) fun _ =>
    .ite (.pure _) (.ite (.bind (h.onProcess _) fun _ => .throw _) (watch op fuel _))

end Watches

/-- The same stations have been named. -/
def Shell.SameStation (s s' : Shell) : Prop := s'.sentStation = s.sentStation

instance : IsPreorder Shell Shell.SameStation where
  refl _ := rfl
  trans _ _ _ h h' := h'.trans h

theorem sameStation : Watches Shell.SameStation where
  process _ _ := rfl
  passes _ _ := rfl
  stopped _ := rfl

/-! ### Sessions -/

section session
variable [Externals] {op : Operator} {s₀ s s' : Shell} {n fuel : Nat} {hist : List (Text × Shell)} {typed : Text}

/-- The way to a prompt: what was typed at the prompts before it, and the shell at each. -/
inductive Session (op : Operator) (s₀ : Shell) : Nat → Shell → List (Text × Shell) → Prop
  | start : Session op s₀ 0 s₀ []
  | next {n fuel : Nat} {s s' : Shell} {hist : List (Text × Shell)} {typed : Text} (h : Session op s₀ n s hist)
      (htyped : op.text n = some typed) (hrun : turn op n fuel s = .ok false s') :
      Session op s₀ (n + 1) s' (hist ++ [(typed, s)])

theorem text_of_turn {stop : Bool} (hrun : turn op n fuel s = .ok stop s') : ∃ typed, op.text n = some typed := by
  cases htext : op.text n with
  | some typed => exact ⟨typed, rfl⟩
  | none =>
    have hraise : readTyped op n s = .error (.raised .keyboardInterrupt) s := by unfold readTyped; rw [htext]; rfl
    exact absurd ((seq_error hraise).symm.trans hrun) (by rintro ⟨⟩)

/-- `cmdloop` ends at some prompt of the session: there the last turn ends it, or raises. -/
theorem wp_cmdloop : ∀ {fuel n : Nat} {s : Shell} {hist : List (Text × Shell)}, Session op s₀ n s hist →
    wp (cmdloop op fuel n)
      (fun _ s' => ∃ n s hist fuel, Session op s₀ n s hist ∧ turn op n fuel s = .ok true s')
      (fun stop s' => ∃ n s hist, Session op s₀ n s hist ∧
        ((∃ fuel, turn op n fuel s = .error stop s') ∨ stop = .blocked ∧ s' = s)) s
  | 0, n, s, hist, h => ⟨n, s, hist, h, .inr ⟨rfl, rfl⟩⟩
  | fuel + 1, n, s, hist, h => by
    rw [cmdloop, wp_bind]
    cases hturn : turn op n fuel s with
    | error stop s' => exact (wp_iff_of_error hturn).2 ⟨n, s, hist, h, .inl ⟨fuel, hturn⟩⟩
    | ok stop s' =>
      refine (wp_iff_of_ok hturn).2 ?_
      cases stop with
      | true => exact ⟨n, s, hist, fuel, h, hturn⟩
      | false =>
        obtain ⟨typed, htyped⟩ := text_of_turn hturn
        exact wp_cmdloop (h.next htyped hturn)

/-- What every turn of a session keeps. -/
theorem Session.keeps {P : Shell → Prop} (h : Session op s₀ n s hist) (h₀ : P s₀)
    (hturn : ∀ n fuel s, P s → wp (turn op n fuel) (fun stop s' => stop = false → P s') (fun _ _ => True) s) : P s := by
  induction h with
  | start => exact h₀
  | next _ _ hrun ih => exact wp_ok (hturn _ _ _ ih) hrun rfl

/-- A session sends what is typed: for each line its command as the wire has it, with the heartbeats of the
stream behind it if it starts one, and nothing only where the line asks for nothing or the client withholds the
command. So does the turn that ends it, however it ends. -/
theorem session_sends (h : Session op s₀ n s hist) :
    (∃ parts, List.Forall₂ (fun p lines =>
        Owns p.2.client (p.2.mode.requested p.2.client.cfg.dialup p.1) lines) hist parts ∧
      s.client.sent = s₀.client.sent ++ parts.flatten) ∧
    ∀ fuel, wp (turn op n fuel) (fun _ => s.Sends ((op.text n).bind (s.mode.requested s.client.cfg.dialup)))
      (fun _ => s.Sends ((op.text n).bind (s.mode.requested s.client.cfg.dialup))) s := by
  refine ⟨?_, fun _ => wp_turn_sends⟩
  induction h with
  | start => exact ⟨[], .nil, (List.append_nil _).symm⟩
  | next _ htyped hrun ih =>
    obtain ⟨parts, howns, hsent⟩ := ih
    obtain ⟨lines, hlines, hline⟩ := wp_ok wp_turn_sends hrun
    rw [htyped, Option.bind_some] at hline
    refine ⟨parts ++ [lines], List.rel_append howns (.cons hline .nil), ?_⟩
    rw [hlines, hsent, List.append_assoc, List.flatten_append, List.flatten_singleton]

/-- The shell at a prompt, with the way to it. -/
def promptAt (op : Operator) (fuel : Nat) (s₀ : Shell) : Nat → Option (Shell × List (Text × Shell))
  | 0 => some (s₀, [])
  | n + 1 =>
    match promptAt op fuel s₀ n, op.text n with
    | some (s, hist), some typed =>
      match turn op n fuel s with
      | .ok false s' => some (s', hist ++ [(typed, s)])
      | _ => none
    | _, _ => none

theorem session_of_promptAt : ∀ {n : Nat} {s : Shell} {hist : List (Text × Shell)},
    promptAt op fuel s₀ n = some (s, hist) → Session op s₀ n s hist
  | 0, s, hist, h => by
    cases h
    exact .start
  | n + 1, s, hist, h => by
    rw [promptAt] at h
    split at h
    · rename_i s₁ hist₁ typed hprompt htyped
      split at h
      · rename_i s' hrun
        cases h
        exact (session_of_promptAt hprompt).next htyped hrun
      · cases h
    · cases h

end session

/-- An operator who types these lines. -/
def Operator.typing (lines : List String) : Operator :=
  { typed := fun n => (lines[n]?.map fun line => Typed.line line.toList).getD .endOfInput }

/-- A shell whose server says that it speaks v4, accepts it, and then a station. -/
def upgradable : Shell :=
  { process := {
      client := {
        cfg := {}
        env := ⟨fun _ => .timeout, fun _ => 0, fun _ => true⟩
        sock := some {
          incoming := []
          peer := scripted [
            (Bytes.lit "HELLO" ++ crlf, [.data (Bytes.lit "SeedLink v4.0 :: SLPROTO:4.0" ++ crlf ++ Bytes.lit "ORG" ++ crlf)]),
            (Bytes.lit "SLPROTO 4.0" ++ crlf, [.data (Bytes.lit "OK" ++ crlf)]),
            (Bytes.lit "STATION IU_COLA" ++ [13], [.data (Bytes.lit "OK" ++ crlf)])] } }
      file := none } }

def upgrading : Operator := .typing ["hello", "slproto", "station IU_COLA", "fetch"]

/-- The way to the fourth prompt. -/
def upgraded : Option (Shell × List (Text × Shell)) := @promptAt Externals.bare upgrading 1 upgradable 3

theorem session_sends_upgraded : ∃ s hist, @Session Externals.bare upgrading upgradable 3 s hist ∧
    s.client.sent = [Bytes.lit "HELLO" ++ crlf, Bytes.lit "SLPROTO 4.0" ++ crlf, Bytes.lit "STATION IU_COLA" ++ [13]] ∧
    ∃ parts, List.Forall₂ (fun p lines =>
        Owns p.2.client (@Mode.requested Externals.bare p.2.client.cfg.dialup p.2.mode p.1) lines) hist parts ∧
      s.client.sent = upgradable.client.sent ++ parts.flatten := by
  obtain ⟨⟨s, hist⟩, hrun⟩ := Option.isSome_iff_exists.1 (show upgraded.isSome = true by decide +kernel)
  have hsent : upgraded.map (·.1.client.sent) =
      some [Bytes.lit "HELLO" ++ crlf, Bytes.lit "SLPROTO 4.0" ++ crlf, Bytes.lit "STATION IU_COLA" ++ [13]] := by
    decide +kernel
  rw [hrun] at hsent
  have h := @session_of_promptAt Externals.bare _ _ _ _ _ _ hrun
  exact ⟨s, hist, h, Option.some.inj hsent, (@session_sends Externals.bare _ _ _ _ _ h).1⟩

section mode
variable [Externals] {op : Operator} {s₀ s s' : Shell} {n fuel : Nat} {hist : List (Text × Shell)} {typed : Text}

/-! ### The mode at a prompt -/

/-- The protocol that a typed line upgrades to: that of an `SLPROTO` that the server accepts. -/
def Shell.upgrade (s : Shell) (typed : Text) : Option Protocol :=
  match (parseline typed).1 with
  | some (name, arg) =>
    if name = "slproto".toList then
      let version := if arg.isEmpty then "4.0".toList else arg
      if ((returned (sendCommand (slproto version)) s.client).bind id).any (·.ok) then some (protocolOf version) else none
    else none
  | none => none

/-- The line is a `STATION` with a station. -/
def namesStation (typed : Text) : Bool :=
  match (parseline typed).1 with
  | some (name, arg) => name = "station".toList && !arg.isEmpty
  | none => false

/-- The mode behind a typed line. -/
def Shell.modeAfter (s : Shell) (typed : Text) : Mode :=
  ⟨(s.upgrade typed).or s.client.protocol, s.sentStation || namesStation typed⟩

theorem sameStation_watchPackets (op : Operator) (fuel : Nat) : Keeps Shell.SameStation (watchPackets op fuel) := by
  refine .bind (.tryCatch (.tryCatch (sameStation.watch op fuel _) fun stop => ?_) fun _ =>
    .bind (.modify fun _ => rfl) fun _ => .throw _) fun _ => .modify fun _ => rfl
  cases stop with
  | raised e => exact .ite (.ite (.pure _) (.bind .get fun _ => .ite (.pure _) (.modify fun _ => rfl))) (.throw _)
  | blocked => exact .throw _

theorem keepsMode (m : Mode) : TurnKeeps op n fuel (fun s => s.mode = m) (fun _ => True) where
  raised _ _ := trivial
  shell s s' hp hst _ hm := by rw [← hm, Shell.mode, Shell.mode, Shell.client, Shell.client, hp, hst]
  call hx s hm := wp_mono (hx.heeds s.client) (fun _ _ hc => (Shell.mode_withClient hc).trans hm)
    fun _ _ hc => (Shell.mode_withClient hc).trans hm
  finish cmd s hm := by
    rw [finishHandshake, wp_bind]
    refine wp_mono (wp_attempt (P := fun s' => s'.mode = m) (Q := fun _ s' => s'.mode = m)
      (wp_mono (heeds_sendCommand cmd s.client) (fun _ _ hc => (Shell.mode_withClient hc).trans hm)
        fun _ _ hc => (Shell.mode_withClient hc).trans hm) fun _ _ h => h) (fun r s₁ h₁ => ?_) fun _ _ _ => trivial
    simp only [wp_ite, wp_bind, wp_modify, wp_pure]
    split
    · refine wp_mono (wp_and (wp_watchPackets streams_heeds rfl) (sameStation_watchPackets op fuel _))
        (fun _ s' h => ?_) fun _ _ _ => trivial
      rw [← h₁, Shell.mode, Shell.mode, h.1, h.2]
      rfl
    · exact h₁

/-- A turn is its command, on a shell that has reported nothing yet. -/
theorem turn_eq {name arg line : Text} (htyped : op.text n = some typed)
    (hparsed : parseline typed = (some (name, arg), line)) :
    turn op n fuel s = (dispatch op n fuel name arg line >>= postcmd) { s with hadError := false } := by
  unfold turn readTyped
  rw [htyped]
  show (onecmd op n fuel typed >>= postcmd) s = _
  unfold onecmd
  rw [hparsed]
  rfl

theorem wp_turn_dispatch {Q : Bool → Shell → Prop} {E : Stop → Shell → Prop} {name arg line : Text}
    (htyped : op.text n = some typed) (hparsed : parseline typed = (some (name, arg), line)) :
    wp (turn op n fuel) Q E s = wp (dispatch op n fuel name arg line)
      (fun stop s' => Q (stop || s'.client.sock.isNone) s') E { s with hadError := false } := by
  unfold turn readTyped
  rw [htyped]
  simp only [wp_bind, wp_pure, onecmd, wp_modify, hparsed, postcmd, wp_get]

theorem wp_turn_mode (htyped : op.text n = some typed) :
    wp (turn op n fuel) (fun _ s' => s'.mode = s.modeAfter typed) (fun _ _ => True) s := by
  have hkeeps : (∀ arg, (parseline typed).1 ≠ some ("slproto".toList, arg)) →
      (∀ arg, (parseline typed).1 = some ("station".toList, arg) → arg.isEmpty = true) →
      wp (turn op n fuel) (fun _ s' => s'.mode = s.mode) (fun _ _ => True) s := by
    intro hproto hstation
    refine (keepsMode s.mode).turn rfl (fun typed' arg ht hp => ?_) fun typed' arg ht hp hne => ?_
    · obtain rfl : typed = typed' := Option.some.inj (htyped.symm.trans ht)
      exact absurd hp (hproto arg)
    · obtain rfl : typed = typed' := Option.some.inj (htyped.symm.trans ht)
      exact absurd (hstation arg hp) (by rw [hne]; exact Bool.false_ne_true)
  unfold Shell.modeAfter Shell.upgrade namesStation
  rcases hparsed : parseline typed with ⟨_ | ⟨name, arg⟩, line⟩
  · rw [hparsed] at hkeeps
    refine wp_mono (hkeeps nofun nofun) (fun _ s' h => ?_) fun _ _ _ => trivial
    rw [h, Bool.or_false]
    rfl
  by_cases hslproto : name = "slproto".toList
  · subst hslproto
    rw [wp_turn_dispatch htyped hparsed, dispatch, if_neg (by decide), if_pos rfl, wp_bind]
    refine wp_mono wp_doSlproto_mode (fun _ s' h => ?_) fun _ _ _ => trivial
    simp only [wp_pure, if_true, h]
    rw [show decide ("slproto".toList = "station".toList) = false from rfl, Bool.false_and, Bool.or_false]
    rfl
  by_cases hstation : name = "station".toList
  · subst hstation
    rw [wp_turn_dispatch htyped hparsed, dispatch, if_neg (by decide), if_neg (by decide), if_pos rfl, wp_bind]
    refine wp_mono wp_doStation_mode (fun _ s' h => ?_) fun _ _ _ => trivial
    simp only [wp_pure, h]
    rw [if_neg hslproto, decide_true, Bool.true_and]
    rfl
  · rw [hparsed] at hkeeps
    refine wp_mono (hkeeps (fun arg h => hslproto (congrArg Prod.fst (Option.some.inj h)))
      fun arg h => absurd (congrArg Prod.fst (Option.some.inj h)) hstation) (fun _ s' h => ?_) fun _ _ _ => trivial
    simp only [h, if_neg hslproto, decide_eq_false hstation, Bool.false_and, Bool.or_false, Option.none_or]
    rfl

theorem Session.mode (h : Session op s₀ n s hist) : s.mode =
    { protocol := (hist.filterMap fun p => p.2.upgrade p.1).getLast?.or s₀.client.protocol
      sentStation := s₀.sentStation || hist.any fun p => namesStation p.1 } := by
  induction h with
  | start => simp [Shell.mode]
  | @next n fuel s s' hist typed h htyped hrun ih =>
    obtain ⟨hproto, hst⟩ := Mode.mk.inj ih
    rw [wp_ok (wp_turn_mode htyped) hrun, Shell.modeAfter, hproto, hst]
    cases hup : s.upgrade typed <;> simp [hup, List.filterMap_append, Bool.or_assoc]

/-- The commands that end the handshake of a client with a single station. -/
def Mode.uniStation (mode : Mode) (name : Text) : Bool :=
  name = "fetch".toList || name = "time".toList || (name = "data".toList && mode.protocol ≠ some .v4)

/-- The turn sends the command and reads its reply, if it is acknowledged; otherwise it streams behind it. -/
def Shell.CarriesOut (op : Operator) (n : Nat) (s : Shell) (acknowledged : Bool) (cmd : Command) : Prop :=
  cmd.parse.isSome = acknowledged ∧ ∀ fuel, turn op n fuel s =
    ((if acknowledged then do let _ ← send op n cmd else finishHandshake op n fuel cmd) >>= fun _ => postcmd false)
      { s with hadError := false }

theorem carriesOut_of_eq (command : Bool → Command) (hparse : ∀ b, (command b).parse.isSome = b)
    (hturn : ∀ fuel, turn op n fuel s = ((if s.sentStation then do let _ ← send op n (command true)
      else finishHandshake op n fuel (command false)) >>= fun _ => postcmd false) { s with hadError := false }) :
    s.CarriesOut op n s.sentStation (command s.sentStation) := by
  refine ⟨hparse _, fun fuel => (hturn fuel).trans ?_⟩
  cases s.sentStation <;> rfl

theorem Mode.request_time {dialup : Bool} {mode : Mode} {arg : Text} : mode.request dialup "time".toList arg =
    (Text.splitWord1 arg).head?.map fun start =>
      (timeV3 [] start (Text.splitWord1 arg).tail.head? mode.sentStation, !mode.sentStation) := by
  unfold Mode.request
  rw [if_neg (by decide), if_neg (by decide), if_neg (by decide), if_neg (by decide), if_neg (by decide),
    if_neg (by decide), if_pos rfl]
  cases Text.splitWord1 arg <;> rfl

theorem carriesOut_of_request {name arg line : Text} {cmd : Command} {streams : Bool} (htyped : op.text n = some typed)
    (hparsed : parseline typed = (some (name, arg), line)) (hname : s.mode.uniStation name = true)
    (hreq : s.mode.request s.client.cfg.dialup name arg = some (cmd, streams)) :
    s.CarriesOut op n s.sentStation cmd := by
  have hreply : ∀ b, (replyIf b).isSome = b := by decide
  have hthen : ∀ (x : ShellM Unit) s', ((do x; return false) >>= postcmd) s' = (x >>= fun _ => postcmd false) s' := by
    intro x s'
    rw [bind_assoc]
    rfl
  simp only [Mode.uniStation, Bool.or_eq_true, Bool.and_eq_true, decide_eq_true_eq] at hname
  rcases hname with (rfl | rfl) | ⟨rfl, hp⟩
  · obtain ⟨seq, hseq, hcmd⟩ := Option.map_eq_some_iff.1 (hreq : (seqArg arg).map _ = _)
    cases hcmd
    refine carriesOut_of_eq (dataV3 [] "FETCH".toList seq none) hreply fun fuel => ?_
    refine (turn_eq htyped hparsed).trans ((hthen (doFetch op n fuel arg) _).trans ?_)
    rw [doFetch, hseq]
    rfl
  · rw [Mode.request_time] at hreq
    cases hwords : Text.splitWord1 arg with
    | nil =>
      rw [hwords] at hreq
      cases hreq
    | cons start rest =>
      rw [hwords] at hreq
      cases hreq
      refine carriesOut_of_eq (timeV3 [] start rest.head?) hreply fun fuel => ?_
      refine (turn_eq htyped hparsed).trans ((hthen (doTime op n fuel arg) _).trans ?_)
      rw [doTime, hwords]
      rfl
  · obtain ⟨seq, hseq, hcmd⟩ := Option.bind_eq_some_iff.1 (hreq : (seqArg arg).bind _ = _)
    rw [if_neg hp] at hcmd
    cases hcmd
    refine carriesOut_of_eq (dataV3 [] "DATA".toList seq none) hreply fun fuel => ?_
    refine (turn_eq htyped hparsed).trans ((hthen (doData op n fuel arg) _).trans ?_)
    rw [doData, hseq]
    show ((if s.client.protocol = some .v4 then _ else _ : ShellM Unit) >>= fun _ => postcmd false)
      { s with hadError := false } = _
    rw [if_neg (show ¬ s.client.protocol = some .v4 from hp)]

/-- The protocol at a prompt is that of the last `SLPROTO` accepted, and what may end the handshake is acknowledged
instead from the first `STATION` on. -/
theorem session_mode (h : Session op s₀ n s hist) :
    s.mode = { protocol := (hist.filterMap fun p => p.2.upgrade p.1).getLast?.or s₀.client.protocol
               sentStation := s₀.sentStation || hist.any fun p => namesStation p.1 } ∧
    ∀ typed name arg line cmd streams, op.text n = some typed → parseline typed = (some (name, arg), line) →
      s.mode.uniStation name = true → s.mode.request s.client.cfg.dialup name arg = some (cmd, streams) →
        s.CarriesOut op n (s₀.sentStation || hist.any fun p => namesStation p.1) cmd := by
  refine ⟨h.mode, fun typed name arg line cmd streams htyped hparsed hname hreq => ?_⟩
  rw [← (Mode.mk.inj h.mode).2]
  exact carriesOut_of_request htyped hparsed hname hreq

end mode

/-- The FETCH at the fourth prompt is acknowledged. -/
theorem session_mode_upgraded : ∃ s hist, @Session Externals.bare upgrading upgradable 3 s hist ∧
    s.mode = ⟨some .v4, true⟩ ∧
    @Shell.CarriesOut Externals.bare upgrading 3 s true (dataV3 [] "FETCH".toList none none true) := by
  obtain ⟨⟨s, hist⟩, hrun⟩ := Option.isSome_iff_exists.1 (show upgraded.isSome = true by decide +kernel)
  have hmode : upgraded.map (·.1.mode) = some ⟨some .v4, true⟩ := by decide +kernel
  rw [hrun] at hmode
  have hmode : s.mode = ⟨some .v4, true⟩ := Option.some.inj hmode
  have h := @session_of_promptAt Externals.bare _ _ _ _ _ _ hrun
  obtain ⟨hset, hcarries⟩ := @session_mode Externals.bare _ _ _ _ _ h
  have hnamed : (upgradable.sentStation || hist.any fun p => namesStation p.1) = true :=
    (Mode.mk.inj (hset.symm.trans hmode)).2
  rw [hnamed] at hcarries
  refine ⟨s, hist, h, hmode, hcarries "fetch".toList "fetch".toList [] "fetch".toList _ false rfl (by decide) ?_ ?_⟩
  · rw [hmode]
    rfl
  · rw [hmode]
    rfl

/-! ### The exit code -/

/-- Nothing has been reported. -/
structure Shell.Silent (s s' : Shell) : Prop where
  errors : s'.errors = s.errors
  hadError : s'.hadError = s.hadError

instance : IsPreorder Shell Shell.Silent where
  refl _ := ⟨rfl, rfl⟩
  trans _ _ _ h h' := ⟨h'.errors.trans h.errors, h'.hadError.trans h.hadError⟩

theorem silent : Watches Shell.Silent where
  process _ _ := ⟨rfl, rfl⟩
  passes _ _ := ⟨rfl, rfl⟩
  stopped _ := ⟨rfl, rfl⟩

/-- At most one error has been reported, and is remembered. -/
def Shell.Reports (s s' : Shell) : Prop :=
  s.Silent s' ∨ ∃ message, s'.errors = s.errors ++ [message] ∧ s'.hadError = true

section reports
variable {s s₁ s' : Shell} {op : Operator} {n fuel : Nat}

theorem Shell.Reports.trans (h : s.Reports s₁) (h' : s₁.Silent s') : s.Reports s' := by
  rcases h with h | ⟨message, herrors, herror⟩
  · exact .inl (IsTrans.trans _ _ _ h h')
  · exact .inr ⟨message, by rw [h'.errors, herrors], by rw [h'.hadError, herror]⟩

theorem Shell.Silent.failed (h : s.Silent s') (message : String) : s.Reports (s'.failed message) :=
  .inr ⟨_, congrArg (· ++ _) h.errors, rfl⟩

theorem reports_fail (message : String) : wp (fail message) (fun _ => s.Reports) (fun _ => s.Reports) s :=
  (refl s : s.Silent s).failed message

theorem wp_attempt_reports {α : Type} (x : ClientM α) :
    wp (attempt op n x) (fun r s' => s.Reports s' ∧ (r.isSome = true → s.Silent s')) (fun _ => s.Reports) s := by
  refine wp_mono (wp_attempt (P := s.Silent) (Q := fun r s' => s.Reports s' ∧ (r.isSome = true → s.Silent s')) ?_
    fun s' message h => ⟨h.failed message, nofun⟩) (fun _ _ h => h) fun _ _ h => .inl h
  unfold wp
  split
  · exact ⟨.inl ⟨rfl, rfl⟩, fun _ => ⟨rfl, rfl⟩⟩
  · exact ⟨rfl, rfl⟩

theorem wp_send_reports (cmd : Command) : wp (send op n cmd) (fun _ => s.Reports) (fun _ => s.Reports) s := by
  rw [send, wp_bind]
  exact wp_mono (wp_attempt_reports _) (fun _ _ h => h.1) fun _ _ h => h

/-- The exit code of a line entered in `s` that has left `s'`. -/
def Shell.Exits (s s' : Shell) (code : Int) : Prop :=
  code = 0 ∧ s'.errors = s.errors ∨ code = 1 ∧ ∃ message, s'.errors = s.errors ++ [message]

theorem exits_of_reports (h : ({ s with hadError := false } : Shell).Reports s') :
    s.Exits s' (if s'.hadError then 1 else 0) := by
  rcases h with h | ⟨message, herrors, herror⟩
  · rw [if_neg (by rw [h.hadError]; exact Bool.false_ne_true)]
    exact .inl ⟨rfl, h.errors⟩
  · rw [if_pos herror]
    exact .inr ⟨rfl, message, herrors⟩

variable [Externals]

theorem wp_watchPackets_reports (h₀ : s.Silent s₁) :
    wp (watchPackets op fuel) (fun _ => s.Reports) (fun _ => s.Reports) s₁ := by
  simp only [watchPackets, wp_bind, wp_tryCatch, wp_excepting, wp_modify, wp_throw]
  refine wp_mono (silent.watch op fuel .start s₁) (fun _ s' h => ?_) fun stop s' h => ?_
  · exact .inl ⟨h.errors.trans h₀.errors, h.hadError.trans h₀.hadError⟩
  have hsilent : s.Silent s' := IsTrans.trans _ _ _ h₀ h
  rcases stop with e | _
  · simp only [wp_ite, wp_bind, wp_get, wp_pure, wp_fail]
    split
    · split
      · exact .inl ⟨hsilent.errors, hsilent.hadError⟩
      · split
        · exact .inl ⟨hsilent.errors, hsilent.hadError⟩
        · exact (hsilent.failed _).trans ⟨rfl, rfl⟩
    · exact .inl ⟨hsilent.errors, hsilent.hadError⟩
  · exact .inl ⟨hsilent.errors, hsilent.hadError⟩

theorem wp_finishHandshake_reports (cmd : Command) :
    wp (finishHandshake op n fuel cmd) (fun _ => s.Reports) (fun _ => s.Reports) s := by
  rw [finishHandshake, wp_bind]
  refine wp_mono (wp_attempt_reports _) ?_ fun _ _ h => h
  rintro r s₁ ⟨hreports, hsilent⟩
  simp only [wp_ite, wp_bind, wp_modify, wp_pure]
  split
  · rename_i hsome
    exact wp_watchPackets_reports ⟨(hsilent hsome).errors, (hsilent hsome).hadError⟩
  · exact hreports

theorem wp_uniStation_reports (command : Bool → Command) :
    wp (if s.sentStation then do let _ ← send op n (command true) else finishHandshake op n fuel (command false))
      (fun _ => s.Reports) (fun _ => s.Reports) s := by
  split
  · rw [wp_bind]
    exact wp_mono (wp_send_reports _) (fun _ _ h => h) fun _ _ h => h
  · exact wp_finishHandshake_reports _

theorem wp_doData_reports (arg : Text) : wp (doData op n fuel arg) (fun _ => s.Reports) (fun _ => s.Reports) s := by
  unfold doData
  cases seqArg arg with
  | none => exact reports_fail _
  | some seq =>
    simp only [wp_bind, wp_get]
    split
    · rw [wp_bind]
      cases dataV4 [] seq false none none with
      | error e => exact .inl (refl s)
      | ok cmd =>
        simp only [liftShell, wp_pure, wp_bind]
        exact wp_mono (wp_send_reports cmd) (fun _ _ h => h) fun _ _ h => h
    · exact wp_uniStation_reports (dataV3 [] "DATA".toList seq none)

theorem wp_dispatch_reports {name arg line : Text} :
    wp (dispatch op n fuel name arg line) (fun _ => s.Reports) (fun _ => s.Reports) s := by
  have hthen : ∀ {x : ShellM Unit} {stop : Bool}, wp x (fun _ => s.Reports) (fun _ => s.Reports) s →
      wp (do x; return stop) (fun _ => s.Reports) (fun _ => s.Reports) s := by
    intro x stop hx
    rw [wp_bind]
    exact wp_mono hx (fun _ _ h => h) fun _ _ h => h
  have hcall : ∀ {α : Type} {x : ClientM α}, wp (do let _ ← attempt op n x) (fun _ => s.Reports) (fun _ => s.Reports) s := by
    intro α x
    rw [wp_bind]
    exact wp_mono (wp_attempt_reports x) (fun _ _ h => h.1) fun _ _ h => h
  unfold dispatch
  refine wp_branch (fun _ => hthen hcall) fun _ => ?_
  refine wp_branch (fun _ => hthen ?_) fun _ => ?_
  · simp only [doSlproto, wp_bind, wp_ite, wp_onSl, wp_modify, wp_pure]
    refine wp_mono (wp_send_reports _) (fun r s' h => ?_) fun _ _ h => h
    split
    · exact h.trans ⟨rfl, rfl⟩
    · exact h
  refine wp_branch (fun _ => hthen ?_) fun _ => ?_
  · simp only [doStation, wp_ite, wp_bind, wp_get, wp_modify]
    split
    · exact reports_fail _
    · exact wp_mono (wp_send_reports _) (fun _ _ h => h.trans ⟨rfl, rfl⟩) fun _ _ h => h
  refine wp_branch (fun _ => hthen ?_) fun _ => ?_
  · simp only [doSelect, wp_bind, wp_get]
    exact wp_mono (wp_send_reports _) (fun _ _ h => h) fun _ _ h => h
  refine wp_branch (fun _ => hthen (wp_doData_reports arg)) fun _ => ?_
  refine wp_branch (fun _ => hthen ?_) fun _ => ?_
  · unfold doFetch
    cases seqArg arg with
    | none => exact reports_fail _
    | some seq =>
      simp only [wp_bind, wp_get]
      exact wp_uniStation_reports (dataV3 [] "FETCH".toList seq none)
  refine wp_branch (fun _ => hthen ?_) fun _ => ?_
  · unfold doTime
    cases Text.splitWord1 arg with
    | nil => exact reports_fail _
    | cons start rest =>
      simp only [wp_bind, wp_get]
      exact wp_uniStation_reports (timeV3 [] start rest.head?)
  refine wp_branch (fun _ => hthen ?_) fun _ => ?_
  · simp only [doEnd, wp_bind, wp_get]
    exact wp_finishHandshake_reports _
  refine wp_branch (fun _ => hthen ?_) fun _ => ?_
  · simp only [doDetails, wp_ite, wp_pure]
    split
    · exact .inl (refl s)
    · cases Text.intBase10 arg with
      | none => exact reports_fail _
      | some level =>
        simp only [wp_ite, wp_modify]
        split
        · exact .inl ⟨rfl, rfl⟩
        · exact reports_fail _
  refine wp_branch (fun _ => hthen ?_) fun _ => ?_
  · simp only [doSamples, wp_ite, wp_pure, wp_modify]
    split
    · exact .inl (refl s)
    · split
      · exact .inl ⟨rfl, rfl⟩
      · exact reports_fail _
  refine wp_branch (fun _ => hthen hcall) fun _ => ?_
  refine wp_branch (fun _ => .inl (refl s)) fun _ => ?_
  refine wp_branch (fun _ => hthen hcall) fun _ => ?_
  exact wp_branch (fun _ => .inl (refl s)) fun _ => hthen (reports_fail _)

/-- A line that is entered reports at most one error, which `had_error` then says. -/
theorem wp_turn_reports {typed : Text} (htyped : op.text n = some typed) : wp (turn op n fuel)
    (fun _ => ({ s with hadError := false } : Shell).Reports) (fun _ => ({ s with hadError := false } : Shell).Reports) s := by
  rcases hparsed : parseline typed with ⟨_ | ⟨name, arg⟩, line⟩
  · unfold turn readTyped
    rw [htyped]
    simp only [wp_bind, wp_pure, onecmd, wp_modify, hparsed, postcmd, wp_get, wp_ite, unknownCommand]
    split
    · exact .inl (refl _)
    · exact reports_fail _
  · rw [wp_turn_dispatch htyped hparsed]
    exact wp_dispatch_reports

/-- The run ends at prompt `n` of its session, and `code` is the one of the line entered last: of the line typed there,
whose turn ends the session or is ended by Ctrl-C; or, where Ctrl-C comes at the prompt, of the line before it, if
there is one. -/
inductive EndsWith (op : Operator) (s₀ : Shell) (n : Nat) (s : Shell) (hist : List (Text × Shell)) (s' : Shell) :
    Int → Prop
  | line {typed : Text} {fuel : Nat} {code : Int} (htyped : op.text n = some typed)
      (hturn : turn op n fuel s = .ok true s' ∨ turn op n fuel s = .error (.raised .keyboardInterrupt) s')
      (hcode : s.Exits s' code) : EndsWith op s₀ n s hist s' code
  | interrupted {before : List (Text × Shell)} {typed : Text} {s₁ : Shell} {code : Int} (htyped : op.text n = none)
      (hhist : hist = before ++ [(typed, s₁)]) (hs : s' = s) (hcode : s₁.Exits s code) : EndsWith op s₀ n s hist s' code
  | nothing (htyped : op.text n = none) (hhist : hist = []) (hs : s' = s) :
      EndsWith op s₀ n s hist s' (if s₀.hadError then 1 else 0)

/-- A run without an exit code: the turn of the line entered last raises something that is not Ctrl-C, or waits for
ever. -/
def EscapesWith (op : Operator) (n : Nat) (s : Shell) (stop : Stop) (s' : Shell) : Prop :=
  stop = .blocked ∨ ∃ typed fuel e, op.text n = some typed ∧ turn op n fuel s = .error (.raised e) s' ∧
    stop = .raised e ∧ e ≠ .keyboardInterrupt

/-- The exit code of an interactive run is that of the line entered last: 1 if it has reported an error, and
then one only, and 0 otherwise. Ctrl-C at a prompt does not change it, and other exceptions escape. -/
theorem interact_exits {s₀ : Shell} : wp (interact op fuel)
    (fun code s' => ∃ n s hist, Session op s₀ n s hist ∧ EndsWith op s₀ n s hist s' code)
    (fun stop s' => ∃ n s hist, Session op s₀ n s hist ∧ EscapesWith op n s stop s') s₀ := by
  simp only [interact, wp_bind, wp_excepting, wp_get, wp_pure]
  refine wp_mono (wp_cmdloop .start) ?_ ?_
  · rintro _ s' ⟨n, s, hist, fuel, h, hrun⟩
    obtain ⟨typed, htyped⟩ := text_of_turn hrun
    have hreports := (wp_iff_of_ok hrun).1 (wp_turn_reports htyped)
    exact ⟨n, s, hist, h, .line htyped (.inl hrun) (exits_of_reports hreports)⟩
  rintro (e | _) s' ⟨n, s, hist, h, hend⟩
  · obtain ⟨fuel, hrun⟩ : ∃ fuel, turn op n fuel s = .error (.raised e) s' := by
      rcases hend with hend | ⟨hstop, -⟩
      · exact hend
      · cases hstop
    simp only [decide_eq_true_eq]
    cases htyped : op.text n with
    | some typed =>
      split
      · rename_i he
        subst he
        have hreports := (wp_iff_of_error hrun).1 (wp_turn_reports htyped)
        exact ⟨n, s, hist, h, .line htyped (.inr hrun) (exits_of_reports hreports)⟩
      · exact ⟨n, s, hist, h, .inr ⟨typed, fuel, e, htyped, hrun, rfl, ‹_›⟩⟩
    | none =>
      -- Ctrl-C at the prompt: the line before it decides
      have hraise : readTyped op n s = .error (.raised .keyboardInterrupt) s := by
        unfold readTyped
        rw [htyped]
        rfl
      obtain ⟨he, hs⟩ := EStateM.Result.error.inj ((seq_error hraise).symm.trans hrun)
      cases he
      rw [if_pos rfl]
      refine ⟨n, s, hist, h, ?_⟩
      cases h with
      | start =>
        rw [← hs]
        exact .nothing htyped rfl rfl
      | next h htyped' hrun' =>
        rw [← hs]
        exact .interrupted htyped rfl rfl (exits_of_reports ((wp_iff_of_ok hrun').1 (wp_turn_reports htyped')))
  · exact ⟨n, s, hist, h, .inl rfl⟩

end reports

/-- An operator who mistypes a line and leaves with Ctrl-C. -/
def mistyping : Operator := { typed := fun n => if n = 0 then .line "bogus".toList else .interrupt }

/-- The exit code is that of the line, whose error has been reported. -/
theorem interact_exits_mistyping : ∃ s', @interact Externals.bare mistyping 3 upgradable = .ok 1 s' ∧
    ∃ n s hist, @Session Externals.bare mistyping upgradable n s hist ∧
      @EndsWith Externals.bare mistyping upgradable n s hist s' 1 := by
  obtain ⟨s', hrun⟩ := exists_of_returned
    (show returned (@interact Externals.bare mistyping 3) upgradable = some 1 by decide +kernel)
  exact ⟨s', hrun, wp_ok (@interact_exits mistyping 3 Externals.bare upgradable) hrun⟩

end Cli

end SeedLink
