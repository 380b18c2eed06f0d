import SeedLink.Setup

/-!
# The command-line client (`cli.py`)

`main` without `-c`, from the client that the server string and the connection options give. What it
prints is left out. A run can be struck at any `Place`: something raises there or a signal arrives.
Where such a strike finds a list of streams half done, it also says how far the assignments got. A
read that never ends can be interrupted too; a run that neither ends nor is interrupted is `blocked`.
-/

namespace SeedLink

open StateExc

namespace Cli

/-- The options that `main` reads itself. -/
structure Args where
  verbose : Bool := false
  ping : Bool := false
  packetDetails : Nat := 0
  unpack : Bool := false
  streams : Option Text := none
  selectors : Option Text := none
  /-- What reading the list file gives, where one is named. -/
  listFile : Option (Except Exn Text) := none
  timewindow : Option Text := none
  statefile : Option Text := none
  dumpfile : Option Text := none
  /-- The dump is not appended to the state file. -/
  apart : dumpfile = none ∨ dumpfile ≠ statefile := by decide
  info : Option Text := none
  id : Bool := false
  stationList : Bool := false
  streamList : Bool := false
  connectionList : Bool := false

def Args.infoLevel (args : Args) : Option Text :=
  if args.id then some "ID".toList
  else if args.stationList then some "STATIONS".toList
  else if args.streamList then some "STREAMS".toList
  else if args.connectionList then some "CONNECTIONS".toList
  else args.info

/-- `_print_packet` prints something. -/
def Args.prints (args : Args) : Bool := args.verbose || args.packetDetails ≠ 0 || args.unpack

/-- The points of a run at which it may be struck; those of the streaming loop count its passes. -/
inductive Place
  | connecting
  | connected
  | informing
  | selecting
  | selected
  | reading
  | opening
  | defaulting
  | passing (i : Nat)
  | waiting (i : Nat)
  | printing (i : Nat)
  | writing (i : Nat)
  | written (i : Nat)
  | saved (i : Nat)
  | closing
  | reporting
  | leaving
  | left
  deriving DecidableEq

/-- What happens to a run. -/
structure Mishaps where
  strike : Place → Option Exn := fun _ => none
  /-- The recovered state is being put into the streams, so many assignments are made. -/
  recovering : Option (Nat × Exn) := none
  /-- The packet of a pass is being put into the streams, so many assignments are made. -/
  updating : Nat → Option (Nat × Exn) := fun _ => none
  /-- What each save meets. -/
  faults : Nat → Faults := fun _ _ => none

/-- A running `main`, with the packets it has received. -/
structure Process where
  client : Client
  /-- The text of the state file, if there is one. -/
  file : Option Text
  /-- The payloads in the buffer of the dump file, and those in the file. -/
  buffered : List Bytes := []
  dumped : List Bytes := []
  saves : Nat := 0
  received : List SeedLinkPacket := []

abbrev MainM := EStateM Stop Process

def onClient {α : Type} (x : ClientM α) : MainM α := fun p =>
  match x p.client with
  | .ok a c => .ok a { p with client := c }
  | .error e c => .error e { p with client := c }

/-- `try: x except E: ...`. -/
def catching {α : Type} (x : MainM α) (caught : Exn → Bool) (handler : Exn → MainM α) : MainM α :=
  tryCatch x fun stop =>
    match stop with
    | .raised e => if caught e then handler e else throw stop
    | .blocked => throw stop

/-- `try: x finally: last`. -/
def tryFinally {α : Type} (x : MainM α) (last : MainM Unit) : MainM α := do
  let a ← tryCatch x fun stop =>
    match stop with
    | .raised e => do
      last
      throw (.raised e)
    | .blocked => throw .blocked
  last
  return a

def strike (m : Mishaps) (place : Place) : MainM Unit :=
  match m.strike place with
  | some e => throw (.raised e)
  | none => pure ⟨⟩

/-- Printing may fail; where nothing is printed, only a signal strikes. -/
def strikePrint (m : Mishaps) (prints : Bool) (place : Place) : MainM Unit :=
  match m.strike place with
  | some e => if prints || e = .keyboardInterrupt then throw (.raised e) else pure ⟨⟩
  | none => pure ⟨⟩

/-- A call that may have to wait, and be interrupted while it does. -/
def await {α : Type} (m : Mishaps) (place : Place) (x : ClientM α) : MainM α :=
  tryCatch (onClient x) fun stop =>
    match stop with
    | .raised e => throw (.raised e)
    | .blocked => do
      strike m place
      throw .blocked

/-- The first `n` of the assignments that turn the streams `old` into `new`: the number of a stream
comes first, then its timestamp or its packet. -/
def upTo (n : Nat) (old new : List Stream) : List Stream :=
  (old.zip new).mapIdx fun i p =>
    { p.1 with seqnum := if 2 * i < n then p.2.seqnum else p.1.seqnum,
               timestamp := if 2 * i + 1 < n then p.2.timestamp else p.1.timestamp,
               pendingPacket := if 2 * i + 1 < n then p.2.pendingPacket else p.1.pendingPacket }

def setStreams (streams : List Stream) : MainM Unit :=
  modify fun p => { p with client := { p.client with base := { p.client.base with streams } } }

section main
variable [Externals]

/-! ### Setting up -/

/-- `recover_state` on the state file. -/
def recoverState (m : Mishaps) : MainM Unit := do
  strike m .reading
  let p ← get
  match p.file with
  | none => throw (.raised .osError)
  | some text => do
    onClient (onBase (Base.recoverState (.ok (Text.universalNewlines text))))
    match m.recovering with
    | none => return
    | some (n, e) => do
      let p' ← get
      setStreams (upTo n p.client.base.streams p'.client.base.streams)
      throw (.raised e)

/-- The two times of `--timewindow`. -/
def Args.window (args : Args) : Base.TimeArg × Option Base.TimeArg :=
  let (start, _, stop) := Text.partition '/' (args.timewindow.getD [])
  (.text start, if stop.isEmpty then none else some (.text stop))

/-- What is wrong with `--timewindow`. -/
def Args.windowError (args : Args) (e : Exn) : Exn :=
  let message := match e with | .valueError message => message | _ => ""
  seedLinkError s!"Invalid --timewindow {
    String.ofList (reprAscii (Bytes.encodeUtf8 (args.timewindow.getD [])))}: {message}"

/-- The streams that the options name. -/
def selectStreams (args : Args) : BaseM Unit :=
  if truthy args.streams then Base.addStreamlist (args.streams.getD []) args.selectors
  else
    match args.listFile with
    | some content => Base.addStreamlistFile content args.selectors
    | none =>
      if truthy args.selectors then
        Base.setAllStations (some (.text (args.selectors.getD []))) none false none
      else pure ⟨⟩

def setTimewindow (args : Args) : MainM Unit :=
  if truthy args.timewindow then
    catching (onClient (onBase (Base.setTimewindow args.window.1 args.window.2))) Exn.isValueError fun e =>
      throw (.raised (args.windowError e))
  else pure ⟨⟩

/-- A state file that cannot be opened is taken for one that is not there yet. -/
def recoverPositions (args : Args) (m : Mishaps) : MainM Unit :=
  if truthy args.statefile then catching (recoverState m) Exn.isOSError fun _ => return
  else pure ⟨⟩

/-- `_configure_streams`. -/
def configureStreams (args : Args) (m : Mishaps) : MainM Unit := do
  strike m .selecting
  onClient (onBase (selectStreams args))
  strike m .selected
  setTimewindow args
  recoverPositions args m

/-! ### Saving -/

/-- `save_state`. -/
def saveState (m : Mishaps) : MainM Unit := do
  let p ← get
  match Base.saveState (m.faults p.saves) p.client.base with
  | .ok text b => set { p with client := { p.client with base := b }, file := some text, saves := p.saves + 1 }
  | .error e b => do
    set { p with client := { p.client with base := b }, saves := p.saves + 1 }
    throw (.raised e)

/-- `_STATEFILE_SAVE_INTERVAL`. -/
def statefileSaveInterval : Int := 5000000000

/-! ### Streaming -/

/-- The default stream is set, its position not yet recovered. -/
def strikeDefault (m : Mishaps) : MainM Unit :=
  match m.strike .defaulting with
  | none => pure ⟨⟩
  | some e => do
    let p ← get
    if p.client.base.streams.isEmpty then setStreams [{ stationId := ['*'] }]
    throw (.raised e)

/-- A packet has arrived. Its streams, which were `old`, may be half updated. -/
def note (m : Mishaps) (i : Nat) (old : List Stream) (pkt : SeedLinkPacket) : MainM Unit := do
  modify fun p => { p with received := p.received ++ [pkt] }
  match m.updating i with
  | none => return
  | some (n, e) => do
    let p ← get
    setStreams (upTo n old p.client.base.streams)
    throw (.raised e)

/-- A pass of `collect`. -/
def receive (m : Mishaps) (i : Nat) (g : Collect) : MainM (Option SeedLinkPacket × Collect) := do
  if g = .start then strikeDefault m
  let p ← get
  let r ← await m (.waiting i) (collectStep true g)
  match r.1 with
  | none => return r
  | some pkt => do
    note m i p.client.base.streams pkt
    return r

/-- `dumpfile.write(pkt.payload)`, if there is a dump file. -/
def dump (args : Args) (m : Mishaps) (i : Nat) (payload : Bytes) : MainM Unit :=
  if truthy args.dumpfile then do
    strike m (.writing i)
    modify fun p => { p with buffered := p.buffered ++ [payload] }
  else pure ⟨⟩

/-- The periodic save; it returns the time of the last one. -/
def saveIfDue (args : Args) (m : Mishaps) (i : Nat) (lastSave : Int) : MainM Int :=
  if truthy args.statefile then do
    let now ← onClient monotonic
    if now - lastSave ≥ statefileSaveInterval then do
      saveState m
      strike m (.saved i)
      onClient monotonic
    else return lastSave
  else return lastSave

/-- The body of the streaming loop. -/
def handlePacket (args : Args) (m : Mishaps) (i : Nat) (lastSave : Int) (pkt : SeedLinkPacket) : MainM Int := do
  strikePrint m args.prints (.printing i)
  dump args m i pkt.payload
  strike m (.written i)
  saveIfDue args m i lastSave

/-- The streaming loop, from pass `i` on. -/
def stream (args : Args) (m : Mishaps) : Nat → Nat → Collect → Int → MainM Unit
  | 0, _, _, _ => throw .blocked
  | fuel + 1, i, g, lastSave => do
    strike m (.passing i)
    let (pkt, g) ← receive m i g
    match pkt with
    | none => if g = .finished then return else stream args m fuel (i + 1) g lastSave
    | some pkt => do
      let lastSave ← handlePacket args m i lastSave pkt
      stream args m fuel (i + 1) g lastSave

/-- `dumpfile.close()`: what is in the buffer goes to the file. -/
def closeDump (args : Args) (m : Mishaps) : MainM Unit := do
  strike m .closing
  if truthy args.dumpfile then modify fun p => { p with dumped := p.dumped ++ p.buffered, buffered := [] }

/-! ### The run -/

/-- What `main` tries. -/
def session (args : Args) (m : Mishaps) (fuel : Nat) : MainM Int := do
  await m .connecting (connect true)
  strikePrint m args.verbose .connected
  if truthy args.infoLevel then
    let _ ← await m .informing (infoDict (args.infoLevel.getD []))
    strike m .informing
    return 0
  else
    configureStreams args m
    strike m .opening
    let lastSave ← onClient monotonic
    tryFinally (stream args m fuel 0 .start lastSave) (closeDump args m)
    return 0

/-- The exception handlers of `main`. -/
def report (m : Mishaps) (x : MainM Int) : MainM Int :=
  catching x (fun e => e.isSeedLinkError || e = .keyboardInterrupt) fun e => do
    strike m .reporting
    return if e.isSeedLinkError then 1 else 0

/-- The last save. -/
def saveAtEnd (args : Args) (m : Mishaps) : MainM Unit := do
  let p ← get
  if truthy args.statefile && !p.client.base.streams.isEmpty then
    catching (saveState m) Exn.isOSError fun _ => return

/-- The `finally` block of `main`. -/
def leave (args : Args) (m : Mishaps) : MainM Unit := do
  strike m .leaving
  saveAtEnd args m
  strike m .left
  onClient close

def main (args : Args) (m : Mishaps) (fuel : Nat) : MainM Int :=
  if args.ping then
    catching (do let _ ← await m .connecting ping; strike m .connected; return 0) Exn.isSeedLinkError fun _ => do
      strike m .reporting
      return 1
  else tryFinally (report m (session args m fuel)) (leave args m)

/-- The run that begins in `p` has ended in `p'`. -/
def Exits (args : Args) (m : Mishaps) (p p' : Process) : Prop :=
  ∃ fuel, (∃ code, main args m fuel p = .ok code p') ∨ ∃ e, main args m fuel p = .error (.raised e) p'

/-- What the state file says of `X`. -/
def Process.recorded (p : Process) (X : Text) : Option Position :=
  p.file.bind fun text => (loadState (Text.universalNewlines text)).lookup X

/-- The station IDs that are configured. -/
def Process.stationIds (p : Process) : List Text := p.client.base.streams.map (·.stationId)

end main

/-! ### Rules -/

section rules
variable {α : Type} {m : Mishaps} {p : Process} {Q : α → Process → Prop} {E : Stop → Process → Prop}

@[simp] theorem wp_onClient (x : ClientM α) : wp (onClient x) Q E p =
    wp x (fun a c => Q a { p with client := c }) (fun stop c => E stop { p with client := c }) p.client := by
  unfold wp onClient
  cases x p.client <;> rfl

theorem wp_strike {Q : Unit → Process → Prop} {place : Place}
    (hE : ∀ e, m.strike place = some e → E (.raised e) p) (hQ : m.strike place = none → Q ⟨⟩ p) : wp (strike m place) Q E p := by
  unfold strike
  split
  · rename_i e he
    exact hE e he
  · rename_i hnone
    exact hQ hnone

theorem wp_strikePrint {Q : Unit → Process → Prop} {prints : Bool} {place : Place}
    (hE : ∀ e, m.strike place = some e → prints = true ∨ e = .keyboardInterrupt → E (.raised e) p) (hQ : Q ⟨⟩ p) :
    wp (strikePrint m prints place) Q E p := by
  unfold strikePrint
  split
  · rename_i e he
    rw [wp_ite]
    split
    · rename_i hprints
      rw [Bool.or_eq_true, decide_eq_true_eq] at hprints
      exact hE e he hprints
    · exact hQ
  · exact hQ

@[simp] theorem wp_catching (x : MainM α) (caught : Exn → Bool) (handler : Exn → MainM α) :
    wp (catching x caught handler) Q E p = wp x Q (fun stop p' => match stop with
      | .raised e => if caught e then wp (handler e) Q E p' else E (.raised e) p'
      | .blocked => E .blocked p') p := by
  rw [catching, wp_tryCatch]
  congr
  funext stop p'
  rcases stop with e | _
  · simp only [wp_ite, wp_throw]
  · rfl

@[simp] theorem wp_tryFinally (x : MainM α) (last : MainM Unit) : wp (tryFinally x last) Q E p =
    wp x (fun a p' => wp last (fun _ => Q a) E p') (fun stop p' => match stop with
      | .raised e => wp last (fun _ => E (.raised e)) E p'
      | .blocked => E .blocked p') p := by
  simp only [tryFinally, wp_bind, wp_tryCatch, wp_pure]
  congr
  funext stop p'
  rcases stop with e | _
  · simp only [wp_bind, wp_throw]
  · rfl

theorem wp_await {place : Place} {x : ClientM α} (h : wp x (fun a c => Q a { p with client := c })
    (fun stop c => match stop with
      | .raised e => E (.raised e) { p with client := c }
      | .blocked => E .blocked { p with client := c } ∧ ∀ e, E (.raised e) { p with client := c }) p.client) :
    wp (await m place x) Q E p := by
  rw [await, wp_tryCatch, wp_onClient]
  refine wp_mono h (fun _ _ h => h) fun stop c h => ?_
  rcases stop with e | _
  · exact h
  · rw [wp_bind]
    exact wp_strike (fun e _ => h.2 e) fun _ => h.1

/-- Only a pass that is to configure the default stream can be struck before it waits; a packet it yields
is noted. -/
theorem wp_receive_of [Externals] {i : Nat} {g : Collect} {Q : Option SeedLinkPacket × Collect → Process → Prop}
    (hstart : g = .start → wp (strikeDefault m) (fun _ p' => p' = p) E p)
    (hpass : wp (await m (.waiting i) (collectStep true g)) (fun r p₁ => (r.1 = none → Q r p₁) ∧
      ∀ pkt, r.1 = some pkt → wp (note m i p.client.base.streams pkt) (fun _ => Q r) E p₁) E p) :
    wp (receive m i g) Q E p := by
  simp only [receive, wp_bind, wp_ite, wp_get]
  split
  · refine wp_mono (hstart ‹_›) ?_ fun _ _ h => h
    rintro _ _ rfl
    refine wp_mono hpass (fun r p₁ h => ?_) fun _ _ h => h
    split
    · exact h.1 ‹_›
    · simpa only [wp_bind, wp_pure] using h.2 _ ‹_›
  · refine wp_mono hpass (fun r p₁ h => ?_) fun _ _ h => h
    split
    · exact h.1 ‹_›
    · simpa only [wp_bind, wp_pure] using h.2 _ ‹_›

/-- Striking there raises, or does nothing. -/
theorem wp_strikeDefault_of (hE : ∀ e, m.strike .defaulting = some e →
      if p.client.base.streams.isEmpty then
        E (.raised e) { p with client := { p.client with base :=
          { p.client.base with streams := [{ stationId := ['*'] }] } } }
      else E (.raised e) p) :
    wp (strikeDefault m) (fun _ p' => p' = p) E p := by
  unfold strikeDefault
  split
  · rfl
  · rename_i e he
    simp only [wp_bind, wp_get, setStreams, wp_modify, wp_ite, wp_throw]
    simpa using hE e he

end rules

end Cli

end SeedLink
