import SeedLink.Cli

/-!
# The interactive shell (`cli.py`)

`SeedLinkShell` on a client that `main -c` has connected. The operator types one line at a prompt; while
packets are streaming, Enter makes a watcher shut the socket down under the generator. Ctrl-C can strike at
the prompt, in a read that waits, and at the points of a streaming pass that `Press` lists. What the shell
prints is left out, but for the errors it reports.
-/

namespace SeedLink

open StateExc Commands

/-- A socket that has been shut down: only these reads are still answered. -/
def Sock.shutdown (arriving : List Recv) (sk : Sock) : Sock :=
  { sk with incoming := arriving ++ [.data []], peer := fun _ _ _ => .error "[Errno 32] Broken pipe" }

namespace Cli

/-- What is pressed during a pass of the streaming loop. -/
inductive Press
  /-- Enter: the socket is shut down. -/
  | enter (arriving : List Recv)
  /-- Ctrl-C in the poll. -/
  | polling
  /-- Ctrl-C in a read that waits. -/
  | receiving
  /-- Ctrl-C when so many of the assignments of `_update_stream_state` have been made. -/
  | updating (n : Nat)
  /-- Ctrl-C while the packet is printed. -/
  | printing
  deriving DecidableEq

/-- What is typed at a prompt. -/
inductive Typed
  | line (text : Text)
  | endOfInput
  | interrupt

structure Operator where
  typed : Nat → Typed
  /-- Ctrl-C when the command typed at a prompt waits for its reply. -/
  interrupts : Nat → Bool := fun _ => false
  press : Nat → Option Press := fun _ => none

/-- `SeedLinkShell`, with the client that it drives. -/
structure Shell where
  process : Process
  hadError : Bool := false
  sentStation : Bool := false
  details : Int := 0
  unpack : Bool := false
  /-- The event that a streaming command and its watcher share. -/
  stopped : Bool := true
  /-- The passes of all streaming loops so far. -/
  passes : Nat := 0
  /-- What has been reported to stderr. -/
  errors : List String := []

def Shell.client (s : Shell) : Client := s.process.client

abbrev ShellM := EStateM Stop Shell

def onProcess {α : Type} (x : MainM α) : ShellM α := fun s =>
  match x s.process with
  | .ok a p => .ok a { s with process := p }
  | .error e p => .error e { s with process := p }

/-- A call of the client. -/
def onSl {α : Type} (x : ClientM α) : ShellM α := onProcess (onClient x)

/-- A call of the client in which Ctrl-C may end a wait. -/
def awaiting {α : Type} (interrupted : Bool) (x : ClientM α) : ShellM α :=
  tryCatch (onSl x) fun stop =>
    match stop with
    | .raised e => throw (.raised e)
    | .blocked => if interrupted then throw (.raised .keyboardInterrupt) else throw .blocked

/-- `try: x except E: ...`. -/
def excepting {α : Type} (x : ShellM α) (caught : Exn → Bool) (handler : Exn → ShellM α) : ShellM α :=
  tryCatch x fun stop =>
    match stop with
    | .raised e => if caught e then handler e else throw stop
    | .blocked => throw stop

/-- `str(e)` of a `SeedLinkError`. -/
def errorText : Exn → String
  | .seedLinkError message _ | .seedLinkTimeout message | .seedLinkAuthError message _ => message
  | _ => ""

/-- `{text!r}`, for ASCII text. -/
def reprText (text : Text) : String := String.ofList (reprAscii (Bytes.encodeUtf8 text))

/-- `_fail`. -/
def fail (message : String) : ShellM Unit :=
  modify fun s => { s with errors := s.errors ++ [s!"Error: {message}"], hadError := true }

/-! ### Reading a line -/

/-- `cmd.Cmd.identchars`. -/
def isIdentChar (c : Char) : Bool := c.toNat < 128 && (c.isAlphanum || c = '_')

/-- `parseline`: the name of a command, in lower case but for `EOF`, with its argument and the line. -/
def parseline (typed : Text) : Option (Text × Text) × Text :=
  let line := match Text.strip typed with
    | '?' :: rest => "help ".toList ++ rest
    | line => line
  match line with
  | [] => (none, line)
  | '!' :: _ => (none, line)
  | _ =>
    let name := line.takeWhile isIdentChar
    let name := if name = "EOF".toList then name else name.map Char.toLower
    (some (name, Text.strip (line.dropWhile isIdentChar)), line)

/-! ### The commands -/

section commands
variable [Externals] (op : Operator) (n fuel : Nat)

/-- The version a text asks for. -/
def protocolOf (version : Text) : Protocol := if (Text.partition '.' version).1 = ['4'] then .v4 else .v3

/-- The client's `_do_hello`. -/
def doHelloWith (promoteProtocol : Bool) : ClientM Unit := do
  let _ ← sendCommand Commands.hello
  let line1 ← readLine
  let line2 ← readLine
  modify (storeIdentity line1 line2)
  if promoteProtocol then do
    let c ← get
    let protocol ← liftExcept (selectProtocol c.serverProtocolMajors c.cfg.requestedProtocol)
    modify fun c => { c with protocol := some protocol }

/-- A call whose `SeedLinkError`s are reported. -/
def attempt {α : Type} (x : ClientM α) : ShellM (Option α) :=
  excepting (some <$> awaiting (op.interrupts n) x) Exn.isSeedLinkError fun e => do
    fail (errorText e)
    return none

/-- `_send`: the reply, if there is one. -/
def send (cmd : Command) : ShellM (Option SeedLinkResponse) := do
  let resp ← attempt op n (sendCommand cmd)
  return resp.bind id

/-- `watch_for_enter`, when stdin has become readable. -/
def Shell.watcher (arriving : List Recv) (s : Shell) : Shell :=
  if s.stopped then s
  else
    { s with
      stopped := true
      process := { s.process with client := { s.client with sock := s.client.sock.map (Sock.shutdown arriving) } } }

/-- What a press does before the pass. -/
def Press.strike : Option Press → ShellM Unit
  | some (.enter arriving) => modify (Shell.watcher arriving)
  | some .polling => throw (.raised .keyboardInterrupt)
  | _ => pure ⟨⟩

/-- The assignments that Ctrl-C finds half done. -/
def Press.mishaps : Option Press → Mishaps
  | some (.updating k) => { updating := fun _ => some (k, .keyboardInterrupt) }
  | _ => {}

/-- The generator goes on, and a packet is printed. -/
def takePacket (press : Option Press) (streams : List Stream) (g : Collect) :
    ShellM (Option SeedLinkPacket × Collect) := do
  let r ← awaiting (press = some .receiving) (collectStep false g)
  match r.1 with
  | none => return r
  | some pkt => do
    onProcess (note (Press.mishaps press) 0 streams pkt)
    return r

/-- A pass of `collect(reconnect=False)`. -/
def watchPass (press : Option Press) (g : Collect) : ShellM (Option SeedLinkPacket × Collect) := do
  modify fun s => { s with passes := s.passes + 1 }
  Press.strike press
  let s ← get
  takePacket press s.client.base.streams g

/-- The loop over the packets. Ctrl-C in its body drops the generator, which closes the connection. -/
def watch : Nat → Collect → ShellM Unit
  | 0, _ => throw .blocked
  | fuel + 1, g => do
    let s ← get
    let press := op.press s.passes
    let r ← watchPass press g
    if r.1.isNone && r.2 = .finished then return
    else if r.1.isSome && press = some .printing then do
      onSl close
      throw (.raised .keyboardInterrupt)
    else watch fuel r.2

/-- The loop with its handlers: an error is reported unless the watcher has caused it. -/
def watchPackets : ShellM Unit := do
  tryCatch
    (excepting (watch op fuel .start) (fun e => e = .keyboardInterrupt || e.isSeedLinkError) fun e =>
      if e = .keyboardInterrupt then return
      else do
        let s ← get
        if s.stopped then return else fail (errorText e))
    fun stop => do
      modify fun s => { s with stopped := true }
      throw stop
  modify fun s => { s with stopped := true }

/-- `_finish_handshake`. -/
def finishHandshake (cmd : Command) : ShellM Unit := do
  let sent ← attempt op n (sendCommand cmd)
  if sent.isSome then do
    modify fun s =>
      { s with process := { s.process with client := { s.client with streaming := true } }, stopped := false }
    watchPackets op fuel

def doHelloLine : ShellM Unit := do
  let _ ← attempt op n (doHelloWith false)

def doSlproto (arg : Text) : ShellM Unit := do
  let version := if arg.isEmpty then "4.0".toList else arg
  let resp ← send op n (slproto version)
  if resp.any (·.ok) then
    onSl (modify fun c => { c with protocol := some (protocolOf version) })

def doStation (arg : Text) : ShellM Unit := do
  if arg.isEmpty then fail "STATION requires a station ID"
  else do
    let s ← get
    let _ ← send op n (if s.client.protocol = some .v4 then stationV4 arg else stationV3 arg true)
    modify fun s => { s with sentStation := true }

def doSelect (arg : Text) : ShellM Unit := do
  let s ← get
  let _ ← send op n (if s.client.protocol = some .v4 then selectV4 [] arg else selectV3 [] arg true)

/-- `int(arg) if arg.strip() else None`; without a value the number is invalid. -/
def seqArg (arg : Text) : Option (Option Int) :=
  if arg.isEmpty then some none else (Text.intBase10 arg).map some

def liftShell {α : Type} : Except Exn α → ShellM α
  | .ok a => pure a
  | .error e => throw (.raised e)

def doData (arg : Text) : ShellM Unit :=
  match seqArg arg with
  | none => fail s!"Invalid sequence number: {reprText arg}"
  | some seq => do
    let s ← get
    if s.client.protocol = some .v4 then do
      let cmd ← liftShell (dataV4 [] seq false none none)
      let _ ← send op n cmd
    else if s.sentStation then do
      let _ ← send op n (dataV3 [] "DATA".toList seq none true)
    else finishHandshake op n fuel (dataV3 [] "DATA".toList seq none false)

def doFetch (arg : Text) : ShellM Unit :=
  match seqArg arg with
  | none => fail s!"Invalid sequence number: {reprText arg}"
  | some seq => do
    let s ← get
    if s.sentStation then do
      let _ ← send op n (dataV3 [] "FETCH".toList seq none true)
    else finishHandshake op n fuel (dataV3 [] "FETCH".toList seq none false)

def doTime (arg : Text) : ShellM Unit :=
  match Text.splitWord1 arg with
  | [] => fail "TIME requires a start time"
  | start :: rest => do
    let s ← get
    if s.sentStation then do
      let _ ← send op n (timeV3 [] start rest.head? true)
    else finishHandshake op n fuel (timeV3 [] start rest.head? false)

def doEnd : ShellM Unit := do
  let s ← get
  finishHandshake op n fuel (if s.client.protocol = some .v4 then endV4 s.client.cfg.dialup else endV3)

def doDetails (arg : Text) : ShellM Unit :=
  if arg.isEmpty then return
  else
    match Text.intBase10 arg with
    | none => fail s!"Invalid detail level: {reprText arg}"
    | some level =>
      if 0 ≤ level ∧ level ≤ 3 then modify fun s => { s with details := level }
      else fail s!"Detail level must be 0-3, got {level}"

def doSamples (arg : Text) : ShellM Unit :=
  let arg := arg.map Char.toLower
  if arg.isEmpty then return
  else if arg = "on".toList ∨ arg = "off".toList then modify fun s => { s with unpack := arg = "on".toList }
  else fail s!"Expected 'on' or 'off', got {reprText arg}"

def doInfo (arg : Text) : ShellM Unit := do
  let _ ← attempt op n (infoDict (if arg.isEmpty then "ID".toList else arg))

def doBye : ShellM Unit := do
  let _ ← attempt op n bye

/-- `default`. -/
def unknownCommand (line : Text) : ShellM Unit :=
  fail s!"Unknown command: {reprText ((Text.splitWords line).headD line)}"

/-- The method `do_<name>`; whether it ends the session. -/
def dispatch (name arg line : Text) : ShellM Bool :=
  if name = "hello".toList then do doHelloLine op n; return false
  else if name = "slproto".toList then do doSlproto op n arg; return false
  else if name = "station".toList then do doStation op n arg; return false
  else if name = "select".toList then do doSelect op n arg; return false
  else if name = "data".toList then do doData op n fuel arg; return false
  else if name = "fetch".toList then do doFetch op n fuel arg; return false
  else if name = "time".toList then do doTime op n fuel arg; return false
  else if name = "end".toList then do doEnd op n fuel; return false
  else if name = "details".toList then do doDetails arg; return false
  else if name = "samples".toList then do doSamples arg; return false
  else if name = "info".toList then do doInfo op n arg; return false
  else if name = "help".toList then return false
  else if name = "bye".toList then do doBye op n; return true
  else if name = "quit".toList ∨ name = "exit".toList ∨ name = "EOF".toList then return true
  else do unknownCommand line; return false

/-! ### The session -/

/-- `onecmd`. -/
def onecmd (typed : Text) : ShellM Bool := do
  modify fun s => { s with hadError := false }
  let (parsed, line) := parseline typed
  match parsed with
  | some (name, arg) => dispatch op n fuel name arg line
  | none =>
    if line.isEmpty then return false
    else do
      unknownCommand line
      return false

/-- `postcmd`. -/
def postcmd (stop : Bool) : ShellM Bool := do
  let s ← get
  return stop || s.client.sock.isNone

/-- The line read at a prompt. -/
def Operator.text : Option Text :=
  match op.typed n with
  | .line text => some text
  | .endOfInput => some "EOF".toList
  | .interrupt => none

def readTyped : ShellM Text :=
  match op.text n with
  | some text => return text
  | none => throw (.raised .keyboardInterrupt)

/-- One turn of `cmdloop`: whether the session is over. -/
def turn : ShellM Bool := do
  let typed ← readTyped op n
  let stop ← onecmd op n fuel typed
  postcmd stop

/-- `cmdloop`, from a prompt on. -/
def cmdloop : Nat → Nat → ShellM Unit
  | 0, _ => throw .blocked
  | fuel + 1, n => do
    let stop ← turn op n fuel
    if stop then return else cmdloop fuel (n + 1)

/-- What `main -c` does with the shell; its exit code. -/
def interact : ShellM Int := do
  excepting (cmdloop op fuel 0) (· = .keyboardInterrupt) fun _ => return
  let s ← get
  return if s.hadError then 1 else 0

/-! ### The run -/

/-- A `SeedLinkShell` on the client of `main`. -/
def shelled {α : Type} (details : Int) (unpack : Bool) (x : ShellM α) : MainM α := fun p =>
  match x { process := p, details, unpack } with
  | .ok a s => .ok a s.process
  | .error e s => .error e s.process

/-- What `main -c` tries: the handshake is the operator's. -/
def sessionInteractive (args : Args) (m : Mishaps) : MainM Int := do
  await m .connecting (connect false)
  strikePrint m args.verbose .connected
  configureStreams args m
  shelled args.packetDetails args.unpack (interact op fuel)

/-- `main -c`, without a query. -/
def mainInteractive (args : Args) (m : Mishaps) : MainM Int :=
  tryFinally (report m (sessionInteractive op fuel args m)) (leave args m)

end commands

end Cli

end SeedLink
