import SeedLink.Commands
import SeedLink.Lib.Wp
import SeedLink.RecvBuf

/-!
# The transport (`client.py`, `aio.py`)

A client is its configuration, its selection state, its connection and its receive buffer. A
connection is the list of what its next reads give and the peer, which decides at every send what
the reads after it give. The two transports differ in what a timeout does: on a socket each read
may time out, under asyncio only those inside a timeout scope, whose deadline cancels the whole
call.

`Feeds c s later`: the bytes `s` are next on the stream, buffered or readable without a failure,
and then come the events `later`. A read is described by what it does to `s`; `ReadFails` says how
it ends when `s` does not suffice.
-/

namespace SeedLink

/-! ### Connections -/

/-- The outcome of one read. No bytes is the end of the stream. -/
inductive Recv
  | data (chunk : Bytes)
  | timeout
  | oserror (detail : String)
  deriving DecidableEq, Repr

namespace Recv

def bytes : Recv → Bytes
  | data chunk => chunk
  | _ => []

@[simp] theorem bytes_data (chunk : Bytes) : (data chunk).bytes = chunk := rfl

@[simp] theorem bytes_timeout : timeout.bytes = [] := rfl

@[simp] theorem bytes_oserror (detail : String) : (oserror detail).bytes = [] := rfl

end Recv

def delivered (evs : List Recv) : Bytes := evs.flatMap Recv.bytes

@[simp] theorem delivered_nil : delivered [] = [] := rfl

@[simp] theorem delivered_cons (ev : Recv) (evs : List Recv) :
    delivered (ev :: evs) = ev.bytes ++ delivered evs := rfl

@[simp] theorem delivered_append (evs evs' : List Recv) :
    delivered (evs ++ evs') = delivered evs ++ delivered evs' := List.flatMap_append

/-- What the lines sent before, the reads still to come and the bytes now sent make of the reads to
come, or how sending fails. -/
abbrev Peer := List Bytes → List Recv → Bytes → Except String (List Recv)

structure Sock where
  incoming : List Recv
  peer : Peer
  sent : List Bytes := []

/-- The outcome of one attempt to connect. -/
inductive Dial
  | opened (sock : Sock)
  | certificateError (detail : String)
  | unresolved (detail : Option String)
  | refused (detail : String)
  | timeout

inductive Transport
  | socket
  | asyncio
  deriving DecidableEq, Repr

/-! ### Clients -/

/-- The constructor's arguments. Times are in nanoseconds. -/
structure Config where
  transport : Transport := .socket
  host : Text := "localhost".toList
  port : Nat := 18000
  timeout : Option Int := none
  tls : Bool := false
  requestedProtocol : Option Protocol := none
  keepalive : Option Int := none
  idleTimeout : Int := 600000000000
  reconnectDelay : Int := 30000000000
  dialup : Bool := false
  wantBatch : Bool := false
  clientname : Option Text := none
  clientversion : Option Text := none
  clientId : Text × Text := ("seedlink-client".toList, version)
  auth : Option Auth := none

/-- What the world answers: the attempts to connect, the clock and the polls, each in order. -/
structure Env where
  dial : Nat → Dial
  clock : Nat → Int
  readable : Nat → Bool

structure Client where
  cfg : Config
  env : Env
  base : Base := {}
  sock : Option Sock := none
  rb : RecvBuf := RecvBuf.fresh
  protocol : Option Protocol := none
  serverId : Option Text := none
  organization : Option Text := none
  serverCapabilities : Capabilities := ∅
  serverProtocolMajors : List Text := []
  batchActive : Bool := false
  streaming : Bool := false
  /-- A timeout scope with a deadline is open. -/
  inScope : Bool := false
  dials : Nat := 0
  ticks : Nat := 0
  polls : Nat := 0
  /-- Every line sent, on any connection. -/
  sent : List Bytes := []

/-- A client on a connection whose peer answers nothing. -/
def Client.listening (protocol : Protocol) (incoming : List Recv) : Client :=
  { cfg := {}, env := ⟨fun _ => .timeout, fun _ => 0, fun _ => true⟩, protocol := some protocol,
    sock := some { incoming, peer := fun _ pending _ => .ok pending } }

/-- How a call stops short of returning: with an exception, or in a read that never ends. -/
inductive Stop
  | raised (e : Exn)
  | blocked
  deriving DecidableEq

abbrev ClientM := EStateM Stop Client

def raise {α : Type} (e : Exn) : ClientM α := throw (.raised e)

/-- `try: x except E: ...`, for the exceptions that `caught` accepts. -/
def tryExcept {α : Type} (x : ClientM α) (caught : Exn → Bool) (handler : Exn → ClientM α) :
    ClientM α :=
  tryCatch x fun stop =>
    match stop with
    | .raised e => if caught e then handler e else throw stop
    | .blocked => throw stop

def liftExcept {α : Type} : Except Exn α → ClientM α
  | .ok a => pure a
  | .error e => raise e

namespace Client

/-- `close`. -/
def closed (c : Client) : Client :=
  { c with sock := none, streaming := false, batchActive := false, rb := c.rb.reset }

/-- A read that times out raises. -/
def deadline (c : Client) : Bool := c.cfg.transport = .socket || c.inScope

end Client

def close : ClientM Unit := modify Client.closed

/-! ### Filling the buffer -/

/-- How a fill ends. -/
inductive FillEnd
  | filled
  | timeout
  | oserror (detail : String)
  | eof
  | blocked

/-- The read loop of `_ensure`. A read takes what fits in the buffer; with no room left it takes
nothing, which counts as the end of the stream. -/
def fillLoop (deadline : Bool) (n : Nat) : List Recv → RecvBuf → FillEnd × RecvBuf × List Recv
  | [], rb => (if n ≤ rb.available then .filled else .blocked, rb, [])
  | ev :: later, rb =>
    if n ≤ rb.available then (.filled, rb, ev :: later)
    else
      match ev with
      | .timeout => if deadline then (.timeout, rb, later) else fillLoop deadline n later rb
      | .oserror detail => (.oserror detail, rb, later)
      | .data chunk =>
        if chunk = [] ∨ rb.room = 0 then (.eof, rb, later)
        else if chunk.length ≤ rb.room then fillLoop deadline n later (rb.fill chunk)
        else if n ≤ (rb.fill (chunk.take rb.room)).available then
          (.filled, rb.fill (chunk.take rb.room), .data (chunk.drop rb.room) :: later)
        else (.eof, rb.fill (chunk.take rb.room), later)

/-- What `_ensure` does with a timeout: an asyncio deadline cancels the call, a socket's is raised,
with the connection closed when bytes are left in the buffer. -/
def onTimeout (n : Nat) (c : Client) : EStateM.Result Stop Client Unit :=
  if c.cfg.transport = .asyncio then .error (.raised .cancelledError) c
  else if 0 < c.rb.available then
    .error (.raised (.seedLinkTimeout
      s!"Timeout after partial read ({c.rb.available}/{n} bytes); connection closed")) c.closed
  else .error (.raised (.seedLinkTimeout s!"Timed out waiting for {n} bytes")) c

/-- `_ensure`. -/
def ensure (n : Nat) : ClientM Unit := fun c =>
  match c.sock with
  | none => .error (.raised (seedLinkError "Not connected")) c
  | some sk =>
    match c.rb.prepareRoom n with
    | (true, rb) => .ok ⟨⟩ { c with rb }
    | (false, rb) =>
      match fillLoop c.deadline n sk.incoming rb with
      | (stop, rb, incoming) =>
        let c := { c with rb, sock := some { sk with incoming } }
        match stop with
        | .filled => .ok ⟨⟩ c
        | .timeout => onTimeout n c
        | .oserror detail => .error (.raised (seedLinkError s!"recv failed: {detail}")) c.closed
        | .eof => .error (.raised (seedLinkError "Connection closed")) c.closed
        | .blocked => .error .blocked c

/-- `bytes(self._recv_view[start + i:start + j])`. -/
def buffered (i j : Nat) : ClientM Bytes := do
  let c ← get
  return c.rb.buf.slice (c.rb.start + i) (c.rb.start + j)

def consume (n : Nat) : ClientM Unit := modify fun c => { c with rb := c.rb.advance n }

def peek (n : Nat) : ClientM Bytes := do
  ensure n
  buffered 0 n

/-- `_take`, `_read_exact`. -/
def take (n : Nat) : ClientM Bytes := do
  ensure n
  let data ← buffered 0 n
  consume n
  return data

/-- The loop of `_read_line`; every turn but the last adds a byte to a buffer that a line may not
outgrow. -/
def readLineLoop : Nat → Nat → ClientM Text
  | 0, _ => throw .blocked
  | fuel + 1, searchFrom => do
    let c ← get
    match scanLine c.rb.buf c.rb.start c.rb.stop searchFrom with
    | .error e => do close; raise e
    | .ok (some (line, newStart)) => do
      modify fun c => { c with rb := { c.rb with start := newStart } }
      return line
    | .ok none => do
      ensure (c.rb.available + 1)
      readLineLoop fuel (c.rb.available - 1)

/-- `_read_line`. -/
def readLine : ClientM Text := readLineLoop (maxLineLen + 1) 0

/-! ### Sending -/

def sendall (wire : Bytes) : ClientM Unit := fun c =>
  match c.sock with
  | none => .error (.raised (seedLinkError "Not connected")) c
  | some sk =>
    match sk.peer sk.sent sk.incoming wire with
    | .error detail => .error (.raised (seedLinkError s!"send failed: {detail}")) c.closed
    | .ok incoming =>
      .ok ⟨⟩ { c with sock := some { sk with incoming, sent := sk.sent ++ [wire] },
                      sent := c.sent ++ [wire] }

/-- The bytes of a command line, or why it is refused. -/
def Command.wire (cmd : Command) : Except Exn Bytes :=
  match Bytes.encodeAscii cmd.text with
  | none => .error .unicodeEncodeError
  | some text =>
    let wire := text ++ cmd.terminator
    if wire.length > maxCommandLen then
      .error (seedLinkError s!"Command exceeds the {maxCommandLen}-byte command-line limit: {
        String.ofList (reprAscii text)}")
    else .ok wire

/-- `_send_command`. -/
def sendCommand (cmd : Command) : ClientM (Option SeedLinkResponse) := do
  if (← get).sock.isNone then raise (seedLinkError "Not connected")
  let wire ← liftExcept cmd.wire
  sendall wire
  match cmd.parse with
  | none => return none
  | some parser => do
    let line ← readLine
    return some (← liftExcept (parser.run line))

end SeedLink
