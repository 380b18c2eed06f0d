import SeedLink.Info
import SeedLink.Transport

/-!
# The client (`client.py`, `aio.py`)

Frames, the handshake, negotiation, INFO queries and the streaming generator. The generator is a
state machine: `collectStep` is one pass of its loop, which may yield a packet, and one attempt of
the reconnection loop inside it.
-/

namespace SeedLink

/-! ### Frames -/

/-- What `_recv_frame` returns; `endOfStream` is its `None`. -/
inductive Received
  | packet (frame : RawFrame)
  | reply (resp : SeedLinkResponse)
  | endOfStream
  deriving DecidableEq, Repr

def unexpectedData : ClientM StreamEvent := do
  let front ← buffered 0 2
  raise (seedLinkError s!"Unexpected data in stream: {reprBytes front}")

/-- `_classify_next`: three bytes tell a bare END, five an ERROR line. -/
def classifyNext : ClientM StreamEvent := do
  ensure 2
  let c ← get
  let first := c.rb.buf.get c.rb.start
  let second := c.rb.buf.get (c.rb.start + 1)
  if isPacketSignature first second then return .packet
  else if first = 69 then do
    let three ← peek 3
    if classifyStreamPrefix three = .endOfStream then return .endOfStream
    else if classifyStreamPrefix three = .other then do
      let five ← peek 5
      if classifyStreamPrefix five = .endOfStream ∨ classifyStreamPrefix five = .error then
        return classifyStreamPrefix five
      else unexpectedData
    else if classifyStreamPrefix three = .error then return .error
    else unexpectedData
  else unexpectedData

section frames
variable [Pymseed]

/-- The loop of `_read_mseed_payload`, which looks at ever longer starts of the record. -/
def readMseedPayloadLoop : Nat → Nat → ClientM Bytes
  | 0, _ => throw .blocked
  | fuel + 1, size => do
    let start ← peek size
    match detectRecordLength start with
    | .error e => raise e
    | .ok (some reclen) => take reclen
    | .ok none =>
      if size ≥ maxRecordLen then raise (seedLinkError "Could not determine miniSEED record length")
      else readMseedPayloadLoop fuel (min (size * 2) maxRecordLen)

/-- The fuel counts the sizes from `minPayloadDetect` to `maxRecordLen`. -/
def readMseedPayload : ClientM Bytes := readMseedPayloadLoop 15 minPayloadDetect

def recvFrameV3 : ClientM RawFrame := do
  let head ← take headsizeV3
  let header ← liftExcept (parseHeaderV3 head)
  let payload ← readMseedPayload
  liftExcept (decodeFrameV3 header payload)

def recvFrameV4 : ClientM RawFrame := do
  ensure headsizeV4
  let head ← buffered 0 headsizeV4
  let header ← liftExcept (parseHeaderV4 head)
  let total := headsizeV4 + header.stationIdLength + header.payloadLength
  ensure total
  let c ← get
  let frame ← liftExcept (decodeFrameV4Body c.rb.buf c.rb.start header)
  consume total
  return frame

/-- The frame that the event announces. -/
def recvEvent : StreamEvent → ClientM Received
  | .endOfStream => do
    let _ ← take 3
    return .endOfStream
  | .error => do
    let line ← readLine
    return .reply (parseReply line)
  | _ => do
    let c ← get
    let frame ← if c.protocol = some .v4 then recvFrameV4 else recvFrameV3
    return .packet frame

/-- `_recv_frame`. -/
def recvFrame : ClientM Received := do
  let event ← classifyNext
  let result ← recvEvent event
  modify fun c => { c with rb := c.rb.resetIfDrained }
  return result

end frames

/-! ### Timeout scopes and the clock -/

/-- `async with self._timeout_scope()`, with the handlers around it: the deadline closes the
connection and raises. A socket has no scopes. -/
def timeoutScope {α : Type} (message : String) (x : ClientM α) : ClientM α := do
  let c ← get
  if c.cfg.transport = .socket then x
  else do
    modify fun c => { c with inScope := c.cfg.timeout.isSome }
    let a ← tryCatch x fun stop => do
      modify fun c => { c with inScope := false }
      if stop = .raised .cancelledError then do
        close
        raise (.seedLinkTimeout message)
      else throw stop
    modify fun c => { c with inScope := false }
    return a

/-- `time.monotonic()`. -/
def monotonic : ClientM Int := fun c => .ok (c.env.clock c.ticks) { c with ticks := c.ticks + 1 }

/-! ### Connecting -/

/-- The server as messages name it. -/
def Config.address (cfg : Config) : String := s!"{String.ofList cfg.host}:{cfg.port}"

/-- What a failed attempt to connect raises. -/
def dialError (cfg : Config) : Dial → Stop
  | .certificateError detail =>
    .raised (seedLinkError s!"TLS certificate verification failed for {cfg.address}: {detail
      }. Use tls_noverify=True to skip verification (insecure, e.g. for self-signed certificates)")
  | .unresolved (some detail) =>
    if cfg.transport = .socket then
      .raised (seedLinkError s!"Could not resolve address: {cfg.address}: {detail}")
    else .raised (seedLinkError s!"Could not connect to {cfg.address}: {detail}")
  | .unresolved none => .raised (seedLinkError s!"Could not resolve address: {cfg.address}")
  | .refused detail =>
    if cfg.transport = .socket then
      .raised (seedLinkError s!"Could not connect to {cfg.address}")
    else .raised (seedLinkError s!"Could not connect to {cfg.address}: {detail}")
  | .timeout =>
    if cfg.transport = .socket then
      .raised (seedLinkError s!"Could not connect to {cfg.address}")
    else if cfg.timeout.isSome then .raised .cancelledError
    else .blocked
  | .opened _ => .blocked

/-- `_connect_socket`. -/
def connectSocket : ClientM Unit := fun c =>
  if c.sock.isSome then .error (.raised (seedLinkError "Already connected")) c
  else
    let c' := { c with dials := c.dials + 1 }
    match c.env.dial c.dials with
    | .opened sk => .ok ⟨⟩ { c' with sock := some sk, rb := c.rb.reset }
    | failed => .error (dialError c.cfg failed) c'

def storeIdentity (line1 line2 : Text) (c : Client) : Client :=
  let identity := parseHello line1 line2
  { c with serverId := some identity.1, organization := some identity.2.1,
           serverCapabilities := identity.2.2.1, serverProtocolMajors := identity.2.2.2 }

/-- `_do_hello`. -/
def doHello : ClientM Unit := do
  let _ ← sendCommand Commands.hello
  let line1 ← readLine
  let line2 ← readLine
  modify (storeIdentity line1 line2)
  let c ← get
  let protocol ← liftExcept (selectProtocol c.serverProtocolMajors c.cfg.requestedProtocol)
  modify fun c => { c with protocol := some protocol }

def sendHandshake : List Command → ClientM Unit
  | [] => return
  | cmd :: rest => do
    let resp ← sendCommand cmd
    if cmd.text = "BATCH".toList then
      modify fun c => { c with batchActive := resp.any (·.ok) }
    sendHandshake rest

def handshakePlan (c : Client) : Except Exn (List Command) :=
  planHandshake c.protocol c.serverCapabilities c.cfg.clientname c.cfg.clientversion c.cfg.clientId
    c.cfg.auth c.cfg.wantBatch

/-- HELLO and what follows it; a failure closes the connection. -/
def doHandshake : ClientM Unit :=
  tryExcept
    (do
      doHello
      let c ← get
      let commands ← liftExcept (handshakePlan c)
      sendHandshake commands)
    Exn.isSeedLinkError
    (fun e => do
      close
      raise e)

def connect (handshake : Bool) : ClientM Unit := do
  let c ← get
  timeoutScope s!"Timed out connecting to {c.cfg.address}" do
    connectSocket
    if handshake then doHandshake

/-- `ping`: HELLO on a connection of its own, which is closed again in any case. -/
def ping : ClientM (Option Text × Option Text) := do
  let c ← get
  timeoutScope s!"Timed out pinging {c.cfg.address}" do
    connectSocket
    tryExcept doHello (fun _ => true) fun e => do
      close
      raise e
    close
  let c ← get
  return (c.serverId, c.organization)

def bye : ClientM Unit := do
  let c ← get
  if c.sock.isSome then do
    let _ ← sendCommand Commands.bye

/-! ### Negotiation -/

section client
variable [Externals]

namespace Base

/-- The streams in the order they are sent, each with its place in the list. -/
def sendOrder (b : Base) : List (Stream × Nat) := sortByStation (·.1.stationId) b.streams.zipIdx

/-- Puts streams back in their places. -/
def writeBack (streams : List Stream) (places : List Nat) (new : List Stream) : List Stream :=
  (places.zip new).foldl (fun streams p => streams.set p.1 p.2) streams

end Base

def Client.negotiationArgs (c : Client) : NegotiationArgs :=
  { protocol := c.protocol, dialup := c.cfg.dialup, multistation := c.base.multistation,
    resume := true, lastpkttime := true, batchActive := c.batchActive,
    startTime := c.base.startTime, endTime := c.base.endTime }

/-- What `negotiate` does before it sends anything: it clears the match cache, falls back to the
default stream and plans, which may resolve timestamps. -/
def Base.prepareNegotiation (args : NegotiationArgs) (b : Base) :
    Except Exn (List Command) × Base :=
  let b := { b with matchCache := ∅ }.ensureDefaultStream
  let planned := planNegotiation args (b.sendOrder.map (·.1))
  (planned.1, { b with streams := Base.writeBack b.streams (b.sendOrder.map (·.2)) planned.2 })

def sendPlan : List Command → NegotiationWalk → ClientM NegotiationWalk
  | [], walk => return walk
  | cmd :: rest, walk =>
    let asked := walk.shouldSend cmd
    if asked.1 then do
      let resp ← sendCommand cmd
      sendPlan rest (asked.2.record cmd resp)
    else sendPlan rest asked.2

/-- The loop of `negotiate`, and the verdict of its walk. -/
def runPlan (plan : List Command) : ClientM Unit := do
  let walk ← sendPlan plan {}
  liftExcept walk.finish

/-- `negotiate`, `_negotiate`. -/
def negotiateInner : ClientM Unit := do
  let c ← get
  let prepared := c.base.prepareNegotiation c.negotiationArgs
  set { c with base := prepared.2 }
  let plan ← liftExcept prepared.1
  runPlan plan
  modify fun c => { c with streaming := true }

def negotiate : ClientM Unit := timeoutScope "Timed out negotiating stream selection" negotiateInner

def reconnect : ClientM Unit := do
  close
  connect true
  let c ← get
  if !c.base.streams.isEmpty then negotiate

/-! ### Streaming -/

/-- Where the generator stands: before its first step, in its loop, in the loop that reconnects, or
at its end. -/
inductive Collect
  | start
  | looping (lastDataTime : Int) (nextKeepalive : Option Int)
  | reconnecting
  | finished
  deriving DecidableEq, Repr

/-- `self._keepalive` as a condition. -/
def Config.keepaliveInterval (cfg : Config) : Option Int := cfg.keepalive.filter (· ≠ 0)

/-- The clocks of a loop that starts. -/
def enterLoop : ClientM Collect := do
  let last ← monotonic
  let c ← get
  match c.cfg.keepaliveInterval with
  | none => return .looping last none
  | some interval => do
    let now ← monotonic
    return .looping last (some (now + interval))

/-- The wait before an attempt to reconnect. `time.sleep` refuses a negative delay, and one that is no 64-bit number
of nanoseconds; `asyncio.sleep` does not. -/
def Config.sleep (cfg : Config) : Except Exn Unit :=
  if cfg.transport = .asyncio then .ok ⟨⟩
  else if cfg.reconnectDelay < -9223372036854775808 ∨ 9223372036854775807 < cfg.reconnectDelay then
    .error .overflowError
  else if cfg.reconnectDelay < 0 then .error (.valueError "sleep length must be non-negative")
  else .ok ⟨⟩

omit [Externals] in
theorem Config.sleep_error {cfg : Config} {e : Exn} (h : cfg.sleep = .error e) :
    e = .overflowError ∨ ∃ m, e = .valueError m := by
  unfold sleep at h
  split_ifs at h
  · cases h
    exact .inl rfl
  · cases h
    exact .inr ⟨_, rfl⟩

/-- One turn of `_reconnect_after_delay`: the delay, and an attempt. -/
def reconnectAttempt : ClientM Collect := do
  let c ← get
  liftExcept c.cfg.sleep
  tryExcept
    (do
      connect true
      negotiate
      enterLoop)
    Exn.isSeedLinkError
    (fun e =>
      if e.isAuthError then raise e
      else do
        close
        return .reconnecting)

/-- `self.close()`, then `raise` unless reconnecting. -/
def closeAndRaise (reconnect : Bool) (e : Exn) (g : Collect) :
    ClientM (Option SeedLinkPacket × Collect) := do
  close
  if reconnect then return (none, g) else raise e

/-- `_poll_readable`, and `_ensure(1)` under the poll's timeout. -/
def pollReadable : ClientM Bool := do
  let c ← get
  if c.rb.start < c.rb.stop then return true
  else do
    set { c with polls := c.polls + 1 }
    if !c.env.readable c.polls then return false
    else if c.cfg.transport = .socket then return true
    else do
      ensure 1
      return true

/-- The frame of a pass, if something is readable. -/
def awaitFrame : ClientM (Option Received) := do
  let readable ← pollReadable
  if readable then do
    let received ← recvFrame
    return some received
  else return none

/-- The pass in which nothing was readable. -/
def keepalivePass (lastDataTime : Int) (nextKeepalive : Option Int) :
    ClientM (Option SeedLinkPacket × Collect) := do
  let now ← monotonic
  let c ← get
  match nextKeepalive, c.cfg.keepalive with
  | some due, some interval =>
    if now ≥ due then do
      tryExcept (do let _ ← sendCommand (Commands.info "ID".toList)) Exn.isSeedLinkError fun _ => close
      return (none, .looping lastDataTime (some (now + interval)))
    else return (none, .looping lastDataTime nextKeepalive)
  | _, _ => return (none, .looping lastDataTime nextKeepalive)

/-- What the loop does with a frame. -/
def handleFrame (reconnect : Bool) (lastDataTime : Int) (nextKeepalive : Option Int) :
    Received → ClientM (Option SeedLinkPacket × Collect)
  | .endOfStream => do
    modify fun c => { c with streaming := false }
    return (none, .finished)
  | .reply resp =>
    closeAndRaise reconnect (.seedLinkError (orDefault resp.message "Stream error") resp.code)
      (.looping lastDataTime nextKeepalive)
  | .packet frame =>
    if isJsonErrorFrame frame then do
      let message ← liftExcept (jsonErrorMessage frame.payload)
      closeAndRaise reconnect (seedLinkError (String.ofList message))
        (.looping lastDataTime nextKeepalive)
    else if isInfoFrame frame then return (none, .looping lastDataTime nextKeepalive)
    else do
      let now ← monotonic
      modify fun c => { c with base := c.base.updateStreamState (toPacket frame) }
      return (some (toPacket frame), .looping now nextKeepalive)

/-- `f"{seconds:.0f}"` for a time in nanoseconds: halves go to the even number. -/
def secondsText (t : Int) : String :=
  let q := t / 1000000000
  let r := t % 1000000000
  toString (if r < 500000000 ∨ (r = 500000000 ∧ q % 2 = 0) then q else q + 1)

/-- One pass of the streaming loop. -/
def collectPass (reconnect : Bool) (lastDataTime : Int) (nextKeepalive : Option Int) :
    ClientM (Option SeedLinkPacket × Collect) := do
  let c ← get
  if c.sock.isNone then
    return (none, if reconnect then .reconnecting else .finished)
  else do
    let now ← monotonic
    if now - lastDataTime > c.cfg.idleTimeout then
      closeAndRaise reconnect (.seedLinkTimeout s!"No data for over {secondsText c.cfg.idleTimeout}s")
        (.looping lastDataTime nextKeepalive)
    else do
      let pass ← tryExcept (Sum.inl <$> awaitFrame) Exn.isSeedLinkError
        (fun e => Sum.inr <$> closeAndRaise reconnect e (.looping lastDataTime nextKeepalive))
      match pass with
      | .inl none => keepalivePass lastDataTime nextKeepalive
      | .inl (some received) => handleFrame reconnect lastDataTime nextKeepalive received
      | .inr result => return result

/-- One step of `collect`: the packet it yields, if any, and where it then stands. -/
def collectStep (reconnect : Bool) : Collect → ClientM (Option SeedLinkPacket × Collect)
  | .start => do
    let c ← get
    if !c.streaming then negotiate
    let g ← enterLoop
    return (none, g)
  | .looping lastDataTime nextKeepalive => collectPass reconnect lastDataTime nextKeepalive
  | .reconnecting => do
    let g ← reconnectAttempt
    return (none, g)
  | .finished => return (none, .finished)

/-! ### INFO -/

/-- The loop of `info`; the chunks so far. -/
def infoLoop : Nat → List Text → ClientM Text
  | 0, _ => throw .blocked
  | fuel + 1, chunks => do
    let received ← recvFrame
    match received with
    | .packet frame =>
      if frame.payloadFormat = formatJson ∨ frame.payloadFormat = formatXml then
        let chunks := chunks ++ [Bytes.decodeUtf8 frame.payload]
        if frame.infoContinues then infoLoop fuel chunks else return chunks.flatten
      else raise (seedLinkError "Expected an INFO reply")
    | _ => raise (seedLinkError "Expected an INFO reply")

/-- All the bytes that can still come on the connection. -/
def Client.bytesAhead (c : Client) : Nat :=
  c.rb.available + (c.sock.map fun sk => (delivered sk.incoming).length).getD 0

/-- `info`; every frame takes bytes off the stream, which bounds the loop. -/
def Client.info (level : Text) : ClientM Text := do
  let c ← get
  if c.streaming then raise (seedLinkError "Cannot call info() while streaming")
  else
    timeoutScope s!"Timed out waiting for INFO {String.ofList level} reply" do
      let _ ← sendCommand (Commands.info level)
      let c ← get
      infoLoop (c.bytesAhead + 1) []

def infoDict (level : Text) : ClientM InfoDict := do
  let text ← Client.info level
  let c ← get
  if c.protocol = some .v4 then
    let value ← liftExcept (loadsJson text)
    return .json value
  else liftExcept (parseInfoXml text)

end client

end SeedLink
