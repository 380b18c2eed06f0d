import SeedLink.Base

/-!
# Commands and plans (`_commands.py`)

A command is its text, its terminator and how its reply is read. The planners build the lists of
commands that `connect` and `negotiate` send; `NegotiationWalk` tracks which stations the server
rejected.
-/

namespace SeedLink

def version : Text := "0.2.0".toList

inductive Role
  | generic
  | station
  | select
  | data
  | endStreams
  deriving DecidableEq, Repr

/-- The functions a reply line is parsed with. -/
inductive ReplyParser
  | parseReply
  | expectOk
  | expectAuthOk
  deriving DecidableEq, Repr

structure Command where
  text : Text
  parse : Option ReplyParser := none
  terminator : Bytes := crlf
  role : Role := .generic
  streamId : Option Text := none
  deriving DecidableEq, Repr

def cr : Bytes := [13]

/-- `resp.message or default`. -/
def orDefault (message : Option Text) (default : String) : String :=
  match message with
  | some m => if m.isEmpty then default else String.ofList m
  | none => default

def expectOk (line : Text) : Except Exn SeedLinkResponse :=
  let resp := parseReply line
  if resp.ok then .ok resp
  else .error (.seedLinkError (orDefault resp.message "Server returned ERROR") resp.code)

def expectAuthOk (line : Text) : Except Exn SeedLinkResponse :=
  let resp := parseReply line
  if resp.ok then .ok resp
  else .error (.seedLinkAuthError (orDefault resp.message "Authentication failed") resp.code)

def ReplyParser.run : ReplyParser → Text → Except Exn SeedLinkResponse
  | .parseReply, line => .ok (SeedLink.parseReply line)
  | .expectOk, line => SeedLink.expectOk line
  | .expectAuthOk, line => SeedLink.expectAuthOk line

/-! ### Handshake commands -/

def joinWords (words : List Text) : Text := List.intercalate [' '] words

/-- Both `str` and optional. -/
def truthy (s : Option Text) : Bool := s.any (!·.isEmpty)

namespace Commands

def hello : Command := { text := "HELLO".toList }

def slproto (protocolVersion : Text) : Command :=
  { text := "SLPROTO ".toList ++ protocolVersion, parse := some .expectOk }

def capabilities (flags : Text) : Command :=
  { text := "CAPABILITIES ".toList ++ flags, parse := some .expectOk }

/-- `clientId` is what `generate_client_id()` returns: the running program's name and the
package's version. -/
def useragent (clientName clientVersion : Option Text) (clientId : Text × Text) : Command :=
  let token :=
    if truthy clientName then
      if truthy clientVersion then clientName.getD [] ++ '/' :: clientVersion.getD []
      else clientName.getD []
    else clientId.1 ++ '/' :: clientId.2
  { text := "USERAGENT ".toList ++ joinWords [token, "seedlink-client/".toList ++ version],
    parse := some .expectOk }

def authUserpass (username password : Text) : Except Exn Command :=
  if username.contains ' ' || password.contains ' ' then
    .error (seedLinkError "AUTH USERPASS username/password must not contain spaces")
  else
    .ok { text := "AUTH USERPASS ".toList ++ username ++ ' ' :: password,
          parse := some .expectAuthOk }

def authJwt (token : Text) : Command :=
  { text := "AUTH JWT ".toList ++ token, parse := some .expectAuthOk }

def batch : Command := { text := "BATCH".toList, parse := some .parseReply }

def bye : Command := { text := "BYE".toList }

def info (level : Text) : Command := { text := "INFO ".toList ++ level }

/-! ### Negotiation commands -/

def splitNetSta (stationId : Text) : Text × Text :=
  let (net, _, sta) := Text.partition '_' stationId
  (net, sta)

def stationV4 (stationId : Text) : Command :=
  { text := "STATION ".toList ++ stationId, parse := some .expectOk, terminator := cr,
    role := .station, streamId := some stationId }

def replyIf (expectReply : Bool) : Option ReplyParser :=
  if expectReply then some .parseReply else none

def stationV3 (stationId : Text) (expectReply : Bool) : Command :=
  let (net, sta) := splitNetSta stationId
  { text := "STATION ".toList ++ sta ++ ' ' :: net, parse := replyIf expectReply, role := .station,
    streamId := some stationId }

def selectV4 (stationId selector : Text) : Command :=
  { text := "SELECT ".toList ++ selector, parse := some .expectOk, terminator := cr,
    role := .select, streamId := some stationId }

def selectV3 (stationId selector : Text) (expectReply : Bool) : Command :=
  { text := "SELECT ".toList ++ selector, parse := replyIf expectReply, role := .select,
    streamId := some stationId }

/-- `str(n)`, which refuses a number of more than 4300 digits. -/
def str (n : Int) : Except Exn Text :=
  match Text.strInt n with
  | some t => .ok t
  | none => .error (.valueError "Exceeds the limit (4300 digits) for integer string conversion")

theorem str_ok {n : Int} {t : Text} (h : str n = .ok t) :
    Text.strInt n = some t ∧ t = Text.intNumeral 10 n := by
  unfold str at h
  split at h
  · rename_i t' ht
    cases h
    refine ⟨ht, ?_⟩
    unfold Text.strInt at ht
    split at ht
    · exact (Option.some.inj ht).symm
    · cases ht
  · cases h

/-- The time-window words of a v4 `DATA`. -/
def windowWords (start stop : Option DateTime) : Except Exn (List Text) :=
  match start with
  | none => .ok []
  | some start => do
    let startWord ← toIsoTimestring start
    match stop with
    | none => return [startWord]
    | some stop => return [startWord, ← toIsoTimestring stop]

def dataV4 (stationId : Text) (seqnum : Option Int) (allData : Bool)
    (start stop : Option DateTime) : Except Exn Command := do
  let position ←
    match seqnum with
    | some n => do let t ← str n; pure [t]
    | none => pure (if allData || start.isSome then ["ALL".toList] else [])
  let window ← windowWords start stop
  return { text := joinWords ("DATA".toList :: position ++ window), parse := some .expectOk,
           terminator := cr, role := .data, streamId := some stationId }

/-- The text of a v3 `DATA` or `FETCH`; the sequence number is in hexadecimal. -/
def dataV3Text (cmdName : Text) (seqnum : Option Int) (timestamp : Option Text) : Text :=
  match seqnum with
  | some n =>
    cmdName ++ ' ' :: Text.intNumeral 16 n ++
      (if truthy timestamp then ' ' :: timestamp.getD [] else [])
  | none => cmdName

def dataV3 (stationId cmdName : Text) (seqnum : Option Int) (timestamp : Option Text)
    (expectReply : Bool) : Command :=
  { text := dataV3Text cmdName seqnum timestamp, parse := replyIf expectReply, role := .data,
    streamId := some stationId }

def timeV3 (stationId start : Text) (stop : Option Text) (expectReply : Bool) : Command :=
  { text := "TIME ".toList ++ start ++ (if truthy stop then ' ' :: stop.getD [] else []),
    parse := replyIf expectReply, role := .data, streamId := some stationId }

def endV3 : Command := { text := "END".toList, role := .endStreams }

def endV4 (dialup : Bool) : Command :=
  { text := if dialup then "ENDFETCH".toList else "END".toList, role := .endStreams }

end Commands

open Commands

/-! ### The walk -/

structure NegotiationWalk where
  seenStationRole : Bool := false
  acceptedAnyStation : Bool := false
  skipStream : Bool := false
  deriving DecidableEq, Repr

namespace NegotiationWalk

/-- Whether the command is sent, and the walk after asking. -/
def shouldSend (cmd : Command) (walk : NegotiationWalk) : Bool × NegotiationWalk :=
  if cmd.role = .station then (true, { walk with seenStationRole := true, skipStream := false })
  else (!(walk.skipStream && (cmd.role = .select || cmd.role = .data)), walk)

/-- `resp is not None and not resp`. -/
def rejects (resp : Option SeedLinkResponse) : Bool := resp.any (!·.ok)

def record (cmd : Command) (resp : Option SeedLinkResponse) (walk : NegotiationWalk) :
    NegotiationWalk :=
  if cmd.role = .station then
    if rejects resp then { walk with skipStream := true }
    else { walk with acceptedAnyStation := true }
  else walk

def finish (walk : NegotiationWalk) : Except Exn Unit :=
  if walk.seenStationRole && !walk.acceptedAnyStation then
    .error (seedLinkError "No stations accepted")
  else .ok ⟨⟩

end NegotiationWalk

/-! ### Planners -/

/-- The `auth` argument: name and password, or a token. -/
inductive Auth
  | userpass (username password : Text)
  | jwt (token : Text)
  deriving DecidableEq, Repr

/-- `server_capabilities.get("CAP")` as a condition. -/
def hasCap (caps : Capabilities) : Bool :=
  match caps.lookup "CAP".toList with
  | none => false
  | some (.text value) => !value.isEmpty
  | some .true => true

def authCommands : Option Auth → Except Exn (List Command)
  | none => .ok []
  | some (.jwt token) => .ok [authJwt token]
  | some (.userpass username password) => do return [← authUserpass username password]

def planHandshake (protocol : Option Protocol) (serverCapabilities : Capabilities)
    (clientName clientVersion : Option Text) (clientId : Text × Text) (auth : Option Auth)
    (wantBatch : Bool) : Except Exn (List Command) := do
  let commands ←
    if protocol = some .v4 then do
      let auth ← authCommands auth
      pure (slproto "4.0".toList :: useragent clientName clientVersion clientId :: auth)
    else pure (if hasCap serverCapabilities then [capabilities "EXTREPLY".toList] else [])
  return commands ++ (if protocol = some .v3 && wantBatch then [batch] else [])

/-- The arguments of `plan_negotiation` besides the streams. -/
structure NegotiationArgs where
  protocol : Option Protocol
  dialup : Bool
  multistation : Bool
  resume : Bool
  lastpkttime : Bool
  batchActive : Bool
  startTime : Option DateTime
  endTime : Option DateTime

namespace NegotiationArgs

def cmdName (args : NegotiationArgs) : Text := if args.dialup then "FETCH".toList else "DATA".toList

def resumeSeqnum (args : NegotiationArgs) (s : Stream) : Option Int :=
  if args.resume then s.seqnum.map (· + 1) else none

end NegotiationArgs

section plans
variable [Pymseed] [Unicode] [Iso8601]

def wireSelector (protocol : Option Protocol) (selector : Text) : Text :=
  if protocol = some .v4 then (v3ToV4Selector selector).getD selector
  else (v4ToV3Selector selector).getD selector

/-- The timestamp to resume from; asking for it resolves the stream's pending packet. A time that
cannot be read is left out, one that overflows is not caught. -/
def resumeTimestamp (args : NegotiationArgs) (seqnum : Option Int) (s : Stream) :
    Except Exn (Option Text) × Stream :=
  if args.lastpkttime && seqnum.isSome then
    let s := s.resolveTimestamp
    if truthy s.timestamp then
      match parseTimestring (s.timestamp.getD []) >>= toCommaTimestring with
      | .ok t => (.ok (some t), s)
      | .error e => if e.isValueError then (.ok none, s) else (.error e, s)
    else (.ok none, s)
  else (.ok none, s)

def planStreamV4 (args : NegotiationArgs) (s : Stream) : Except Exn (List Command) := do
  let seqnum := if args.startTime.isSome then none else args.resumeSeqnum s
  let data ← dataV4 s.stationId seqnum s.allData args.startTime args.endTime
  return stationV4 s.stationId ::
    s.selectors.map (fun sel => selectV4 s.stationId (wireSelector args.protocol sel)) ++ [data]

/-- A v3 stream's TIME, or its DATA or FETCH. -/
def requestV3 (args : NegotiationArgs) (startStr endStr : Option Text) (expectReply : Bool)
    (s : Stream) : Except Exn Command × Stream :=
  match startStr with
  | some start => (.ok (timeV3 s.stationId start endStr expectReply), s)
  | none =>
    let seqnum := args.resumeSeqnum s
    match resumeTimestamp args seqnum s with
    | (.ok timestamp, s) => (.ok (dataV3 s.stationId args.cmdName seqnum timestamp expectReply), s)
    | (.error e, s) => (.error e, s)

def selectsV3 (args : NegotiationArgs) (s : Stream) : List Command :=
  s.selectors.map fun sel =>
    selectV3 s.stationId (wireSelector args.protocol sel) (!args.batchActive)

def planStreamV3 (args : NegotiationArgs) (startStr endStr : Option Text) (s : Stream) :
    Except Exn (List Command) × Stream :=
  let request := requestV3 args startStr endStr (!args.batchActive) s
  (request.1.map fun data =>
    stationV3 s.stationId (!args.batchActive) :: selectsV3 args s ++ [data], request.2)

/-- The streams one after another, up to the first that raises. -/
def planStreams (plan : Stream → Except Exn (List Command) × Stream) :
    List Stream → Except Exn (List Command) × List Stream
  | [] => (.ok [], [])
  | s :: rest =>
    match plan s with
    | (.error e, s) => (.error e, s :: rest)
    | (.ok cmds, s) =>
      let planned := planStreams plan rest
      (planned.1.map (cmds ++ ·), s :: planned.2)

/-- The v3 plan, with the time window already written out. -/
def planNegotiationV3 (args : NegotiationArgs) (startStr endStr : Option Text)
    (streams : List Stream) : Except Exn (List Command) × List Stream :=
  if args.multistation then
    let planned := planStreams (planStreamV3 args startStr endStr) streams
    (planned.1.map (· ++ [endV3]), planned.2)
  else
    match streams with
    | [s] =>
      let request := requestV3 args startStr endStr false s
      (request.1.map fun data => selectsV3 args s ++ [data], [request.2])
    | _ => (.error (seedLinkError "v3 uni-station mode requires exactly one stream"), streams)

/-- `plan_negotiation`: the commands in order, and the streams, some of whose pending packets it
resolves. -/
def planNegotiation (args : NegotiationArgs) (streams : List Stream) :
    Except Exn (List Command) × List Stream :=
  match args.startTime.mapM toCommaTimestring, args.endTime.mapM toCommaTimestring with
  | .error e, _ => (.error e, streams)
  | _, .error e => (.error e, streams)
  | .ok startStr, .ok endStr =>
    if args.protocol = some .v4 then
      let planned := planStreams (fun s => (planStreamV4 args s, s)) streams
      (planned.1.map (· ++ [endV4 args.dialup]), planned.2)
    else planNegotiationV3 args startStr endStr streams

end plans

end SeedLink
