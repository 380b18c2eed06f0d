import SeedLink.Lib.Bytearray
import Mathlib.Data.List.AList

/-!
# The wire codec (`protocol.py`)

Header, reply and line parsing, with the types they produce. Everything here is pure; a raised
exception is the `error` of an `Except`.
-/

namespace SeedLink

/-! ### Constants -/

def signatureV3 : Bytes := Bytes.lit "SL"
def infoSignatureV3 : Bytes := Bytes.lit "SLINFO"
def headsizeV3 : Nat := 8
def signatureV4 : Bytes := Bytes.lit "SE"
def headsizeV4 : Nat := 17
def minPayloadDetect : Nat := 64
def maxStationid : Nat := 21
def maxCommandLen : Nat := 4096
def maxLineLen : Nat := 8192
def maxPayloadSize : Nat := 16 * 1024 * 1024
def maxRecordLen : Nat := 1024 * 1024

def formatMseed2 : Text := "2".toList
def formatJson : Text := "J".toList
def formatXml : Text := "X".toList
def subformatJsonInfo : Text := "I".toList
def subformatJsonError : Text := "E".toList

def crlf : Bytes := [13, 10]

inductive Protocol
  | v3
  | v4
  deriving DecidableEq, Repr

inductive StreamEvent
  | packet
  | endOfStream
  | error
  | other
  deriving DecidableEq, Repr

/-! ### Exceptions -/

/-- The package's exceptions, and the built-in ones its code can raise. -/
inductive Exn
  | seedLinkError (message : String) (code : Option Text)
  | seedLinkTimeout (message : String)
  | seedLinkAuthError (message : String) (code : Option Text)
  | unicodeDecodeError
  | unicodeEncodeError
  | valueError (message : String)
  | overflowError
  | attributeError
  | recursionError
  | osError
  | keyboardInterrupt
  | generatorExit
  | cancelledError
  deriving DecidableEq, Repr

namespace Exn

/-- `isinstance(e, SeedLinkError)`. -/
def isSeedLinkError : Exn → Bool
  | seedLinkError .. | seedLinkTimeout .. | seedLinkAuthError .. => true
  | _ => false

def isAuthError : Exn → Bool
  | seedLinkAuthError .. => true
  | _ => false

/-- `isinstance(e, ValueError)`: the Unicode errors are value errors. -/
def isValueError : Exn → Bool
  | valueError .. | unicodeDecodeError | unicodeEncodeError => true
  | _ => false

/-- `isinstance(e, OSError)`: `SeedLinkTimeout` is a `TimeoutError` too. -/
def isOSError : Exn → Bool
  | osError | seedLinkTimeout .. => true
  | _ => false

end Exn

/-- A `SeedLinkError` without a code. -/
def seedLinkError (message : String) : Exn := .seedLinkError message none

theorem exists_of_bind_ok {α β ε : Type} {x : Except ε α} {f : α → Except ε β} {b : β}
    (h : x >>= f = .ok b) : ∃ a, x = .ok a ∧ f a = .ok b := by
  cases x with
  | error e => cases h
  | ok a => exact ⟨a, rfl, h⟩

theorem exists_of_map_ok {α β ε : Type} {x : Except ε α} {f : α → β} {b : β} (h : x.map f = .ok b) :
    ∃ a, x = .ok a ∧ f a = b := by
  cases x with
  | error e => cases h
  | ok a => exact ⟨a, rfl, Except.ok.inj h⟩

/-! ### `repr()` of bytes, for messages -/

def hexLower (d : Nat) : Char := "0123456789abcdef".toList.getD d '0'

def reprByte (quote : Char) (b : UInt8) : Text :=
  let c := Char.ofNat b.toNat
  if c = quote ∨ b = 92 then [Char.ofNat 92, c]
  else if b = 9 then [Char.ofNat 92, 't']
  else if b = 10 then [Char.ofNat 92, 'n']
  else if b = 13 then [Char.ofNat 92, 'r']
  else if 32 ≤ b ∧ b < 127 then [c]
  else [Char.ofNat 92, 'x', hexLower (b.toNat / 16), hexLower (b.toNat % 16)]

/-- `repr(s)` for ASCII text: double quotes only around a single quote. -/
def reprAscii (l : Bytes) : Text :=
  let quote := if l.contains 39 && !l.contains 34 then Char.ofNat 34 else Char.ofNat 39
  quote :: (l.flatMap (reprByte quote) ++ [quote])

/-- `repr(b)`. -/
def reprBytes (l : Bytes) : String := String.ofList ('b' :: reprAscii l)

/-! ### Types -/

structure SeedLinkResponse where
  status : Text
  code : Option Text
  message : Option Text
  deriving DecidableEq, Repr

/-- `bool(resp)`. -/
def SeedLinkResponse.ok (r : SeedLinkResponse) : Bool := r.status = "OK".toList

/-- A parsed miniSEED record, named by the bytes it was parsed from. -/
abbrev Record := Bytes

structure SeedLinkPacket where
  stationId : Text
  seqnum : Option Int
  payloadFormat : Text
  payloadSubformat : Text
  payload : Bytes
  record : Option Record := none
  deriving DecidableEq, Repr

structure HeaderV3 where
  seqnum : Option Int
  isInfo : Bool
  infoContinues : Bool
  deriving DecidableEq, Repr

structure HeaderV4 where
  payloadFormat : Text
  payloadSubformat : Text
  payloadLength : Nat
  seqnum : Nat
  stationIdLength : Nat
  deriving DecidableEq, Repr

structure RawFrame where
  stationId : Text
  seqnum : Option Int
  payloadFormat : Text
  payloadSubformat : Text
  payload : Bytes
  infoContinues : Bool
  record : Option Record := none
  deriving DecidableEq, Repr

/-! ### Packet headers -/

/-- The white space `int()` strips from a byte string. -/
def isByteSpace (b : UInt8) : Bool := b = 32 || (9 ≤ b && b ≤ 13)

def hexDigit? (b : UInt8) : Option Nat :=
  let n := b.toNat
  if 48 ≤ n ∧ n ≤ 57 then some (n - 48)
  else if 65 ≤ n ∧ n ≤ 70 then some (n - 55)
  else if 97 ≤ n ∧ n ≤ 102 then some (n - 87)
  else none

/-- The digits at the front, underscores between them allowed one at a time, and what follows. -/
def hexDigits (acc : Nat) (underscore : Bool) : Bytes → Option (Nat × Bytes)
  | [] => if underscore then none else some (acc, [])
  | b :: rest =>
    if b = 95 then if underscore then none else hexDigits acc true rest
    else
      match hexDigit? b with
      | some d => hexDigits (acc * 16 + d) false rest
      | none => if underscore then none else some (acc, b :: rest)

/-- The sign and the optional `0x` of an integer literal. -/
def signAndPrefix (s : Bytes) : Bool × Bytes :=
  let (negative, s) :=
    match s with
    | 45 :: rest => (true, rest)
    | 43 :: rest => (false, rest)
    | s => (false, s)
  match s with
  | 48 :: x :: rest =>
    if x = 120 ∨ x = 88 then
      match rest with
      | 95 :: rest => (negative, rest)
      | rest => (negative, rest)
    else (negative, s)
  | s => (negative, s)

/-- `int(buf, 16)`, `none` for `ValueError`. -/
def intBase16 (buf : Bytes) : Option Int :=
  let (negative, s) := signAndPrefix (buf.dropWhile isByteSpace)
  match s with
  | [] => none
  | b :: rest =>
    match hexDigit? b with
    | none => none
    | some d =>
      match hexDigits d false rest with
      | none => none
      | some (n, tail) =>
        if tail.all isByteSpace then some (if negative then -(n : Int) else n) else none

def parseHeaderV3 (buf : Bytes) : Except Exn HeaderV3 :=
  if buf.length < headsizeV3 then
    .error (seedLinkError s!"v3 header too short: {buf.length} bytes")
  else if buf.take 6 = infoSignatureV3 then
    .ok { seqnum := none, isInfo := true, infoContinues := (buf.drop 7).take 1 = Bytes.lit "*" }
  else if buf.take 2 = signatureV3 then
    match intBase16 ((buf.drop 2).take 6) with
    | some seqnum => .ok { seqnum := some seqnum, isInfo := false, infoContinues := false }
    | none =>
      .error (seedLinkError s!"Invalid v3 sequence number: {reprBytes ((buf.drop 2).take 6)}")
  else .error (seedLinkError s!"Unrecognized v3 header signature: {reprBytes (buf.take 2)}")

/-- The fields of the fixed v4 header: signature, format, subformat, payload length, sequence
number, station ID length. -/
def unpackV4 (buf : Bytes) : Bytes × Bytes × Bytes × Nat × Nat × Nat :=
  (buf.take 2, (buf.drop 2).take 1, (buf.drop 3).take 1, Bytes.leNat ((buf.drop 4).take 4),
    Bytes.leNat ((buf.drop 8).take 8), Bytes.leNat ((buf.drop 16).take 1))

def parseHeaderV4 (buf : Bytes) : Except Exn HeaderV4 :=
  if buf.length < headsizeV4 then
    .error (seedLinkError s!"v4 header too short: {buf.length} bytes")
  else
    let (signature, fmt, subfmt, length, seqnum, sidlen) := unpackV4 buf
    if signature ≠ signatureV4 then
      .error (seedLinkError s!"Unrecognized v4 header signature: {reprBytes signature}")
    else if length > maxPayloadSize then
      .error (seedLinkError
        s!"Declared payload length {length} exceeds sanity limit {maxPayloadSize}")
    else if sidlen > maxStationid then
      .error (seedLinkError
        s!"Declared station ID length {sidlen} exceeds sanity limit {maxStationid}")
    else
      match Bytes.decodeAscii fmt, Bytes.decodeAscii subfmt with
      | some fmt, some subfmt =>
        .ok { payloadFormat := fmt, payloadSubformat := subfmt, payloadLength := length, seqnum,
              stationIdLength := sidlen }
      | _, _ => .error .unicodeDecodeError

/-- The frame behind a v4 header, once the buffer holds all of it. -/
def decodeFrameV4Body (view : Bytearray) (start : Nat) (header : HeaderV4) : Except Exn RawFrame :=
  let pos := start + headsizeV4
  match Bytes.decodeAscii (view.slice pos (pos + header.stationIdLength)) with
  | none => .error .unicodeDecodeError
  | some stationId =>
    let pos := pos + header.stationIdLength
    .ok { stationId, seqnum := some header.seqnum, payloadFormat := header.payloadFormat,
          payloadSubformat := header.payloadSubformat,
          payload := view.slice pos (pos + header.payloadLength), infoContinues := false }

/-! ### The stream between packets -/

def isPacketSignature (first second : UInt8) : Bool := first = 83 && (second = 76 || second = 69)

def classifyStreamPrefix (buf : Bytes) : StreamEvent :=
  if (Bytes.lit "END").isPrefixOf buf then .endOfStream
  else if (Bytes.lit "ERROR").isPrefixOf buf then .error
  else if signatureV3.isPrefixOf buf || signatureV4.isPrefixOf buf then .packet
  else .other

/-- The line that `buf` holds from `start` on, with the place behind its terminator; `none` when
more bytes are needed. -/
def scanLine (buf : Bytearray) (start stop searchFrom : Nat) : Except Exn (Option (Text × Nat)) :=
  match buf.find crlf (start + searchFrom) stop with
  | none =>
    if stop - start ≥ maxLineLen then
      .error (seedLinkError s!"Reply line exceeds {maxLineLen} bytes with no terminator")
    else .ok none
  | some idx =>
    match Bytes.decodeAscii (buf.slice start idx) with
    | some line => .ok (some (line, idx + 2))
    | none => .error (seedLinkError s!"Reply is not ASCII: {reprBytes (buf.slice start idx)}")

/-! ### Replies -/

/-- `extra or None`. -/
def orNone (s : Text) : Option Text := if s.isEmpty then none else some s

def parseReply (text : Text) : SeedLinkResponse :=
  let text := Text.rstripChars [Char.ofNat 13, Char.ofNat 10] text
  let (head, _, extra) := Text.partition (Char.ofNat 13) text
  let parts := Text.splitWord1 head
  let status := parts.headD []
  if status = "OK".toList then { status, code := none, message := orNone extra }
  else if status = "ERROR".toList then
    match parts.tail with
    | [] => { status, code := none, message := orNone extra }
    | rest :: _ =>
      match Text.splitWord1 rest with
      | code :: message :: _ => { status, code := some code, message := some message }
      | restParts => { status, code := restParts.head?, message := orNone extra }
  else { status, code := none, message := orNone text }

/-- A capability's value: the text behind its colon, or `True`. -/
inductive Capability
  | text (value : Text)
  | true
  deriving DecidableEq, Repr

abbrev Capabilities := AList fun _ : Text => Capability

/-- One token of the capability list, with the protocol major it advertises. -/
def addCapability (caps : Capabilities × List Text) (token : Text) : Capabilities × List Text :=
  match Text.partition ':' token with
  | (key, true, value) =>
    (caps.1.insert key (.text value),
      if key = "SLPROTO".toList then (Text.partition '.' value).1 :: caps.2 else caps.2)
  | _ => (caps.1.insert token .true, caps.2)

/-- Server ID, organization, capabilities and advertised protocol majors. -/
def parseHello (line1 line2 : Text) : Text × Text × Capabilities × List Text :=
  let line1 := Text.rstripChars [Char.ofNat 13, Char.ofNat 10] line1
  let line2 := Text.rstripChars [Char.ofNat 13, Char.ofNat 10] line2
  match Text.findSub "::".toList line1 with
  | none => (Text.strip line1, Text.strip line2, ∅, [])
  | some i =>
    let caps := (Text.splitWords (line1.drop (i + 2))).foldl addCapability (∅, [])
    (Text.strip (line1.take i), Text.strip line2, caps.1, caps.2)

def selectProtocol (protocolMajors : List Text) (requested : Option Protocol) :
    Except Exn Protocol :=
  let supportsV3 := protocolMajors.contains "3".toList || protocolMajors.isEmpty
  let supportsV4 := protocolMajors.contains "4".toList
  match requested with
  | some .v3 =>
    if supportsV3 then .ok .v3 else .error (seedLinkError "Server does not support SeedLink v3")
  | some .v4 =>
    if supportsV4 then .ok .v4 else .error (seedLinkError "Server does not support SeedLink v4")
  | none =>
    if supportsV4 then .ok .v4
    else if supportsV3 then .ok .v3
    else .error (seedLinkError "No supported protocol version found")

end SeedLink
