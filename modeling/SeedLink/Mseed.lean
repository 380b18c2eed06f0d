import SeedLink.Protocol

/-!
# The miniSEED adapter (`mseed.py`)

The functions of `pymseed` are parameters: `Pymseed` lists those the adapter calls. A record is
named by the bytes it was parsed from, so a parsed record is just bytes that parse.
-/

namespace SeedLink

class Pymseed where
  /-- `ms3_detect`: the record length, 0 when it is not yet known, negative for no record. -/
  ms3Detect : Bytes → Int
  /-- `MS3Record.parse`, or the text of its exception. -/
  parse : Bytes → Except String Record
  /-- `MS3Record.parse(unpack_data=True)`, or the text of its exception. -/
  parseUnpacked : Bytes → Except String Record
  /-- The network and station codes of `sourceid2nslc(record.sourceid)`. -/
  netSta : Record → Text × Text
  starttimeStr : Record → Text
  sampletype : Record → Text
  datasamples : Record → Bytes

/-- A `pymseed` to which nothing is a record. -/
abbrev Pymseed.bare : Pymseed where
  ms3Detect _ := -1
  parse _ := .error "Not a SEED record"
  parseUnpacked _ := .error "Not a SEED record"
  netSta _ := ([], [])
  starttimeStr _ := []
  sampletype _ := []
  datasamples _ := []

variable [Pymseed]

/-- The record length, or `none` when more bytes are needed to tell. -/
def detectRecordLength (buf : Bytes) : Except Exn (Option Nat) :=
  let reclen := Pymseed.ms3Detect buf
  if reclen < 0 then .error (seedLinkError "Payload does not look like a miniSEED record")
  else if reclen = 0 then .ok none
  else .ok (some reclen.toNat)

def parseRecord (payload : Bytes) : Except Exn Record :=
  match Pymseed.parse payload with
  | .ok record => .ok record
  | .error e => .error (seedLinkError s!"Payload is not a valid miniSEED record: {e}")

def stationId (record : Record) : Text :=
  let (net, sta) := Pymseed.netSta record
  net ++ '_' :: sta

def extractInfoText (payload : Bytes) : Except Exn Text :=
  match Pymseed.parseUnpacked payload with
  | .error e => .error (seedLinkError s!"INFO payload is not a valid miniSEED record: {e}")
  | .ok record =>
    if Pymseed.sampletype record ≠ "t".toList then
      .error (seedLinkError
        s!"INFO payload is not text-encoded (sampletype={String.ofList (Pymseed.sampletype record)})")
    else .ok (Bytes.decodeUtf8 (Pymseed.datasamples record))

/-- The frame behind a v3 header and its record (`protocol.decode_frame_v3`). -/
def decodeFrameV3 (header : HeaderV3) (payload : Bytes) : Except Exn RawFrame :=
  if header.isInfo then do
    let text ← extractInfoText payload
    return { stationId := [], seqnum := none, payloadFormat := formatXml,
             payloadSubformat := subformatJsonInfo, payload := Bytes.encodeUtf8 text,
             infoContinues := header.infoContinues }
  else do
    let record ← parseRecord payload
    return { stationId := stationId record, seqnum := header.seqnum,
             payloadFormat := formatMseed2, payloadSubformat := "D".toList, payload,
             infoContinues := false, record := some record }

/-- `SeedLinkPacket.record`. -/
def SeedLinkPacket.parsed (pkt : SeedLinkPacket) : Except Exn Record :=
  match pkt.record with
  | some record => .ok record
  | none => parseRecord pkt.payload

end SeedLink
