import SeedLink.Lib.Wp
import SeedLink.Lib.Text
import SeedLink.Lib.Bytes
import SeedLink.Lib.Bytearray
import SeedLink.Lib.Unicode
import SeedLink.Lib.Segments
import SeedLink.Lib.Interleave
import SeedLink.Lib.Runs
import SeedLink.Lib.OneLine
import SeedLink.Lib.Alike
import SeedLink.Lib.Words
import SeedLink.Lib.Spacing
import SeedLink.Lib.Utf8
import SeedLink.Protocol
import SeedLink.Mseed
import SeedLink.RecvBuf
import SeedLink.Streams
import SeedLink.TimeUtils
import SeedLink.Base
import SeedLink.Commands
import SeedLink.Info
import SeedLink.Transport
import SeedLink.Client
import SeedLink.Feeds
import SeedLink.Frames
import SeedLink.RoundTrip
import SeedLink.FrameBoundary
import SeedLink.Exchange
import SeedLink.Passes
import SeedLink.Escapes
import SeedLink.Reads
import SeedLink.Plans
import SeedLink.Steady
import SeedLink.MatchCache
import SeedLink.Negotiation
import SeedLink.Resume
import SeedLink.Servers
import SeedLink.Sessions
import SeedLink.Contiguous
import SeedLink.StateFile
import SeedLink.Setup
import SeedLink.Recovery
import SeedLink.RecordStream
import SeedLink.Capacity
import SeedLink.CommandLines
import SeedLink.Endings
import SeedLink.IdleTimeout
import SeedLink.Lockstep
import SeedLink.Twins
import SeedLink.Pairing
import SeedLink.Cli
import SeedLink.Restarts
import SeedLink.Dumps
import SeedLink.Selectors
import SeedLink.Headers
import SeedLink.Instants
import SeedLink.Requests
import SeedLink.StateRoundTrip
import SeedLink.InfoPieces
import SeedLink.Calls
import SeedLink.Connecting
import SeedLink.Leftovers
import SeedLink.ServerStrings
import SeedLink.InfoTrees
import SeedLink.Lines
import SeedLink.TimeStamps
import SeedLink.Saves
import SeedLink.StreamLists
import SeedLink.BufferRuns
import SeedLink.Fetches
import SeedLink.Shell
import SeedLink.ShellRuns
import SeedLink.ShellSessions
import SeedLink.Prompts
import SeedLink.Interactive
import SeedLink.Agreement
import SeedLink.Interchange
import SeedLink.Heartbeats
import SeedLink.Archives
import SeedLink.Dialing
import SeedLink.Blindness
import SeedLink.Lib.Stable
import SeedLink.Rearranged
