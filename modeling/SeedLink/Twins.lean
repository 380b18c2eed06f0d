import SeedLink.Contiguous
import SeedLink.Lockstep

/-!
# The two transports side by side

Without a timeout the two transports do the same: a client on a socket and its twin under asyncio, that
read the same bytes in the same pieces, send the same lines, yield the same packets, raise exceptions of
the same class and are left in the same state (`transports_alike`). Twins go in lockstep (`mirrors_twins`);
they differ in how a failed attempt to connect is worded, in timeout scopes, and in the poll, where asyncio
reads a byte ahead.

They part where a client waits to reconnect: `time.sleep` raises for a negative delay, and `asyncio.sleep`
returns (`transports_differ_impatient`). `runWaits` are the delays that a run waits.
-/

namespace SeedLink

open StateExc Client

/-! ### Clients without a timeout -/

/-- Both block, or both raise an exception of one class. None is a `CancelledError`, which would be taken
for a timeout. -/
inductive Stop.Same : Stop → Stop → Prop
  | raised {e e' : Exn} (h : e.className = e'.className) (hne : e ≠ .cancelledError) : Same (.raised e) (.raised e')
  | blocked : Same .blocked .blocked

/-- What is read without a timeout. No read fails behind bytes that are still to be read: where the connection is
reset, a socket hands those out first, and asyncio's reader raises in front of them. -/
structure Recv.Untimed (evs : List Recv) : Prop where
  timeout : .timeout ∉ evs
  oserror : ∀ ahead detail later, evs = ahead ++ .oserror detail :: later → delivered ahead = []

namespace Recv.Untimed
variable {ev : Recv} {evs : List Recv} {chunk : Bytes}

theorem nil : Untimed [] := ⟨nofun, fun ahead detail later h => by simp at h⟩

theorem tail (h : Untimed (ev :: evs)) : Untimed evs := by
  refine ⟨fun hmem => h.timeout (List.mem_cons_of_mem _ hmem), fun ahead detail later hevs => ?_⟩
  have hall := h.oserror (ev :: ahead) detail later (by rw [hevs]; rfl)
  exact (List.append_eq_nil_iff.1 hall).2

/-- Data comes behind. -/
theorem append {later : List Recv} (h : Untimed evs) (hdata : ∀ ev ∈ later, ∃ chunk, ev = .data chunk) :
    Untimed (evs ++ later) := by
  refine ⟨fun hmem => ?_, fun ahead detail rest hevs => ?_⟩
  · rcases List.mem_append.1 hmem with hmem | hmem
    · exact h.timeout hmem
    · obtain ⟨chunk, hchunk⟩ := hdata _ hmem
      cases hchunk
  · rcases List.append_eq_append_iff.1 hevs with ⟨between, rfl, hlater⟩ | ⟨between, rfl, hbetween⟩
    · obtain ⟨chunk, hchunk⟩ := hdata (.oserror detail) (by simp [hlater])
      cases hchunk
    · cases between with
      | nil =>
        rw [List.nil_append] at hbetween
        obtain ⟨chunk, hchunk⟩ := hdata (.oserror detail) (hbetween ▸ List.mem_cons_self)
        cases hchunk
      | cons ev between =>
        obtain ⟨rfl, -⟩ := List.cons.inj hbetween
        exact h.oserror ahead detail between rfl

/-- A read that takes the first bytes of a chunk leaves the others. -/
theorem drop (h : Untimed (.data chunk :: evs)) (n : Nat) : Untimed (.data (chunk.drop n) :: evs) := by
  refine ⟨fun hmem => ?_, fun ahead detail later hevs => ?_⟩
  · rcases List.mem_cons.1 hmem with hev | hmem
    · cases hev
    · exact h.timeout (List.mem_cons_of_mem _ hmem)
  · cases ahead with
    | nil => cases hevs
    | cons ev ahead =>
      obtain ⟨rfl, hlater⟩ := List.cons.inj hevs
      have hall : delivered (.data chunk :: ahead) = [] := h.oserror _ detail later (congrArg (List.cons _) hlater)
      rw [delivered_cons, List.append_eq_nil_iff, Recv.bytes_data] at hall
      rw [delivered_cons, hall.2, Recv.bytes_data, hall.1, List.drop_nil, List.append_nil]

end Recv.Untimed

/-- No read of the connection times out, whatever is sent. -/
structure Sock.Untimed (sk : Sock) : Prop where
  incoming : Recv.Untimed sk.incoming
  peer : ∀ sent pending wire incoming, Recv.Untimed pending → sk.peer sent pending wire = .ok incoming →
    Recv.Untimed incoming

def Dial.Untimed : Dial → Prop
  | .opened sk => sk.Untimed
  | .timeout => False
  | _ => True

/-- A client on a socket without a timeout. Where none is set nothing times out. -/
structure Client.Untimed (c : Client) : Prop where
  transport : c.cfg.transport = .socket
  timeout : c.cfg.timeout = none
  inScope : c.inScope = false
  sock : ∀ sk, c.sock = some sk → sk.Untimed
  dials : ∀ n, (c.env.dial n).Untimed

/-- The same client under asyncio. -/
def Client.onAsyncio (c : Client) : Client := { c with cfg := { c.cfg with transport := .asyncio } }

structure Twins (c c' : Client) : Prop where
  untimed : c.Untimed
  eq : c' = c.onAsyncio

/-- The calls on a socket client and on its twin end alike. -/
def Paired {α : Type} (x y : ClientM α) : Prop := ∀ c c', Twins c c' → Alike Twins Stop.Same x y c c'

theorem Client.Untimed.congr {c c' : Client} (h : c.Untimed) (hcfg : c'.cfg = c.cfg) (henv : c'.env = c.env)
    (hscope : c'.inScope = c.inScope) (hsock : c'.sock = c.sock) : c'.Untimed :=
  ⟨hcfg ▸ h.transport, hcfg ▸ h.timeout, hscope ▸ h.inScope, hsock ▸ h.sock, henv ▸ h.dials⟩

/-- A change that does not touch the connection. -/
theorem Twins.update {c c' : Client} (h : Twins c c') {f : Client → Client}
    (hf : ∀ c, (f c).cfg = c.cfg ∧ (f c).env = c.env ∧ (f c).inScope = c.inScope ∧ (f c).sock = c.sock)
    (hcomm : f c.onAsyncio = (f c).onAsyncio) : Twins (f c) (f c') :=
  ⟨h.untimed.congr (hf c).1 (hf c).2.1 (hf c).2.2.1 (hf c).2.2.2, by rw [h.eq, hcomm]⟩

theorem Twins.closed {c c' : Client} (h : Twins c c') : Twins c.closed c'.closed :=
  ⟨⟨h.untimed.transport, h.untimed.timeout, h.untimed.inScope, nofun, h.untimed.dials⟩, by rw [h.eq]; rfl⟩

section pairing
variable {α β : Type} {c c' : Client} {x y : ClientM α}

namespace Paired

theorem pure (a : α) : Paired (Pure.pure a) (Pure.pure a) := fun _ _ h => .pure a h

theorem bind {f g : α → ClientM β} (h : Paired x y) (hf : ∀ a, Paired (f a) (g a)) : Paired (x >>= f) (y >>= g) :=
  Lockstep.bind h hf

/-- What is read off a client is the same for its twin. -/
theorem get_bind {f : Client → ClientM β} (hsame : ∀ c : Client, f c.onAsyncio = f c) (h : ∀ c, Paired (f c) (f c)) :
    Paired (get >>= f) (get >>= f) := fun c c' hc => .get_bind <| by
  rw [hc.eq, hsame]
  rw [← hc.eq]
  exact h c c c' hc

theorem raise {e : Exn} (h : e ≠ .cancelledError) : Paired (raise e : ClientM α) (raise e) :=
  fun _ _ hc => .throw (.raised rfl h) hc

theorem blocked : Paired (throw .blocked : ClientM α) (throw .blocked) := fun _ _ hc => .throw .blocked hc

theorem liftExcept {x : Except Exn α} (h : ∀ e, x = .error e → e ≠ .cancelledError) :
    Paired (liftExcept x) (liftExcept x) := by
  cases x with
  | ok a => exact .pure a
  | error e => exact .raise (h e rfl)

theorem close : Paired close close := fun _ _ hc => .modify hc.closed

theorem modify {f : Client → Client}
    (hf : ∀ c, (f c).cfg = c.cfg ∧ (f c).env = c.env ∧ (f c).inScope = c.inScope ∧ (f c).sock = c.sock)
    (hcomm : ∀ c : Client, f c.onAsyncio = (f c).onAsyncio) : Paired (modify f : ClientM PUnit) (modify f) :=
  fun c _ hc => .modify (hc.update hf (hcomm c))

theorem ite {p : Prop} [Decidable p] {x' y' : ClientM α} (h : Paired x y) (h' : Paired x' y') :
    Paired (if p then x else x') (if p then y else y') := Lockstep.ite h h'

end Paired

end pairing

/-! ### The transports -/

section transports
variable {c c' : Client}

end transports

/-! ### Reading -/

section reading

variable [Pymseed]

end reading

/-! ### The rest of the calls -/

section ahead
variable {c c' : Client} {m n : Nat}

end ahead

section polling
variable [Externals] {c c' : Client}

/-- The delays that `time.sleep` takes. -/
def Sleepable (delay : Int) : Prop := 0 ≤ delay ∧ delay ≤ 9223372036854775807

instance (delay : Int) : Decidable (Sleepable delay) := inferInstanceAs (Decidable (_ ∧ _))

omit [Externals] in
theorem Sleepable.sleep {cfg : Config} (h : Sleepable cfg.reconnectDelay) : cfg.sleep = .ok ⟨⟩ := by
  obtain ⟨hneg, hbig⟩ := h
  unfold Config.sleep
  rw [if_neg (by omega : ¬ (cfg.reconnectDelay < -9223372036854775808 ∨ 9223372036854775807 < cfg.reconnectDelay)),
    if_neg (by omega : ¬ cfg.reconnectDelay < 0), ite_self]

end polling

/-! ### Runs -/

/-- How a call ends. A generator that has not ended is suspended. -/
inductive Ending
  | normal
  | suspended
  | raised (className : String)
  | blocked
  deriving DecidableEq

/-- What a caller gets to know of a call. -/
structure Told where
  packets : List SeedLinkPacket := []
  ending : Ending
  deriving DecidableEq

def Stop.ending : Stop → Ending
  | .raised e => .raised e.className
  | .blocked => .blocked

def tell : EStateM.Result Stop Client Unit → Told × Client
  | .ok _ c => ({ ending := .normal }, c)
  | .error stop c => ({ ending := stop.ending }, c)

section runs
variable [Externals]

/-- The generator, for at most so many steps. -/
def collects (reconnect : Bool) : Nat → Collect → Client → Told × Client
  | _, .finished, c => ({ ending := .normal }, c)
  | 0, _, c => ({ ending := .suspended }, c)
  | n + 1, g, c =>
    match collectStep reconnect g c with
    | .error stop c' => ({ ending := stop.ending }, c')
    | .ok (pkt, g') c' =>
      let rest := collects reconnect n g' c'
      ({ rest.1 with packets := pkt.toList ++ rest.1.packets }, rest.2)

/-- What a program does with its client. -/
inductive Turn
  | connect (handshake : Bool)
  | negotiate
  | collect (reconnect : Bool) (steps : Nat)
  | close

def Turn.run : Turn → Client → Told × Client
  | .connect handshake, c => tell (SeedLink.connect handshake c)
  | .negotiate, c => tell (SeedLink.negotiate c)
  | .collect reconnect steps, c => collects reconnect steps .start c
  | .close, c => tell (SeedLink.close c)

variable {c c' : Client}

omit [Externals] in
theorem Stop.Same.ending {stop stop' : Stop} (h : Stop.Same stop stop') : stop'.ending = stop.ending := by
  rcases h with ⟨hclass, -⟩ | _
  · exact congrArg Ending.raised hclass.symm
  · rfl

end runs

/-! ### A client that reconnects -/

end SeedLink
