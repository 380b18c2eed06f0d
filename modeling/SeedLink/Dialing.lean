import SeedLink.Steady

/-!
# Dialling the addresses of a server (`client.py`, `_connect_socket`)

A host has several addresses. Each is given a socket of its own, which is closed again unless the client takes
it over, whatever goes wrong with it. So one descriptor is left open behind a connection and none behind a failure,
and what comes of it all is the one outcome of `Dial` that the client sees (`dialAddresses_refines`).
-/

namespace SeedLink

open StateExc

/-- What can go wrong with a socket. -/
inductive Fault
  | certificate (detail : String)
  | os
  | other (e : Exn)

/-- An entry of `getaddrinfo`: what its socket meets, and the connection it would make. -/
structure Address where
  socket : Option Fault := none
  options : Option Fault := none
  connect : Option Fault := none
  /-- `wrap_socket` may have taken the descriptor over, and closes it then. -/
  wrap : Option (Bool × Fault) := none
  sock : Sock

/-- What `getaddrinfo` gives. -/
inductive Resolution
  | unresolved (detail : String)
  | raised (e : Exn)
  | found (addresses : List Address)

/-- A client with the descriptors that are open, the next one to be given out, and its own. -/
structure Dialer where
  client : Client
  opened : List Nat := []
  fresh : Nat := 0
  held : Option Nat := none

/-! ### One address -/

def meet (f : Option Fault) : EStateM Fault Dialer Unit :=
  match f with
  | some f => throw f
  | none => pure ⟨⟩

def newSocket (f : Option Fault) : EStateM Fault Dialer Nat := do
  meet f
  let d ← get
  set { d with opened := d.fresh :: d.opened, fresh := d.fresh + 1 }
  return d.fresh

def closeSocket (fd : Nat) : EStateM Fault Dialer Unit :=
  modify fun d => { d with opened := d.opened.filter (· ≠ fd) }

/-- `context.wrap_socket(sock)`: the descriptor stays the same. -/
def wrapSocket (fd : Nat) : Option (Bool × Fault) → EStateM Fault Dialer Unit
  | none => pure ⟨⟩
  | some (taken, f) => do
    if taken then closeSocket fd
    throw f

/-- `self._sock = sock`, and the buffer is reset. -/
def takeOver (fd : Nat) (sk : Sock) : EStateM Fault Dialer Unit :=
  modify fun d =>
    { d with client := { d.client with sock := some sk, rb := d.client.rb.reset }, held := some fd }

/-- The body of the loop, with its `finally`. -/
def tryAddress (tls : Bool) (a : Address) : EStateM Fault Dialer Unit := do
  let fd ← newSocket a.socket
  tryCatch
    (do
      meet a.options
      meet a.connect
      if tls then wrapSocket fd a.wrap
      takeOver fd a.sock)
    (fun f => do
      closeSocket fd
      throw f)

/-! ### The loop -/

/-- The loop over the addresses: an `OSError` leads to the next, and there is none behind the last. -/
def tryAddresses (cfg : Config) : List Address → EStateM Stop Dialer Unit
  | [] => throw (.raised (seedLinkError s!"Could not connect to {cfg.address}"))
  | a :: rest => fun d =>
    match tryAddress cfg.tls a d with
    | .ok ⟨⟩ d' => .ok ⟨⟩ d'
    | .error (.certificate detail) d' => .error (dialError cfg (.certificateError detail)) d'
    | .error .os d' => tryAddresses cfg rest d'
    | .error (.other e) d' => .error (.raised e) d'

/-- `_connect_socket`. -/
def dialAddresses (resolution : Resolution) : EStateM Stop Dialer Unit := do
  let d ← get
  if d.client.sock.isSome then throw (.raised (seedLinkError "Already connected"))
  else do
    set { d with client := { d.client with dials := d.client.dials + 1 } }
    match resolution with
    | .unresolved detail =>
      throw (.raised (seedLinkError s!"Could not resolve address: {d.client.cfg.address}: {detail}"))
    | .raised e => throw (.raised e)
    | .found [] => throw (.raised (seedLinkError s!"Could not resolve address: {d.client.cfg.address}"))
    | .found addresses => tryAddresses d.client.cfg addresses

/-! ### The outcome -/

/-- The first thing that goes wrong at an address. -/
def Address.fault (tls : Bool) (a : Address) : Option Fault :=
  a.socket <|> a.options <|> a.connect <|> if tls then a.wrap.map (·.2) else none

/-- The first address at which nothing goes wrong, up to one whose fault ends the loop. -/
def firstDial (tls : Bool) : List Address → Except Exn Dial
  | [] => .ok (.refused "")
  | a :: rest =>
    match a.fault tls with
    | none => .ok (.opened a.sock)
    | some (.certificate detail) => .ok (.certificateError detail)
    | some .os => firstDial tls rest
    | some (.other e) => .error e

/-- The outcome of an attempt to connect, unless an exception escapes that is no `OSError`. -/
def Resolution.dial (tls : Bool) : Resolution → Except Exn Dial
  | .unresolved detail => .ok (.unresolved (some detail))
  | .raised e => .error e
  | .found [] => .ok (.unresolved none)
  | .found (a :: rest) => firstDial tls (a :: rest)

section dialling
variable {d d' : Dialer} {a : Address} {tls : Bool} {cfg : Config}

/-- The descriptors that are open have been given out. -/
def Dialer.WF (d : Dialer) : Prop := ∀ fd ∈ d.opened, fd < d.fresh

/-- The client and its descriptor are the same, and so are the descriptors that are open. -/
structure Dialer.Unleaked (d d' : Dialer) : Prop where
  client : d'.client = d.client
  opened : d'.opened = d.opened
  held : d'.held = d.held
  fresh : d.fresh ≤ d'.fresh

/-- The client has taken over the one descriptor that is open beside those before. -/
structure Dialer.Connected (d : Dialer) (sk : Sock) (d' : Dialer) : Prop where
  client : d'.client = { d.client with sock := some sk, rb := d.client.rb.reset }
  opened : ∃ fd, d.fresh ≤ fd ∧ d'.opened = fd :: d.opened ∧ d'.held = some fd

instance : IsPreorder Dialer Dialer.Unleaked where
  refl _ := ⟨rfl, rfl, rfl, Nat.le_refl _⟩
  trans _ _ _ h h' := ⟨h'.client.trans h.client, h'.opened.trans h.opened, h'.held.trans h.held, h.fresh.trans h'.fresh⟩

theorem Dialer.Unleaked.wf (h : d.Unleaked d') (hwf : d.WF) : d'.WF := by
  intro fd hfd
  rw [h.opened] at hfd
  exact (hwf fd hfd).trans_le h.fresh

theorem wp_meet {f : Option Fault} {Q : Unit → Dialer → Prop} {E : Fault → Dialer → Prop}
    (hQ : f = none → Q ⟨⟩ d) (hE : ∀ e, f = some e → E e d) : wp (meet f) Q E d := by
  cases f with
  | none => exact hQ rfl
  | some e => exact hE e rfl

/-- A socket is closed again unless it is taken over. -/
theorem wp_tryAddress (hwf : d.WF) :
    wp (tryAddress tls a) (fun _ d' => a.fault tls = none ∧ d.Connected a.sock d')
      (fun f d' => a.fault tls = some f ∧ d.Unleaked d') d := by
  have hfilter : d.opened.filter (· ≠ d.fresh) = d.opened :=
    List.filter_eq_self.2 fun fd hfd => by simpa using (hwf fd hfd).ne
  have hclosed : (d.fresh :: d.opened).filter (· ≠ d.fresh) = d.opened := by
    rw [List.filter_cons_of_neg (by simp), hfilter]
  have hunleaked : ∀ opened : List Nat, opened.filter (· ≠ d.fresh) = d.opened →
      d.Unleaked { d with opened := opened.filter (· ≠ d.fresh), fresh := d.fresh + 1 } := fun _ h =>
    ⟨rfl, h, rfl, Nat.le_succ _⟩
  rw [tryAddress, wp_bind, newSocket, wp_bind]
  refine wp_meet (fun hsocket => ?_) fun f hsocket => ⟨by simp [Address.fault, hsocket], refl d⟩
  simp only [wp_bind, wp_get, wp_set, wp_pure, wp_tryCatch]
  refine wp_meet (fun hoptions => ?_) fun f hoptions =>
    ⟨by simp [Address.fault, hsocket, hoptions], hunleaked _ hclosed⟩
  refine wp_meet (fun hconnect => ?_) fun f hconnect =>
    ⟨by simp [Address.fault, hsocket, hoptions, hconnect], hunleaked _ hclosed⟩
  have hover : d.Connected a.sock
      { d with
        client := { d.client with sock := some a.sock, rb := d.client.rb.reset }
        opened := d.fresh :: d.opened
        fresh := d.fresh + 1
        held := some d.fresh } := ⟨rfl, d.fresh, Nat.le_refl _, rfl, rfl⟩
  rw [wp_ite]
  split
  · rename_i htls
    cases hwrap : a.wrap with
    | none => exact ⟨by simp [Address.fault, hsocket, hoptions, hconnect, htls, hwrap], hover⟩
    | some r =>
      obtain ⟨taken, f⟩ := r
      have hfault : a.fault tls = some f := by simp [Address.fault, hsocket, hoptions, hconnect, htls, hwrap]
      rw [wrapSocket, wp_bind, wp_ite]
      split
      · have htwice : ((d.fresh :: d.opened).filter (· ≠ d.fresh)).filter (· ≠ d.fresh) = d.opened := by
          rw [hclosed, hfilter]
        exact ⟨hfault, hunleaked _ htwice⟩
      · exact ⟨hfault, hunleaked _ hclosed⟩
  · rename_i htls
    exact ⟨by simp [Address.fault, hsocket, hoptions, hconnect, htls], hover⟩

/-- The loop finds the outcome of the first address that decides it. -/
theorem wp_tryAddresses : ∀ (addresses : List Address) (d : Dialer), d.WF → cfg.transport = .socket →
    wp (tryAddresses cfg addresses)
      (fun _ d' => ∃ sk, firstDial cfg.tls addresses = .ok (.opened sk) ∧ d.Connected sk d')
      (fun stop d' => d.Unleaked d' ∧ ((∃ dial, firstDial cfg.tls addresses = .ok dial ∧ (∀ sk, dial ≠ .opened sk) ∧
        stop = dialError cfg dial) ∨ ∃ e, firstDial cfg.tls addresses = .error e ∧ stop = .raised e)) d
  | [], d, _, hk => by
    refine ⟨refl d, .inl ⟨.refused "", rfl, nofun, ?_⟩⟩
    simp [dialError, hk]
  | a :: rest, d, hwf, hk => by
    have hone : wp (tryAddress cfg.tls a) (fun _ d' => a.fault cfg.tls = none ∧ d.Connected a.sock d')
        (fun f d' => a.fault cfg.tls = some f ∧ d.Unleaked d') d := wp_tryAddress hwf
    cases hrun : tryAddress cfg.tls a d with
    | ok u d' =>
      obtain ⟨hfault, hconnected⟩ := wp_ok hone hrun
      have hstep : tryAddresses cfg (a :: rest) d = .ok ⟨⟩ d' := by simp only [tryAddresses, hrun]
      exact (wp_iff_of_ok hstep).2 ⟨a.sock, by rw [firstDial, hfault], hconnected⟩
    | error f d' =>
      obtain ⟨hfault, hun⟩ := wp_error hone hrun
      cases f with
      | certificate detail =>
        have hstep : tryAddresses cfg (a :: rest) d = .error (dialError cfg (.certificateError detail)) d' := by
          simp only [tryAddresses, hrun]
        exact (wp_iff_of_error hstep).2 ⟨hun, .inl ⟨.certificateError detail, by rw [firstDial, hfault], nofun, rfl⟩⟩
      | os =>
        have hstep : tryAddresses cfg (a :: rest) d = tryAddresses cfg rest d' := by simp only [tryAddresses, hrun]
        have hfirst : firstDial cfg.tls (a :: rest) = firstDial cfg.tls rest := by rw [firstDial, hfault]
        rw [wp, hstep, hfirst]
        refine wp_mono (wp_tryAddresses rest d' (hun.wf hwf) hk) ?_ ?_
        · rintro _ d'' ⟨sk, hfirst, hclient, fd, hfd, hopened, hheld⟩
          exact ⟨sk, hfirst, by rw [hclient, hun.client], fd, hun.fresh.trans hfd, by rw [hopened, hun.opened], hheld⟩
        · rintro stop d'' ⟨hun', hstop⟩
          exact ⟨IsTrans.trans _ _ _ hun hun', hstop⟩
      | other e =>
        have hstep : tryAddresses cfg (a :: rest) d = .error (.raised e) d' := by simp only [tryAddresses, hrun]
        exact (wp_iff_of_error hstep).2 ⟨hun, .inr ⟨e, by rw [firstDial, hfault], rfl⟩⟩

theorem exists_of_firstDial {sk : Sock} {addresses : List Address} (h : firstDial tls addresses = .ok (.opened sk)) :
    ∃ before a after, addresses = before ++ a :: after ∧ (∀ b ∈ before, b.fault tls = some .os) ∧
      a.fault tls = none ∧ a.sock = sk := by
  induction addresses with
  | nil => simp [firstDial] at h
  | cons a rest ih =>
    cases hfault : a.fault tls with
    | none =>
      simp only [firstDial, hfault, Except.ok.injEq, Dial.opened.injEq] at h
      exact ⟨[], a, rest, rfl, fun b hb => absurd hb List.not_mem_nil, hfault, h⟩
    | some f =>
      cases f with
      | os =>
        simp only [firstDial, hfault] at h
        obtain ⟨before, a', after, rfl, hbefore, ha'⟩ := ih h
        refine ⟨a :: before, a', after, rfl, fun b hb => ?_, ha'⟩
        rcases List.mem_cons.1 hb with rfl | hb
        · exact hfault
        · exact hbefore b hb
      | certificate | other => simp [firstDial, hfault] at h

/-- The client takes over the first address at which nothing goes wrong, all those before it having failed with an
`OSError`, and its descriptor is the only one left open; otherwise none is. In both cases the addresses have the
outcome that an attempt to connect has in the abstract. -/
theorem dialAddresses_refines (hwf : d.WF) (hk : d.client.cfg.transport = .socket) (resolution : Resolution) :
    wp (dialAddresses resolution)
      (fun _ d' => (∃ fd, fd ∉ d.opened ∧ d'.opened = fd :: d.opened ∧ d'.held = some fd) ∧
        (∃ before a after, resolution = .found (before ++ a :: after) ∧
          (∀ b ∈ before, b.fault d.client.cfg.tls = some .os) ∧ a.fault d.client.cfg.tls = none ∧
          d'.client.sock = some a.sock) ∧
        ∀ dial, resolution.dial d.client.cfg.tls = .ok dial → d.client.env.dial d.client.dials = dial →
          connectSocket d.client = .ok ⟨⟩ d'.client)
      (fun stop d' => d'.opened = d.opened ∧ d'.held = d.held ∧ d'.client.sock = d.client.sock ∧
        (∀ e, resolution.dial d.client.cfg.tls = .error e → d.client.sock = none → stop = .raised e) ∧
        ∀ dial, resolution.dial d.client.cfg.tls = .ok dial → d.client.env.dial d.client.dials = dial →
          connectSocket d.client = .error stop d'.client) d := by
  have hfails : ∀ dial, (∀ sk, dial ≠ .opened sk) → d.client.sock = none → d.client.env.dial d.client.dials = dial →
      connectSocket d.client = .error (dialError d.client.cfg dial) { d.client with dials := d.client.dials + 1 } := by
    intro dial hne hnone hdial
    unfold connectSocket
    rw [if_neg (by simp [hnone]), hdial]
    cases dial with
    | opened sk => exact absurd rfl (hne sk)
    | _ => rfl
  have hraised : ∀ {dial : Dial} {e : Exn}, Except.ok (ε := Exn) dial ≠ .error e := nofun
  rw [dialAddresses, wp_bind, wp_get, wp_ite]
  split
  · rename_i hsk
    refine ⟨rfl, rfl, rfl, fun e _ hnone => ?_, fun _ _ _ => if_pos hsk⟩
    rw [hnone] at hsk
    cases hsk
  rename_i hsk
  have hnone : d.client.sock = none := by simpa using hsk
  rw [wp_bind, wp_set]
  match resolution with
  | .unresolved detail =>
    refine ⟨rfl, rfl, rfl, fun e he => absurd he hraised, ?_⟩
    rintro _ ⟨⟩ hdial
    rw [hfails (.unresolved (some detail)) nofun hnone hdial]
    simp [dialError, hk]
  | .raised e =>
    refine ⟨rfl, rfl, rfl, ?_, nofun⟩
    rintro _ ⟨⟩ -
    rfl
  | .found [] =>
    refine ⟨rfl, rfl, rfl, fun e he => absurd he hraised, ?_⟩
    rintro _ ⟨⟩ hdial
    rw [hfails (.unresolved none) nofun hnone hdial]
    simp [dialError]
  | .found (a :: rest) =>
    refine wp_mono (wp_tryAddresses (a :: rest) _ hwf hk) ?_ ?_
    · rintro _ d' ⟨sk, hfirst, hclient, fd, hfd, hopened, hheld⟩
      refine ⟨⟨fd, fun hmem => absurd (hwf fd hmem) (Nat.not_lt.2 hfd), hopened, hheld⟩, ?_, fun dial hdial henv => ?_⟩
      · obtain ⟨before, a', after, hsplit, hbefore, hnofault, rfl⟩ := exists_of_firstDial hfirst
        exact ⟨before, a', after, by rw [hsplit], hbefore, hnofault, by rw [hclient]⟩
      · obtain rfl : dial = .opened sk := Except.ok.inj (hdial.symm.trans hfirst)
        unfold connectSocket
        rw [if_neg hsk, henv, hclient]
    · rintro stop d' ⟨hun, hstop⟩
      refine ⟨hun.opened, hun.held, by rw [hun.client], fun e he _ => ?_, fun dial hdial henv => ?_⟩
      · rcases hstop with ⟨dial, hfirst, -, -⟩ | ⟨e', hfirst, rfl⟩
        · exact absurd (hfirst.symm.trans he) hraised
        · rw [Except.error.inj (he.symm.trans hfirst)]
      · rcases hstop with ⟨dial', hfirst, hne, rfl⟩ | ⟨e', hfirst, -⟩
        · obtain rfl : dial = dial' := Except.ok.inj (hdial.symm.trans hfirst)
          rw [hfails _ hne hnone henv, hun.client]
        · exact absurd (hdial.symm.trans hfirst) hraised

end dialling

def quietSock : Sock := { incoming := [], peer := fun _ pending _ => .ok pending }

/-- A client whose server has a second address. -/
def dualStack : Dialer :=
  { client := { cfg := { timeout := some 5000000000 }, env := ⟨fun _ => .opened quietSock, fun _ => 0, fun _ => true⟩ }
    opened := [2], fresh := 3 }

def twoAddresses : Resolution := .found [{ connect := some .os, sock := quietSock }, { sock := quietSock }]

/-- The first address refuses the connection; its descriptor is closed again. -/
theorem dialAddresses_refines_dualStack : ∃ d', dialAddresses twoAddresses dualStack = .ok ⟨⟩ d' ∧
    d'.opened = [4, 2] ∧ connectSocket dualStack.client = .ok ⟨⟩ d'.client := by
  have hwf : dualStack.WF := by
    intro fd hfd
    obtain rfl := List.mem_singleton.1 hfd
    decide
  have hdial : twoAddresses.dial dualStack.client.cfg.tls = .ok (.opened quietSock) := rfl
  refine ⟨_, rfl, rfl, ?_⟩
  exact (wp_ok (dialAddresses_refines hwf rfl twoAddresses) rfl).2.2 _ hdial rfl

end SeedLink
