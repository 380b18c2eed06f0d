import SeedLink.Lib.OneLine
import SeedLink.Negotiation
import SeedLink.Setup

/-!
# One line per command

What is sent for a command is one command line exactly when its text has no line break
(`isCommandLine_iff`). The planners put nothing but configured texts, numbers and times into commands,
and the selection calls split what they are given at white space, except for station IDs and lists of
selectors. So a client whose names, station IDs and listed selectors have no line break sends one line per command
(`sent_commandLines`).
-/

namespace SeedLink

open StateExc Commands Text

/-! ### Lines on the wire -/

/-- At most `maxCommandLen` ASCII bytes, of which the last one or two are a line terminator and the
others are no part of one. -/
inductive IsCommandLine : Bytes → Prop
  | mk {text terminator : Bytes} (hterm : terminator = crlf ∨ terminator = cr)
      (hlen : (text ++ terminator).length ≤ maxCommandLen)
      (hline : ∀ b ∈ text, b.toNat < 128 ∧ b ≠ 13 ∧ b ≠ 10) : IsCommandLine (text ++ terminator)

/-- The text is one line, and the terminator is one. -/
structure Command.OneLine (cmd : Command) : Prop where
  terminator : cmd.terminator = crlf ∨ cmd.terminator = cr
  text : Text.OneLine cmd.text

theorem ofNat_ne_of_lt {m k : Nat} (hm : m < 128) (hk : k < 128) (h : m ≠ k) : UInt8.ofNat m ≠ UInt8.ofNat k := by
  intro heq
  have := congrArg UInt8.toNat heq
  rw [UInt8.toNat_ofNat', UInt8.toNat_ofNat'] at this
  omega

/-- A command is sent as one line if and only if its text is one. -/
theorem isCommandLine_iff {cmd : Command} {wire : Bytes} (hw : cmd.wire = .ok wire)
    (hterm : cmd.terminator = crlf ∨ cmd.terminator = cr) : IsCommandLine wire ↔ Text.OneLine cmd.text := by
  obtain ⟨_, htext, hwire, hlen⟩ := wire_eq hw
  obtain ⟨hascii, rfl⟩ := Bytes.encodeAscii_eq_some.1 htext
  constructor
  · rintro ⟨hterm', -, hline⟩
    rename_i text terminator
    have hcr : crlf = [13] ++ [10] := rfl
    have htext : text = cmd.text.map fun c => UInt8.ofNat c.toNat := by
      rcases hterm with h | h <;> rcases hterm' with rfl | rfl <;> rw [h] at hwire
      · exact List.append_cancel_right hwire
      · rw [hcr, ← List.append_assoc] at hwire
        cases (List.append_inj' hwire rfl).2
      · rw [hcr, ← List.append_assoc] at hwire
        cases (List.append_inj' hwire rfl).2
      · exact List.append_cancel_right hwire
    intro c hc
    have hb := hline (UInt8.ofNat c.toNat) (htext ▸ List.mem_map_of_mem hc)
    refine ⟨fun h => hb.2.2 ?_, fun h => hb.2.1 ?_⟩
    · rw [h]; rfl
    · rw [h]; rfl
  · intro hone
    rw [hwire] at hlen ⊢
    refine .mk hterm hlen fun b hb => ?_
    obtain ⟨c, hc, rfl⟩ := List.mem_map.1 hb
    have hlt := hascii c hc
    refine ⟨?_, ofNat_ne_of_lt hlt (by decide) (hone c hc).2, ofNat_ne_of_lt hlt (by decide) (hone c hc).1⟩
    rw [UInt8.toNat_ofNat']
    omega

/-! ### The handshake -/

def Auth.OneLine : Auth → Prop
  | .userpass username password => Text.OneLine username ∧ Text.OneLine password
  | .jwt token => Text.OneLine token

/-- What the configuration puts into commands has no line break. -/
structure Config.OneLine (cfg : Config) : Prop where
  clientname : Text.OneLine (cfg.clientname.getD [])
  clientversion : Text.OneLine (cfg.clientversion.getD [])
  clientId : Text.OneLine cfg.clientId.1 ∧ Text.OneLine cfg.clientId.2
  auth : ∀ a, cfg.auth = some a → a.OneLine

section handshake
variable {cfg : Config}

theorem oneLine_useragent (h : cfg.OneLine) :
    (useragent cfg.clientname cfg.clientversion cfg.clientId).OneLine := by
  refine ⟨.inl rfl, oneLine_append.2 ⟨by decide, oneLine_intercalate (by decide) ?_⟩⟩
  simp only [List.mem_cons, List.not_mem_nil, or_false, forall_eq_or_imp, forall_eq]
  refine ⟨?_, by decide⟩
  split
  · split
    · exact oneLine_append.2 ⟨h.clientname, oneLine_cons.2 ⟨by decide, h.clientversion⟩⟩
    · exact h.clientname
  · exact oneLine_append.2 ⟨h.clientId.1, oneLine_cons.2 ⟨by decide, h.clientId.2⟩⟩

theorem oneLine_authCommands (h : cfg.OneLine) {cmds : List Command} (hcmds : authCommands cfg.auth = .ok cmds) :
    ∀ cmd ∈ cmds, cmd.OneLine := by
  cases ha : cfg.auth with
  | none => rw [ha] at hcmds; cases hcmds; simp
  | some a =>
    have hone := h.auth a ha
    rw [ha] at hcmds
    cases a with
    | jwt token =>
      cases hcmds
      simp only [List.mem_singleton, forall_eq]
      exact ⟨.inl rfl, oneLine_append.2 ⟨by decide, hone⟩⟩
    | userpass username password =>
      obtain ⟨cmd, hcmd, hrest⟩ := exists_of_bind_ok hcmds
      cases hrest
      unfold authUserpass at hcmd
      split at hcmd <;> cases hcmd
      simp only [List.mem_singleton, forall_eq]
      exact ⟨.inl rfl, oneLine_append.2 ⟨oneLine_append.2 ⟨by decide, hone.1⟩, oneLine_cons.2 ⟨by decide, hone.2⟩⟩⟩

theorem oneLine_planHandshake {protocol : Option Protocol} {caps : Capabilities} (h : cfg.OneLine)
    {cmds : List Command} (hcmds : planHandshake protocol caps cfg.clientname cfg.clientversion cfg.clientId
      cfg.auth cfg.wantBatch = .ok cmds) : ∀ cmd ∈ cmds, cmd.OneLine := by
  have hbatch : ∀ cmd ∈ (if protocol = some .v3 && cfg.wantBatch then [batch] else []), cmd.OneLine := by
    intro cmd hmem
    split at hmem
    · obtain rfl := List.mem_singleton.1 hmem
      exact ⟨.inl rfl, by decide⟩
    · cases hmem
  unfold planHandshake at hcmds
  simp only at hcmds
  split at hcmds
  · obtain ⟨auth, hauth, hrest⟩ := exists_of_bind_ok hcmds
    cases hrest
    intro cmd hmem
    rcases List.mem_append.1 hmem with hmem | hmem
    · rcases List.mem_cons.1 hmem with rfl | hmem
      · exact ⟨.inl rfl, by decide⟩
      rcases List.mem_cons.1 hmem with rfl | hmem
      · exact oneLine_useragent h
      · exact oneLine_authCommands h hauth cmd hmem
    · exact hbatch cmd hmem
  · cases hcmds
    intro cmd hmem
    rcases List.mem_append.1 hmem with hmem | hmem
    · split at hmem
      · obtain rfl := List.mem_singleton.1 hmem
        exact ⟨.inl rfl, by decide⟩
      · cases hmem
    · exact hbatch cmd hmem

end handshake

/-! ### Times -/

theorem oneLine_padded {width n : Nat} : Text.OneLine (padded width n) := by
  refine oneLine_append.2 ⟨fun c hc => ?_, oneLine_numeral⟩
  obtain rfl := List.eq_of_mem_replicate hc
  decide

theorem oneLine_toIsoTimestring {dt : DateTime} {t : Text} (h : toIsoTimestring dt = .ok t) : Text.OneLine t := by
  obtain ⟨dt', -, h⟩ := exists_of_bind_ok h
  cases h
  split <;> simp [oneLine_padded, oneLine_numeral]

theorem oneLine_toCommaTimestring {dt : DateTime} {t : Text} (h : toCommaTimestring dt = .ok t) :
    Text.OneLine t := by
  obtain ⟨dt', -, h⟩ := exists_of_bind_ok h
  cases h
  refine oneLine_intercalate (by decide) fun p hp => ?_
  obtain ⟨n, -, rfl⟩ := List.mem_map.1 hp
  exact oneLine_numeral

/-! ### Selectors -/

theorem oneLine_v3ToV4Selector [Unicode] {sel sel' : Text} (h : Text.OneLine sel)
    (hsel : v3ToV4Selector sel = some sel') : Text.OneLine sel' := by
  have hdrop : Text.OneLine (sel.dropWhile (· = '-')) := h.subset (List.dropWhile_subset _)
  obtain ⟨hid, hrest⟩ := hdrop.partition '.'
  unfold v3ToV4Selector at hsel
  simp only at hsel
  generalize hp : Text.partition '.' (sel.dropWhile (· = '-')) = p at hsel hid hrest
  obtain ⟨streamid, sep, rest⟩ := p
  have hsuffix : Text.OneLine (if sep = true then '.' :: rest else []) := by
    split
    · exact oneLine_cons.2 ⟨by decide, hrest⟩
    · exact oneLine_nil
  simp only at hsel
  split at hsel
  · cases hsel
  split at hsel
  · cases hsel
    simp only [oneLine_cons] at hid
    split <;> simp [hid, hsuffix]
  · cases hsel
    simp only [oneLine_cons] at hid
    simp [hid, hsuffix]
  · cases hsel
    simp only [oneLine_cons] at hid
    simp [hid, hsuffix]
  · cases hsel

theorem oneLine_v4ToV3Selector {sel sel' : Text} (h : Text.OneLine sel)
    (hsel : v4ToV3Selector sel = some sel') : Text.OneLine sel' := by
  obtain ⟨hid, hrest⟩ := h.partition '.'
  unfold v4ToV3Selector at hsel
  simp only at hsel
  generalize hp : Text.partition '.' sel = p at hsel hid hrest
  obtain ⟨streamid, sep, rest⟩ := p
  have hsuffix : Text.OneLine (if sep = true then '.' :: rest else []) := by
    split
    · exact oneLine_cons.2 ⟨by decide, hrest⟩
    · exact oneLine_nil
  have hparts : ∀ part ∈ streamid.splitOn '_', Text.OneLine part := fun part hpart => hid.splitOn hpart
  have hstar : Text.OneLine "*".toList := by decide
  have hdash : Text.OneLine "--".toList := by decide
  simp only at hsel
  split at hsel
  · rename_i location band source subsource heq
    rw [heq] at hparts
    simp only [List.mem_cons, List.not_mem_nil, or_false, forall_eq_or_imp, forall_eq] at hparts
    split at hsel
    · cases hsel
    split at hsel
    · cases hsel; simp [hparts, hsuffix]
    split at hsel
    · cases hsel; simp [hparts, hsuffix]
    · cases hsel; simp [hparts, hsuffix]
  · rename_i band source subsource heq
    rw [heq] at hparts
    simp only [List.mem_cons, List.not_mem_nil, or_false, forall_eq_or_imp, forall_eq] at hparts
    split at hsel
    · cases hsel
    split at hsel
    · cases hsel; simp [hparts, hsuffix]
    split at hsel
    · cases hsel; simp [hparts, hsuffix]
    · cases hsel; simp [hparts, hsuffix]
  · cases hsel

theorem oneLine_wireSelector [Unicode] {protocol : Option Protocol} {sel : Text} (h : Text.OneLine sel) :
    Text.OneLine (wireSelector protocol sel) := by
  unfold wireSelector
  split
  · cases hsel : v3ToV4Selector sel with
    | none => exact h
    | some sel' => exact oneLine_v3ToV4Selector h hsel
  · cases hsel : v4ToV3Selector sel with
    | none => exact h
    | some sel' => exact oneLine_v4ToV3Selector h hsel

/-! ### Plans -/

/-- What the stream puts into commands has no line break. -/
structure Stream.OneLine (s : Stream) : Prop where
  stationId : Text.OneLine s.stationId
  selectors : ∀ sel ∈ s.selectors, Text.OneLine sel

theorem Stream.OneLine.congr {s s' : Stream} (h : s.OneLine) (hid : s'.stationId = s.stationId)
    (hsel : s'.selectors = s.selectors) : s'.OneLine := ⟨hid ▸ h.stationId, hsel ▸ h.selectors⟩

theorem oneLine_windowWords {start stop : Option DateTime} {words : List Text}
    (h : windowWords start stop = .ok words) : ∀ w ∈ words, Text.OneLine w := by
  unfold windowWords at h
  split at h
  · cases h; simp
  obtain ⟨w, hw, h⟩ := exists_of_bind_ok h
  split at h
  · cases h
    simpa using oneLine_toIsoTimestring hw
  obtain ⟨w', hw', h⟩ := exists_of_bind_ok h
  cases h
  simpa using ⟨oneLine_toIsoTimestring hw, oneLine_toIsoTimestring hw'⟩

theorem oneLine_dataV4 {stationId : Text} {seqnum : Option Int} {allData : Bool} {start stop : Option DateTime}
    {data : Command} (h : dataV4 stationId seqnum allData start stop = .ok data) : data.OneLine := by
  obtain ⟨position, window, hwin, hpos, rfl⟩ := exists_of_dataV4_ok h
  refine ⟨.inr rfl, oneLine_intercalate (by decide) fun w hw => ?_⟩
  rcases List.mem_append.1 hw with hw | hw
  · rcases List.mem_cons.1 hw with rfl | hw
    · decide
    rcases hpos with ⟨-, rfl⟩ | ⟨n, -, rfl⟩
    · split at hw
      · obtain rfl := List.mem_singleton.1 hw
        decide
      · cases hw
    · obtain rfl := List.mem_singleton.1 hw
      exact oneLine_intNumeral
  · exact oneLine_windowWords hwin w hw

section plans
variable [Externals] {args : NegotiationArgs} {s : Stream}

theorem oneLine_planStreamV4 (hs : s.OneLine) {cmds : List Command} (h : planStreamV4 args s = .ok cmds) :
    ∀ cmd ∈ cmds, cmd.OneLine := by
  unfold planStreamV4 at h
  obtain ⟨data, hdata, h⟩ := exists_of_bind_ok h
  cases h
  simp only [List.cons_append, List.mem_cons, List.mem_append, List.mem_map, List.not_mem_nil, or_false]
  rintro cmd (rfl | ⟨sel, hsel, rfl⟩ | rfl)
  · exact ⟨.inr rfl, oneLine_append.2 ⟨by decide, hs.stationId⟩⟩
  · exact ⟨.inr rfl, oneLine_append.2 ⟨by decide, oneLine_wireSelector (hs.selectors sel hsel)⟩⟩
  · exact oneLine_dataV4 hdata

theorem oneLine_selectsV3 (hs : s.OneLine) : ∀ cmd ∈ selectsV3 args s, cmd.OneLine := by
  intro cmd hmem
  obtain ⟨sel, hsel, rfl⟩ := List.mem_map.1 hmem
  exact ⟨.inl rfl, oneLine_append.2 ⟨by decide, oneLine_wireSelector (hs.selectors sel hsel)⟩⟩

theorem oneLine_resumeTimestamp {seqnum : Option Int} {t : Text}
    (h : (resumeTimestamp args seqnum s).1 = .ok (some t)) : Text.OneLine t := by
  unfold resumeTimestamp at h
  simp only at h
  split at h
  · split at h
    · split at h
      · rename_i heq
        cases h
        obtain ⟨dt, -, hdt⟩ := exists_of_bind_ok heq
        exact oneLine_toCommaTimestring hdt
      · split at h <;> cases h
    · cases h
  · cases h

omit [Externals] in
/-- An optional word behind a blank. -/
theorem oneLine_optional {t : Option Text} (h : ∀ w, t = some w → Text.OneLine w) :
    Text.OneLine (if truthy t then ' ' :: t.getD [] else []) := by
  split
  · cases t with
    | none => decide
    | some w => exact oneLine_cons.2 ⟨by decide, h w rfl⟩
  · exact oneLine_nil

theorem oneLine_requestV3 {startStr endStr : Option Text} (hstart : ∀ w, startStr = some w → Text.OneLine w)
    (hend : ∀ w, endStr = some w → Text.OneLine w) {expectReply : Bool} {cmd : Command}
    (h : (requestV3 args startStr endStr expectReply s).1 = .ok cmd) : cmd.OneLine := by
  have hname : Text.OneLine args.cmdName := by
    unfold NegotiationArgs.cmdName
    split <;> decide
  unfold requestV3 at h
  split at h
  · cases h
    exact ⟨.inl rfl, oneLine_append.2 ⟨oneLine_append.2 ⟨by decide, hstart _ rfl⟩, oneLine_optional hend⟩⟩
  · simp only at h
    split at h
    · rename_i timestamp s' hts
      cases h
      refine ⟨.inl rfl, ?_⟩
      have hword : ∀ w, timestamp = some w → Text.OneLine w := by
        rintro w rfl
        exact oneLine_resumeTimestamp (congrArg Prod.fst hts)
      show Text.OneLine (dataV3Text args.cmdName (args.resumeSeqnum s) timestamp)
      unfold dataV3Text
      split
      · exact oneLine_append.2 ⟨oneLine_append.2 ⟨hname, oneLine_cons.2 ⟨by decide, oneLine_intNumeral⟩⟩,
          oneLine_optional hword⟩
      · exact hname
    · cases h

omit [Externals] in
theorem oneLine_stationV3 (hs : s.OneLine) (expectReply : Bool) : (stationV3 s.stationId expectReply).OneLine := by
  obtain ⟨hnet, hsta⟩ := hs.stationId.partition '_'
  refine ⟨.inl rfl, ?_⟩
  show Text.OneLine ("STATION ".toList ++ _ ++ ' ' :: _)
  exact oneLine_append.2 ⟨oneLine_append.2 ⟨by decide, hsta⟩, oneLine_cons.2 ⟨by decide, hnet⟩⟩

/-- Every command planned for such streams is one line. -/
theorem oneLine_planNegotiation {streams : List Stream} (hs : ∀ s ∈ streams, s.OneLine) {plan : List Command}
    (h : (planNegotiation args streams).1 = .ok plan) : ∀ cmd ∈ plan, cmd.OneLine := by
  have htime : ∀ {time : Option DateTime} {word : Option Text}, time.mapM toCommaTimestring = .ok word →
      ∀ w, word = some w → Text.OneLine w := by
    rintro time word htime w rfl
    cases time with
    | none => cases htime
    | some dt =>
      obtain ⟨w', hw', htime⟩ := exists_of_bind_ok htime
      cases htime
      exact oneLine_toCommaTimestring hw'
  have hend : ∀ cmd : Command, cmd = endV3 ∨ cmd = endV4 args.dialup → cmd.OneLine := by
    rintro cmd (rfl | rfl)
    · exact ⟨.inl rfl, by decide⟩
    · refine ⟨.inl rfl, ?_⟩
      show Text.OneLine (if args.dialup = true then _ else _)
      split <;> decide
  unfold planNegotiation at h
  split at h
  · cases h
  · cases h
  rename_i startStr endStr hstart hstop
  split at h
  · obtain ⟨cmds, hcmds, rfl⟩ := exists_of_map_ok h
    intro cmd hmem
    rcases List.mem_append.1 hmem with hmem | hmem
    · exact forall_planStreams (fun s hmem cmds hcmds => oneLine_planStreamV4 (hs s hmem) hcmds) hcmds cmd hmem
    · exact hend cmd (.inr (List.mem_singleton.1 hmem))
  unfold planNegotiationV3 at h
  split at h
  · obtain ⟨cmds, hcmds, rfl⟩ := exists_of_map_ok h
    intro cmd hmem
    rcases List.mem_append.1 hmem with hmem | hmem
    · refine forall_planStreams (fun s hmem cmds hcmds => ?_) hcmds cmd hmem
      obtain ⟨data, hdata, rfl⟩ := exists_of_map_ok hcmds
      intro cmd hmem'
      rcases List.mem_append.1 hmem' with hmem' | hmem'
      · rcases List.mem_cons.1 hmem' with rfl | hmem'
        · exact oneLine_stationV3 (hs s hmem) _
        · exact oneLine_selectsV3 (hs s hmem) cmd hmem'
      · obtain rfl := List.mem_singleton.1 hmem'
        exact oneLine_requestV3 (htime hstart) (htime hstop) hdata
    · exact hend cmd (.inl (List.mem_singleton.1 hmem))
  · split at h
    · rename_i s
      obtain ⟨data, hdata, rfl⟩ := exists_of_map_ok h
      intro cmd hmem
      rcases List.mem_append.1 hmem with hmem | hmem
      · exact oneLine_selectsV3 (hs s List.mem_cons_self) cmd hmem
      · obtain rfl := List.mem_singleton.1 hmem
        exact oneLine_requestV3 (htime hstart) (htime hstop) hdata
    · cases h

end plans

/-! ### What a client sends -/

/-- What the client puts into commands has no line break. -/
structure Client.OneLine (c : Client) : Prop where
  cfg : c.cfg.OneLine
  streams : ∀ s ∈ c.base.streams, s.OneLine

/-- A client that puts one line into each command stays so, and what it sends are command lines. -/
def Client.Lined (c c' : Client) : Prop :=
  c.OneLine → c'.OneLine ∧ ∀ wire ∈ c'.sent, wire ∈ c.sent ∨ IsCommandLine wire

instance : IsPreorder Client Client.Lined where
  refl _ h := ⟨h, fun _ hmem => .inl hmem⟩
  trans _ _ _ h h' h₀ := by
    obtain ⟨h₁, hs₁⟩ := h h₀
    obtain ⟨h₂, hs₂⟩ := h' h₁
    exact ⟨h₂, fun wire hmem => (hs₂ wire hmem).elim (hs₁ wire) .inr⟩

theorem lined_of_same {c c' : Client} (hcfg : c'.cfg = c.cfg) (hbase : c'.base = c.base)
    (hsent : c'.sent = c.sent) : c.Lined c' := fun h =>
  ⟨⟨hcfg ▸ h.cfg, hbase ▸ h.streams⟩, fun _ hmem => .inl (hsent ▸ hmem)⟩

theorem reads_lined : Reads Client.Lined where
  ensure n := by
    refine keeps_ensure fun c c' h => ?_
    cases h <;> exact lined_of_same rfl rfl rfl
  close _ := lined_of_same rfl rfl rfl
  rb _ _ _ := lined_of_same rfl rfl rfl
  polls _ _ := lined_of_same rfl rfl rfl

theorem lined_sendCommand {cmd : Command} (hcmd : cmd.OneLine) : Keeps Client.Lined (sendCommand cmd) := by
  intro c
  refine wp_sendCommand (fun _ => refl c) (fun _ _ _ => refl c) (fun _ _ => lined_of_same rfl rfl rfl)
    fun wire c' hw hs => ?_
  have hsends : c.Lined c' := by
    obtain ⟨sk, incoming, -, -, rfl⟩ := hs
    intro h
    refine ⟨⟨h.cfg, h.streams⟩, fun wire' hmem => ?_⟩
    rcases List.mem_append.1 hmem with hmem | hmem
    · exact .inl hmem
    · obtain rfl := List.mem_singleton.1 hmem
      exact .inr ((isCommandLine_iff hw hcmd.terminator).2 hcmd.text)
  exact wp_mono (reads_lined.reading.awaitReply cmd.parse c') (fun _ _ h => IsTrans.trans _ _ _ hsends h)
    fun _ _ h => IsTrans.trans _ _ _ hsends h

theorem speaks_lined : Speaks Command.OneLine Client.Lined where
  toReading := reads_lined.reading
  sendCommand _ := lined_sendCommand
  connectSocket := keeps_connectSocket (fun c => refl c) (fun _ _ => lined_of_same rfl rfl rfl)
    fun _ => lined_of_same rfl rfl rfl
  rest _ _ hcfg _ hbase _ _ hsent := lined_of_same hcfg hbase hsent

/-- It is enough to look at clients that put one line into each command. -/
theorem keeps_lined {α : Type} {x : ClientM α}
    (h : ∀ c : Client, c.OneLine → wp x (fun _ => c.Lined) (fun _ => c.Lined) c) : Keeps Client.Lined x := by
  intro c
  by_cases hc : c.OneLine
  · exact h c hc
  · unfold wp
    split <;> exact fun h => absurd h hc

theorem lined_connect (handshake : Bool) : Keeps Client.Lined (connect handshake) := by
  refine speaks_lined.connect (speaks_lined.doHandshake ⟨.inl rfl, by decide⟩ (keeps_lined fun c hc => ?_))
  rw [wp_bind, wp_get, wp_bind, wp_liftExcept]
  cases hplan : handshakePlan c with
  | error e => exact lined_of_same rfl rfl rfl
  | ok cmds => exact speaks_lined.sendHandshake cmds (oneLine_planHandshake hc.cfg hplan) c

section streams
variable {b : Base}

theorem oneLine_applyRecoveredState {recovered : RecoveredState} {s : Stream} (h : s.OneLine) :
    (Base.applyRecoveredState recovered s).OneLine := by
  unfold Base.applyRecoveredState
  split
  · exact h.congr rfl rfl
  · exact h

theorem oneLine_ensureDefaultStream (h : ∀ s ∈ b.streams, s.OneLine) : ∀ s ∈ b.ensureDefaultStream.streams, s.OneLine := by
  rw [Base.ensureDefaultStream_streams]
  split
  · intro s hs
    obtain rfl := List.mem_singleton.1 hs
    exact oneLine_applyRecoveredState ⟨by decide, by simp⟩
  · exact h

theorem oneLine_resolves [Pymseed] {l l' : List Stream} (hr : List.Forall₂ Resolves l l')
    (h : ∀ s ∈ l, s.OneLine) : ∀ s ∈ l', s.OneLine := by
  intro s hs
  obtain ⟨s₀, hs₀, hr⟩ : ∃ s₀ ∈ l, Resolves s₀ s := exists_of_forall₂ hr.flip hs
  exact (h s₀ hs₀).congr hr.stationId hr.selectors

theorem oneLine_updateStreamState (pkt : SeedLinkPacket) (h : ∀ s ∈ b.streams, s.OneLine) :
    ∀ s ∈ (b.updateStreamState pkt).streams, s.OneLine := by
  unfold Base.updateStreamState
  split
  · exact h
  · rw [← @Base.streamsMatching_streams b pkt.stationId] at h
    intro s hs
    obtain ⟨i, hi, rfl⟩ := List.mem_mapIdx.1 hs
    have hold := h _ (List.getElem_mem hi)
    split
    · exact hold.congr rfl rfl
    · exact hold

end streams

section client
variable [Externals]

theorem lined_negotiate : Keeps Client.Lined negotiate := by
  refine speaks_lined.timeoutScope (keeps_lined fun c hc => ?_)
  have hdefault := oneLine_ensureDefaultStream (b := { c.base with matchCache := ∅ }) hc.streams
  have hprep : c.Lined { c with base := c.prepared.2 } := fun _ =>
    ⟨⟨hc.cfg, oneLine_resolves Base.resolves_prepareNegotiation (oneLine_ensureDefaultStream hc.streams)⟩,
      fun _ hmem => .inl hmem⟩
  simp only [negotiateInner, wp_bind, wp_get, wp_set, wp_liftExcept]
  cases hplan : (c.base.prepareNegotiation c.negotiationArgs).1 with
  | error e => exact hprep
  | ok plan =>
    have hcmds : ∀ cmd ∈ plan, cmd.OneLine := by
      refine oneLine_planNegotiation (fun s hs => ?_) hplan
      obtain ⟨⟨s, i⟩, hmem, rfl⟩ := List.mem_map.1 hs
      exact hdefault s (List.mem_of_getElem? (Base.mem_sendOrder.1 hmem))
    refine wp_mono (speaks_lined.runPlan hcmds _) (fun _ c' h => ?_) fun _ c' h => IsTrans.trans _ _ _ hprep h
    exact IsTrans.trans _ _ _ hprep (IsTrans.trans _ _ _ h (lined_of_same rfl rfl rfl))

theorem lined_collectStep (reconnect : Bool) (g : Collect) : Keeps Client.Lined (collectStep reconnect g) := by
  refine speaks_lined.collectStep ⟨.inl rfl, by decide⟩ (lined_connect true) lined_negotiate (fun c pkt h => ?_)
    reconnect g
  exact ⟨⟨h.cfg, oneLine_updateStreamState pkt h.streams⟩, fun _ hmem => .inl hmem⟩

end client

/-! ### Uses of a client -/

/-- A list of selectors has no line break in it; a string is split at them. -/
def Base.Selectors.OneLine : Option Base.Selectors → Prop
  | some (.list l) => ∀ sel ∈ l, Text.OneLine sel
  | _ => True

/-- The station IDs and the listed selectors of the call have no line break. -/
def Op.OneLine : Op → Prop
  | addStream stationId selectors .. => Text.OneLine stationId ∧ Base.Selectors.OneLine selectors
  | addStreamlist text defaultSelectors => ∀ s ∈ parseStreamlist text defaultSelectors, Text.OneLine s.stationId
  | setAllStations selectors .. => Base.Selectors.OneLine selectors
  | _ => True

theorem oneLine_defaultSelectorList {d : Option Text} : ∀ sel ∈ defaultSelectorList d, Text.OneLine sel := by
  cases d with
  | none => simp [defaultSelectorList]
  | some d => exact fun sel hsel => oneLine_of_mem_splitWords hsel

theorem Op.OneLine.configures {o : Op} (h : o.OneLine) : ∀ s ∈ o.configures, s.OneLine := by
  have hselectors : ∀ selectors, Base.Selectors.OneLine selectors →
      ∀ sel ∈ Base.Selectors.toList selectors, Text.OneLine sel := by
    rintro (_ | t | l) hsel sel hmem
    · cases hmem
    · exact oneLine_of_mem_splitWords hmem
    · exact hsel sel hmem
  have hstar : Text.OneLine ['*'] := by decide
  intro s hs
  cases o with
  | addStream stationId selectors seqnum allData timestamp =>
    obtain rfl := List.mem_singleton.1 hs
    exact ⟨h.1, hselectors _ h.2⟩
  | setAllStations selectors seqnum allData timestamp =>
    obtain rfl := List.mem_singleton.1 hs
    exact ⟨hstar, hselectors _ h⟩
  | negotiate =>
    obtain rfl := List.mem_singleton.1 hs
    exact ⟨hstar, by simp⟩
  | packet pkt => cases hs
  | addStreamlist text d =>
    refine ⟨h s hs, ?_⟩
    obtain ⟨entry, -, he⟩ := List.mem_filterMap.1 hs
    unfold parseStreamlistEntry at he
    simp only at he
    split at he <;> cases he
    simp only
    split
    · exact fun sel hsel => oneLine_of_mem_splitWords hsel
    · exact oneLine_defaultSelectorList
  | addStreamlistFile file d =>
    cases file with
    | error e => cases hs
    | ok content =>
      obtain ⟨line, -, hl⟩ := List.mem_filterMap.1 hs
      unfold readStreamlistLine at hl
      simp only at hl
      split at hl
      · cases hl
      · rename_i heq
        cases hl
        exact ⟨oneLine_of_splitWord1 heq, oneLine_defaultSelectorList⟩
      · rename_i heq
        cases hl
        exact ⟨oneLine_of_splitWord1 heq, fun sel hsel => oneLine_of_mem_splitWords hsel⟩

theorem after_onBase {x : BaseM Unit} {c : Client} : ∃ b, c.behind (onBase x) = { c with base := b } := by
  unfold Client.behind onBase
  cases x c.base <;> exact ⟨_, rfl⟩

section uses
variable [Externals]

/-- What a program does with a client. -/
inductive Use
  | call (call : Call)
  | connect (handshake : Bool)
  | info (level : Text)
  | collect (reconnect : Bool) (g : Collect)
  | close

namespace Use

/-- The client after one use, which may have failed. -/
def after (c : Client) : Use → Client
  | call k => Call.after c k
  | connect handshake => c.behind (SeedLink.connect handshake)
  | info level => c.behind (Client.info level)
  | collect reconnect g => c.behind (collectStep reconnect g)
  | close => c.closed

def runAll (uses : List Use) (c : Client) : Client := uses.foldl after c

def OneLine : Use → Prop
  | call (.op o) => o.OneLine
  | info level => Text.OneLine level
  | _ => True

end Use

theorem call_after_eq (c : Client) (k : Call) : Call.after c k = c.behind k.run := by
  unfold Call.after Client.behind
  cases k.run c <;> rfl

theorem lined_call {call : Call} (h : (Use.call call).OneLine) (c : Client) : c.Lined (Call.after c call) := by
  have hbase : ∀ {x : BaseM Unit}, call.run = onBase x → ∃ b, Call.after c call = { c with base := b } := by
    intro x hx
    rw [call_after_eq, hx]
    exact after_onBase
  have hlined : ∀ c' : Client, (∃ b, c' = { c with base := b }) →
      ((∀ s ∈ c.base.streams, s.OneLine) → ∀ s ∈ c'.base.streams, s.OneLine) → c.Lined c' := by
    rintro _ ⟨b, rfl⟩ hb hc
    exact ⟨⟨hc.cfg, hb hc.streams⟩, fun _ hmem => .inl hmem⟩
  cases call with
  | recoverState file =>
    refine hlined _ (hbase rfl) fun hc => ?_
    rcases base_recover file c with ⟨e, -, hrun⟩ | ⟨content, -, hb⟩
    · simpa only [Call.after, hrun] using hc
    · rw [hb]
      intro s hs
      obtain ⟨s', hs', rfl⟩ := List.mem_map.1 hs
      exact oneLine_applyRecoveredState (hc s' hs')
  | saveState faults =>
    refine hlined _ (hbase rfl) fun hc => ?_
    rw [base_save]
    exact oneLine_resolves (resolves_saveState _) hc
  | setTimewindow start stop =>
    refine hlined _ (hbase rfl) fun hc => ?_
    obtain ⟨startTime, endTime, hb⟩ := base_window start stop c
    rw [hb]
    exact hc
  | op o =>
    by_cases ho : o.IsSetup
    · rcases run_setup ho c with ⟨hacc, hrun⟩ | ⟨-, e, hrun⟩
      · have hafter : Call.after c (.op o) = { c with base := o.added c.base } := by
          simp only [Call.after, Call.run, hrun]
        rw [hafter]
        refine hlined _ ⟨_, rfl⟩ fun hc s hs => ?_
        rw [Op.streams_added ho hacc] at hs
        rcases List.mem_append.1 hs with hs | hs
        · exact hc s hs
        · obtain ⟨s', hs', rfl⟩ := List.mem_map.1 hs
          exact oneLine_applyRecoveredState (Op.OneLine.configures h s' hs')
      · have hafter : Call.after c (.op o) = c := by
          simp only [Call.after, Call.run, hrun]
        rw [hafter]
        exact refl c
    · cases o with
      | negotiate =>
        rw [call_after_eq]
        exact behind_of_wp (lined_negotiate c)
      | packet pkt => exact hlined _ ⟨_, rfl⟩ fun hc => oneLine_updateStreamState pkt hc
      | _ => exact absurd trivial ho

/-- The step lemma. -/
theorem lined_after {u : Use} (h : u.OneLine) (c : Client) : c.Lined (u.after c) := by
  cases u with
  | call call => exact lined_call h c
  | connect handshake => exact behind_of_wp (lined_connect handshake c)
  | info level =>
    exact behind_of_wp (speaks_lined.info ⟨.inl rfl, oneLine_append.2 ⟨by decide, h⟩⟩ c)
  | collect reconnect g => exact behind_of_wp (lined_collectStep reconnect g c)
  | close => exact lined_of_same rfl rfl rfl

/-- A client whose names, station IDs, listed selectors and INFO levels have no line break sends one line
per command, whatever is done with it. -/
theorem sent_commandLines {c₀ : Client} (hcfg : c₀.cfg.OneLine) (hnew : c₀.base.streams = [])
    (hsent : c₀.sent = []) {uses : List Use} (h : ∀ u ∈ uses, u.OneLine) :
    ∀ wire ∈ (Use.runAll uses c₀).sent, IsCommandLine wire := by
  have hrun : c₀.Lined (Use.runAll uses c₀) := by
    induction uses using List.reverseRecOn with
    | nil => exact refl c₀
    | append_singleton uses u ih =>
      have hstep := lined_after (h u (by simp)) (Use.runAll uses c₀)
      rw [Use.runAll, List.foldl_append]
      exact IsTrans.trans _ _ _ (ih fun u hu => h u (List.mem_append_left _ hu)) hstep
  obtain ⟨-, hlines⟩ := hrun ⟨hcfg, by rw [hnew]; simp⟩
  intro wire hmem
  rcases hlines wire hmem with hold | hline
  · rw [hsent] at hold
    cases hold
  · exact hline

end uses

def addThenNegotiate (stationId : Text) : List Use :=
  [.call (.op (.addStream stationId (some (.text "BH? LH?".toList)) none false none)), .call (.op .negotiate)]

theorem sent_commandLines_station :
    let c := @Use.runAll Externals.bare (addThenNegotiate "XX_ABC".toList) (.listening .v4 [])
    c.sent = [Bytes.lit "STATION XX_ABC" ++ cr] ∧ ∀ wire ∈ c.sent, IsCommandLine wire := by
  have hlines : ∀ u ∈ addThenNegotiate "XX_ABC".toList, u.OneLine := by
    intro u hu
    simp only [addThenNegotiate, List.mem_cons, List.not_mem_nil, or_false] at hu
    rcases hu with rfl | rfl
    · exact ⟨by decide, trivial⟩
    · trivial
  refine ⟨by decide +kernel, @sent_commandLines Externals.bare (.listening .v4 []) ⟨?_, ?_, ?_, nofun⟩ rfl rfl _ hlines⟩
  · decide
  · decide
  · exact ⟨by decide, by decide⟩

/-- A line break in a station ID ends the line early. -/
theorem sent_station_lineBreak :
    ¬ ∀ (c₀ : Client) (uses : List Use), c₀.base.streams = [] → c₀.sent = [] →
      ∀ wire ∈ (@Use.runAll Externals.bare uses c₀).sent, IsCommandLine wire := by
  intro h
  set bye : Text := "XX_ABC".toList ++ [Char.ofNat 13, Char.ofNat 10] ++ "BYE".toList with hbye
  have hwire : (stationV4 bye).wire = .ok (Bytes.lit "STATION XX_ABC" ++ crlf ++ Bytes.lit "BYE" ++ cr) := by
    decide +kernel
  have hline := h (.listening .v4 []) (addThenNegotiate bye) rfl rfl _ (by
    show Bytes.lit "STATION XX_ABC" ++ crlf ++ Bytes.lit "BYE" ++ cr ∈ _
    decide +kernel)
  exact absurd ((isCommandLine_iff hwire (.inr rfl)).1 hline) (by decide)

end SeedLink
