import SeedLink.Plans
import SeedLink.Exchange

/-!
# Driving a plan

`negotiate` sends its plan through a walk that skips the commands of a rejected station. A run is
told by its log: the commands sent, each with the reply line read for it (`Conversation`). In v3
multi-station mode the log of a finished run is `StationsLog`; in v4 mode it is the whole plan, every
reply OK. A run that ends early ends in one `sendCommand`, behind an initial part of such a log: its command
is refused, cannot be sent or is not answered (`Unserved`), or is rejected in v4 mode.
-/

namespace SeedLink

open StateExc Client Commands

/-! ### Conversations -/

abbrev Log := List (Command × Option Text)

/-- Commands without replies. -/
def unanswered (cmds : List Command) : Log := cmds.map fun cmd => (cmd, none)

@[simp] theorem map_fst_unanswered (cmds : List Command) : (unanswered cmds).map Prod.fst = cmds := by
  rw [unanswered, List.map_map]
  exact List.map_id cmds

/-- The command is sent from `c` and, where it has a reply, one line is read and accepted. -/
inductive Exchanges (c : Client) (cmd : Command) : Option Text → Client → Prop
  | silent {wire : Bytes} {c' : Client} (hp : cmd.parse = none) (hw : cmd.wire = .ok wire)
      (hs : c.Sends wire c') : Exchanges c cmd none c'
  | replied {parser : ReplyParser} {wire : Bytes} {line : Text} {resp : SeedLinkResponse}
      {c₁ c' : Client} (hp : cmd.parse = some parser) (hw : cmd.wire = .ok wire)
      (hs : c.Sends wire c₁) (hread : readLine c₁ = .ok line c') (hok : parser.run line = .ok resp) :
      Exchanges c cmd (some line) c'

inductive Conversation : Client → Log → Client → Prop
  | nil {c : Client} : Conversation c [] c
  | cons {c c₁ c' : Client} {cmd : Command} {r : Option Text} {log : Log}
      (h : Exchanges c cmd r c₁) (hrest : Conversation c₁ log c') : Conversation c ((cmd, r) :: log) c'

theorem parseReply_of_run {parser : ReplyParser} {line : Text} {resp : SeedLinkResponse}
    (h : parser.run line = .ok resp) : resp = parseReply line := by
  cases parser with
  | parseReply => cases h; rfl
  | expectOk =>
    simp only [ReplyParser.run, expectOk] at h
    split at h <;> cases h
    rfl
  | expectAuthOk =>
    simp only [ReplyParser.run, expectAuthOk] at h
    split at h <;> cases h
    rfl

section exchange
variable {c c' : Client} {cmd : Command} {r : Option Text}

theorem Exchanges.isSome (h : Exchanges c cmd r c') : r.isSome = cmd.parse.isSome := by
  cases h with
  | silent hp => rw [hp]; rfl
  | replied hp => rw [hp]; rfl

/-- `sendCommand` either has such an exchange and gives its parsed reply, or ends the run. -/
theorem sendCommand_cases (c : Client) (cmd : Command) :
    (∃ r c', Exchanges c cmd r c' ∧ sendCommand cmd c = .ok (r.map parseReply) c') ∨
      ∃ stop c', sendCommand cmd c = .error stop c' := by
  have h : wp (sendCommand cmd) (fun resp c' => ∃ r, Exchanges c cmd r c' ∧ resp = r.map parseReply)
      (fun _ _ => True) c := by
    refine wp_sendCommand (fun _ => trivial) (fun _ _ _ => trivial) (fun _ _ => trivial)
      fun wire c₁ hw hs => ?_
    cases hp : cmd.parse with
    | none => exact ⟨none, .silent hp hw hs, rfl⟩
    | some parser =>
      simp only [awaitReply, wp_bind, wp_liftExcept, wp_pure]
      cases hread : readLine c₁ with
      | error stop c' => exact (wp_iff_of_error hread).2 trivial
      | ok line c' =>
        refine (wp_iff_of_ok hread).2 ?_
        cases hok : parser.run line with
        | error e => trivial
        | ok resp => exact ⟨some line, .replied hp hw hs hread hok, by rw [parseReply_of_run hok]; rfl⟩
  cases hrun : sendCommand cmd c with
  | error stop c' => exact .inr ⟨stop, c', rfl⟩
  | ok resp c' =>
    obtain ⟨r, hx, rfl⟩ := wp_ok h hrun
    exact .inl ⟨r, c', hx, rfl⟩

/-- A reply line is on its way: it comes before a read fails, it is ASCII and not too long. -/
def Client.LineComes (c : Client) (line : Text) : Prop :=
  ∃ s later i, c.Feeds s later ∧ Text.findSub crlf s = some i ∧ i + 2 ≤ maxLineLen ∧
    Bytes.decodeAscii (s.take i) = some line

theorem Client.LineComes.readLine {line : Text} (h : c.LineComes line) : ∃ c', readLine c = .ok line c' := by
  obtain ⟨s, later, i, hf, hi, hshort, hline⟩ := h
  have hwp : wp SeedLink.readLine (fun l _ => l = line) (fun _ _ => False) c :=
    wp_readLine_feeds hf hi hshort hline fun _ _ _ => rfl
  cases hrun : SeedLink.readLine c with
  | ok l c' =>
    obtain rfl : l = line := by simpa using wp_ok hwp hrun
    exact ⟨c', rfl⟩
  | error stop c' => exact (wp_error hwp hrun).elim

/-- Why a command is not exchanged: its line is refused, nothing takes it, or it is sent and no reply line
comes. -/
inductive Unserved (c : Client) (cmd : Command) : Prop
  | refused {e : Exn} (h : cmd.wire = .error e)
  | unsent {wire : Bytes} (hw : cmd.wire = .ok wire) (h : ∀ c₁, ¬ c.Sends wire c₁)
  | unanswered {wire : Bytes} {c₁ : Client} (hp : cmd.parse.isSome = true) (hw : cmd.wire = .ok wire)
      (hs : c.Sends wire c₁) (h : ∀ line, ¬ c₁.LineComes line)

/-- A command fails when it is not served, or its reply is read and refused. -/
theorem unserved_of_error {stop : Stop} (h : sendCommand cmd c = .error stop c') :
    Unserved c cmd ∨ ∃ parser wire line e c₁, cmd.parse = some parser ∧ cmd.wire = .ok wire ∧ c.Sends wire c₁ ∧
      readLine c₁ = .ok line c' ∧ parser.run line = .error e := by
  cases hw : cmd.wire with
  | error e => exact .inl (.refused hw)
  | ok wire =>
    by_cases hsends : ∃ c₁, c.Sends wire c₁
    · obtain ⟨c₁, hs⟩ := hsends
      rw [sendCommand_of_sends hw hs] at h
      cases hp : cmd.parse with
      | none =>
        rw [hp] at h
        cases h
      | some parser =>
        by_cases hcomes : ∃ line, c₁.LineComes line
        · obtain ⟨line, hcomes⟩ := hcomes
          obtain ⟨c₂, hread⟩ := hcomes.readLine
          rw [hp, awaitReply, seq_ok hread] at h
          cases hok : parser.run line with
          | ok resp =>
            rw [hok] at h
            cases h
          | error e =>
            rw [hok] at h
            cases h
            exact .inr ⟨parser, wire, line, e, c₁, rfl, rfl, hs, hread, hok⟩
        · exact .inl (.unanswered (by rw [hp]; rfl) hw hs fun line hline => hcomes ⟨line, hline⟩)
    · exact .inl (.unsent hw fun c₁ hs => hsends ⟨c₁, hs⟩)

end exchange

theorem Conversation.append {c c₁ c₂ : Client} {log log' : Log} (h : Conversation c log c₁)
    (h' : Conversation c₁ log' c₂) : Conversation c (log ++ log') c₂ := by
  induction h with
  | nil => exact h'
  | cons hx _ ih => exact .cons hx (ih h')

theorem Conversation.concat {log : Log} {entry : Command × Option Text} {c c' : Client}
    (h : Conversation c (log ++ [entry]) c') :
    ∃ c₁, Conversation c log c₁ ∧ Exchanges c₁ entry.1 entry.2 c' := by
  induction log generalizing c with
  | nil =>
    cases h with
    | cons hx hrest =>
      cases hrest
      exact ⟨c, .nil, hx⟩
  | cons e log ih =>
    cases h with
    | cons hx hrest =>
      obtain ⟨c₁, hconv, hlast⟩ := ih hrest
      exact ⟨c₁, .cons hx hconv, hlast⟩

/-- Commands get a reply when they expect one. -/
theorem Conversation.isSome {c c' : Client} {log : Log} (h : Conversation c log c') :
    ∀ entry ∈ log, entry.2.isSome = entry.1.parse.isSome := by
  induction h with
  | nil => simp
  | cons hx _ ih =>
    intro entry hmem
    rcases List.mem_cons.1 hmem with rfl | hmem
    · exact hx.isSome
    · exact ih entry hmem

/-! ### The walk -/

/-- A station was rejected: its reply was read and is not OK. -/
def rejected (r : Option Text) : Bool := NegotiationWalk.rejects (r.map parseReply)

/-- What is sent for a station and its commands: the station alone when it is rejected, all of them
when it is not, whatever their replies are. -/
inductive BlockLog (station : Command) (body : List Command) : Log → Prop
  | rejected {r : Option Text} (h : rejected r = true) : BlockLog station body [(station, r)]
  | accepted {r : Option Text} {log : Log} (h : SeedLink.rejected r = false)
      (hlog : log.map Prod.fst = body) : BlockLog station body ((station, r) :: log)

/-- The station at the head of a block's log was accepted. -/
def acceptedBlock (log : Log) : Bool := log.head?.any fun entry => !rejected entry.2

section walk
variable {Q : NegotiationWalk → Client → Prop} {E : Stop → Client → Prop} {c : Client}
  {walk : NegotiationWalk}

/-- A command of a station's body: it is skipped with a rejected station, and its reply is not looked
at. -/
def InBody (cmd : Command) : Prop := cmd.role = .select ∨ cmd.role = .data

theorem InBody.ne_station {cmd : Command} (h : InBody cmd) : cmd.role ≠ .station := by
  rcases h with h | h <;> rw [h] <;> exact Role.noConfusion

theorem InBody.record {cmd : Command} (h : InBody cmd) (resp : Option SeedLinkResponse) :
    walk.record cmd resp = walk := by
  rw [NegotiationWalk.record, if_neg h.ne_station]

theorem InBody.shouldSend {cmd : Command} (h : InBody cmd) :
    walk.shouldSend cmd = (!walk.skipStream, walk) := by
  rw [NegotiationWalk.shouldSend, if_neg h.ne_station]
  have : (decide (cmd.role = .select) || decide (cmd.role = .data)) = true := by
    simpa [InBody] using h
  rw [this, Bool.and_true]

/-- Behind a rejected station its commands are skipped. -/
theorem sendPlan_skip (hskip : walk.skipStream = true) (rest : List Command) :
    ∀ {body : List Command}, (∀ cmd ∈ body, InBody cmd) →
      sendPlan (body ++ rest) walk = sendPlan rest walk
  | [], _ => rfl
  | cmd :: body, h => by
    have hcmd := h cmd List.mem_cons_self
    rw [List.cons_append, sendPlan]
    simp only [hcmd.shouldSend, hskip, Bool.not_true, Bool.false_eq_true, if_false]
    exact sendPlan_skip hskip rest fun cmd' hmem => h cmd' (List.mem_cons_of_mem _ hmem)

/-- Behind an accepted station its commands are sent in order. -/
theorem wp_sendPlan_body (hskip : walk.skipStream = false) {rest : List Command} :
    ∀ {body : List Command} {c : Client}, (∀ cmd ∈ body, InBody cmd) →
      (∀ log c', Conversation c log c' → log.map Prod.fst = body → wp (sendPlan rest walk) Q E c') →
      (∀ log cmd more c₁ stop c', Conversation c log c₁ → log.map Prod.fst ++ cmd :: more = body →
        sendCommand cmd c₁ = .error stop c' → E stop c') →
      wp (sendPlan (body ++ rest) walk) Q E c
  | [], c, _, hQ, _ => hQ [] c .nil rfl
  | cmd :: body, c, h, hQ, hE => by
    have hcmd := h cmd List.mem_cons_self
    rw [List.cons_append, sendPlan]
    simp only [hcmd.shouldSend, hskip, Bool.not_false, if_true, wp_bind, hcmd.record]
    rcases sendCommand_cases c cmd with ⟨r, c₁, hx, hrun⟩ | ⟨stop, c', hrun⟩
    · refine (wp_iff_of_ok hrun).2 (wp_sendPlan_body hskip
        (fun cmd' hmem => h cmd' (List.mem_cons_of_mem _ hmem)) ?_ ?_)
      · intro log c' hlog hbody
        exact hQ _ c' (.cons hx hlog) (by rw [List.map_cons, hbody])
      · intro log cmd' more c₂ stop c' hlog hbody hstop
        exact hE _ cmd' more c₂ stop c' (.cons hx hlog) (by rw [List.map_cons, List.cons_append, hbody])
          hstop
    · exact (wp_iff_of_error hrun).2 (hE [] cmd body c stop c' .nil rfl hrun)

/-- A station and its commands. Its rejection is forgotten at the next station. -/
theorem wp_sendPlan_block {station : Command} {body rest : List Command}
    (hstation : station.role = .station) (hbody : ∀ cmd ∈ body, InBody cmd)
    (hQ : ∀ log c' walk', Conversation c log c' → BlockLog station body log →
      walk'.seenStationRole = true →
      walk'.acceptedAnyStation = (walk.acceptedAnyStation || acceptedBlock log) →
      wp (sendPlan rest walk') Q E c')
    (hE : ∀ log cmd r more c₁ stop c', Conversation c log c₁ →
      BlockLog station body (log ++ (cmd, r) :: more) → sendCommand cmd c₁ = .error stop c' → E stop c') :
    wp (sendPlan (station :: body ++ rest) walk) Q E c := by
  have hask : walk.shouldSend station = (true, { walk with seenStationRole := true, skipStream := false }) :=
    if_pos hstation
  have hnone : rejected none = false := rfl
  rw [List.cons_append, sendPlan]
  simp only [hask, if_true, wp_bind]
  rcases sendCommand_cases c station with ⟨r, c₁, hx, hrun⟩ | ⟨stop, c', hrun⟩
  · refine (wp_iff_of_ok hrun).2 ?_
    rw [NegotiationWalk.record, if_pos hstation]
    cases hr : rejected r with
    | true =>
      rw [if_pos (show NegotiationWalk.rejects (r.map parseReply) = true from hr),
        sendPlan_skip rfl rest hbody]
      refine hQ [(station, r)] c₁ _ (.cons hx .nil) (.rejected hr) rfl ?_
      simp [acceptedBlock, hr]
    | false =>
      have hr' : ¬ NegotiationWalk.rejects (r.map parseReply) = true := by
        rw [show NegotiationWalk.rejects (r.map parseReply) = false from hr]; exact Bool.false_ne_true
      rw [if_neg hr']
      refine wp_sendPlan_body rfl hbody (fun log c' hlog hmap => ?_) fun log cmd more c₂ stop c' hlog hmap hstop => ?_
      · refine hQ _ c' _ (.cons hx hlog) (.accepted hr hmap) rfl ?_
        simp [acceptedBlock, hr]
      · refine hE ((station, r) :: log) cmd none (unanswered more) c₂ stop c'
          (.cons hx hlog) (.accepted hr ?_) hstop
        rw [← hmap]
        simp
  · refine (wp_iff_of_error hrun).2 (hE [] station none (unanswered body) c stop c' .nil
      (.accepted hnone ?_) hrun)
    simp

/-- The stations one after another. -/
theorem wp_sendPlan_blocks {rest : List Command} :
    ∀ {blocks : List (Command × List Command)} {c : Client} {walk : NegotiationWalk},
      (∀ b ∈ blocks, b.1.role = .station ∧ ∀ cmd ∈ b.2, InBody cmd) →
      (∀ logs c' walk', Conversation c logs.flatten c' →
        List.Forall₂ (fun b log => BlockLog b.1 b.2 log) blocks logs →
        walk'.seenStationRole = (walk.seenStationRole || !blocks.isEmpty) →
        walk'.acceptedAnyStation = (walk.acceptedAnyStation || logs.any acceptedBlock) →
        wp (sendPlan rest walk') Q E c') →
      (∀ logs log cmd r more c₁ stop c', Conversation c log c₁ →
        List.Forall₂ (fun b log => BlockLog b.1 b.2 log) blocks logs →
        logs.flatten = log ++ (cmd, r) :: more → sendCommand cmd c₁ = .error stop c' → E stop c') →
      wp (sendPlan (blocks.flatMap (fun b => b.1 :: b.2) ++ rest) walk) Q E c
  | [], c, walk, _, hQ, _ => hQ [] c walk .nil .nil (by simp) (by simp)
  | b :: blocks, c, walk, h, hQ, hE => by
    obtain ⟨hstation, hbody⟩ := h b List.mem_cons_self
    rw [List.flatMap_cons, List.append_assoc]
    refine wp_sendPlan_block hstation hbody (fun log c₁ walk₁ hlog hb hseen hacc => ?_) ?_
    · refine wp_sendPlan_blocks (fun b' hmem => h b' (List.mem_cons_of_mem _ hmem)) ?_ ?_
      · intro logs c' walk' hlogs hbs hseen' hacc'
        refine hQ (log :: logs) c' walk' (hlog.append hlogs) (.cons hb hbs) ?_ ?_
        · rw [hseen', hseen]; simp
        · rw [hacc', hacc, List.any_cons, Bool.or_assoc]
      · intro logs log' cmd r more c₂ stop c' hlog' hbs heq hstop
        refine hE (log :: logs) (log ++ log') cmd r more c₂ stop c' (hlog.append hlog') (.cons hb hbs) ?_
          hstop
        rw [List.flatten_cons, heq, List.append_assoc]
    · intro log cmd r more c₁ stop c' hlog hb hstop
      have hrest : List.Forall₂ (fun (b : Command × List Command) log => BlockLog b.1 b.2 log) blocks
          (blocks.map fun b => (b.1, none) :: unanswered b.2) := by
        rw [List.forall₂_map_right_iff, List.forall₂_same]
        exact fun b' _ => .accepted rfl (by simp)
      exact hE (_ :: _) log cmd r _ c₁ stop c' hlog (.cons hb hrest)
        (by rw [List.flatten_cons, List.append_assoc, List.cons_append]) hstop

end walk

theorem exists_of_mem_forall₂ {α β : Type} {R : α → β → Prop} {l : List α} {l' : List β}
    (h : List.Forall₂ R l l') {b : β} (hb : b ∈ l') : ∃ a ∈ l, R a b := by
  induction h with
  | nil => cases hb
  | cons hr _ ih =>
    rcases List.mem_cons.1 hb with rfl | hb
    · exact ⟨_, List.mem_cons_self, hr⟩
    · obtain ⟨a, ha, hr'⟩ := ih hb
      exact ⟨a, List.mem_cons_of_mem _ ha, hr'⟩

theorem forall₂_trans {α β γ : Type} {R : α → β → Prop} {S : β → γ → Prop} {T : α → γ → Prop}
    (hT : ∀ a b c, R a b → S b c → T a c) {l₁ : List α} {l₂ : List β} {l₃ : List γ}
    (h : List.Forall₂ R l₁ l₂) (h' : List.Forall₂ S l₂ l₃) : List.Forall₂ T l₁ l₃ := by
  induction h generalizing l₃ with
  | nil => cases h'; exact .nil
  | cons hr _ ih =>
    cases h' with
    | cons hs hrest => exact .cons (hT _ _ _ hr hs) (ih hrest)

/-- What `dataV4` builds. -/
theorem exists_of_dataV4_ok {stationId : Text} {seqnum : Option Int} {allData : Bool}
    {start stop : Option DateTime} {data : Command}
    (h : dataV4 stationId seqnum allData start stop = .ok data) :
    ∃ position window, windowWords start stop = .ok window ∧
      (seqnum = none ∧ position = (if allData || start.isSome then ["ALL".toList] else []) ∨
        ∃ n, seqnum = some n ∧ position = [Text.intNumeral 10 n]) ∧
      data = { text := joinWords ("DATA".toList :: position ++ window), parse := some .expectOk,
               terminator := cr, role := .data, streamId := some stationId } := by
  unfold dataV4 at h
  cases seqnum with
  | none =>
    simp only at h
    obtain ⟨position, hpos, h⟩ := exists_of_bind_ok h
    obtain ⟨window, hwin, h⟩ := exists_of_bind_ok h
    cases hpos
    cases h
    exact ⟨_, window, hwin, .inl ⟨rfl, rfl⟩, rfl⟩
  | some n =>
    simp only at h
    obtain ⟨t, ht, h⟩ := exists_of_bind_ok h
    obtain ⟨position, hpos, h⟩ := exists_of_bind_ok h
    obtain ⟨window, hwin, h⟩ := exists_of_bind_ok h
    cases hpos
    cases h
    exact ⟨[t], window, hwin, .inr ⟨n, rfl, by rw [(str_ok ht).2]⟩, rfl⟩

theorem dataV4_shape {stationId : Text} {seqnum : Option Int} {allData : Bool}
    {start stop : Option DateTime} {data : Command}
    (h : dataV4 stationId seqnum allData start stop = .ok data) :
    data.role = .data ∧ data.parse = some .expectOk ∧ data.streamId = some stationId := by
  obtain ⟨position, window, -, -, rfl⟩ := exists_of_dataV4_ok h
  exact ⟨rfl, rfl, rfl⟩

/-- A `DATA` without a time window. -/
theorem dataV4_text {stationId : Text} {seqnum : Option Int} {allData : Bool}
    {stop : Option DateTime} {data : Command} (h : dataV4 stationId seqnum allData none stop = .ok data) :
    data.terminator = cr ∧
      (seqnum = none → allData = false → data.text = "DATA".toList ++ []) ∧
      ∀ n, seqnum = some n → data.text = "DATA".toList ++ ' ' :: Text.intNumeral 10 n := by
  obtain ⟨position, window, hwin, hpos, rfl⟩ := exists_of_dataV4_ok h
  cases hwin
  refine ⟨rfl, fun hnone hall => ?_, fun m hm => ?_⟩
  · rcases hpos with ⟨-, rfl⟩ | ⟨n, hn, -⟩
    · rw [hall]
      rfl
    · rw [hnone] at hn
      cases hn
  · rcases hpos with ⟨hnone, -⟩ | ⟨n, hn, rfl⟩
    · rw [hnone] at hm
      cases hm
    · obtain rfl : n = m := Option.some_inj.1 (hn.symm.trans hm)
      simp [joinWords, List.intercalate]

/-! ### v3 plans -/

/-- A command whose reply, if it has one, has to be OK. -/
def MustBeOk (cmd : Command) : Prop := cmd.parse = none ∨ cmd.parse = some .expectOk

/-- The reply to the command was read, and is not OK. -/
def RepliesNotOk (c : Client) (cmd : Command) (c' : Client) : Prop :=
  ∃ wire c₁ line, cmd.wire = .ok wire ∧ c.Sends wire c₁ ∧ readLine c₁ = .ok line c' ∧
    (parseReply line).ok = false

theorem MustBeOk.resp_ok {cmd : Command} {r : Option Text} {c c' : Client} (hcmd : MustBeOk cmd)
    (h : Exchanges c cmd r c') : ∀ line, r = some line → (parseReply line).ok = true := by
  intro line hr
  cases h with
  | silent => cases hr
  | replied hp _ _ _ hok =>
    cases hr
    rcases hcmd with h | h
    · rw [h] at hp; cases hp
    · rw [h] at hp
      cases hp
      simp only [ReplyParser.run, expectOk] at hok
      split at hok
      · assumption
      · cases hok

/-- A command that has to be acknowledged is not served, or its reply is not OK. -/
theorem MustBeOk.unserved {c c' : Client} {cmd : Command} {stop : Stop} (hcmd : MustBeOk cmd)
    (h : sendCommand cmd c = .error stop c') : Unserved c cmd ∨ RepliesNotOk c cmd c' := by
  refine (unserved_of_error h).imp_right ?_
  rintro ⟨parser, wire, line, e, c₁, hp, hw, hs, hread, hrun⟩
  refine ⟨wire, c₁, line, hw, hs, hread, ?_⟩
  rcases hcmd with hp' | hp'
  · rw [hp] at hp'
    cases hp'
  · obtain rfl : parser = .expectOk := Option.some.inj (hp.symm.trans hp')
    simp only [ReplyParser.run, expectOk] at hrun
    split at hrun
    · cases hrun
    · rename_i hno
      exact Bool.eq_false_of_not_eq_true hno

/-- A reply that is not OK raises a `SeedLinkError`. -/
theorem MustBeOk.error {c c' c'' : Client} {cmd : Command} {stop : Stop} (hcmd : MustBeOk cmd)
    (h : RepliesNotOk c cmd c') (hstop : sendCommand cmd c = .error stop c'') :
    ∃ e, stop = .raised e ∧ e.isSeedLinkError = true := by
  obtain ⟨wire, c₁, line, hw, hs, hread, hno⟩ := h
  rw [sendCommand_of_sends hw hs] at hstop
  rcases hcmd with hp | hp
  · rw [hp] at hstop; cases hstop
  · rw [hp] at hstop
    have hwp : wp (awaitReply (some .expectOk)) (fun _ _ => False)
        (fun stop _ => ∃ e, stop = .raised e ∧ e.isSeedLinkError = true) c₁ := by
      simp only [awaitReply, wp_bind, wp_liftExcept, wp_pure]
      refine (wp_iff_of_ok hread).2 ?_
      simp only [ReplyParser.run, expectOk, hno, Bool.false_eq_true, if_false]
      exact ⟨_, rfl, rfl⟩
    exact wp_error hwp hstop

/-- A v4 plan is sent in order, and nothing behind the first reply that is not OK. -/
theorem wp_sendPlan_v4 : ∀ {plan : List Command} {walk : NegotiationWalk} {c : Client},
    (∀ cmd ∈ plan, MustBeOk cmd) → walk.skipStream = false →
      (walk.seenStationRole = true → walk.acceptedAnyStation = true) →
      wp (sendPlan plan walk)
        (fun walk' c' => walk'.finish = .ok ⟨⟩ ∧ ∃ log, Conversation c log c' ∧ log.map Prod.fst = plan ∧
          ∀ entry ∈ log, ∀ line, entry.2 = some line → (parseReply line).ok = true)
        (fun stop c' => ∃ log cmd more c₁, Conversation c log c₁ ∧
          log.map Prod.fst ++ cmd :: more = plan ∧
          (∀ entry ∈ log, ∀ line, entry.2 = some line → (parseReply line).ok = true) ∧
          sendCommand cmd c₁ = .error stop c') c
  | [], walk, c, _, _, hacc => by
    refine ⟨?_, [], .nil, rfl, by simp⟩
    unfold NegotiationWalk.finish
    rw [if_neg]
    intro h
    simp only [Bool.and_eq_true, Bool.not_eq_true'] at h
    rw [hacc h.1] at h
    cases h.2
  | cmd :: plan, walk, c, h, hskip, hacc => by
    have hcmd := h cmd List.mem_cons_self
    have hask : ∃ walk₁, walk.shouldSend cmd = (true, walk₁) ∧ walk₁.skipStream = false ∧
        (cmd.role ≠ .station → walk₁.seenStationRole = true → walk₁.acceptedAnyStation = true) := by
      unfold NegotiationWalk.shouldSend
      by_cases hrole : cmd.role = .station
      · exact ⟨_, if_pos hrole, rfl, fun h => absurd hrole h⟩
      · exact ⟨walk, by rw [if_neg hrole, hskip]; rfl, hskip, fun _ => hacc⟩
    obtain ⟨walk₁, hask, hskip₁, hacc₁⟩ := hask
    simp only [sendPlan, hask, if_true, wp_bind]
    rcases sendCommand_cases c cmd with ⟨r, c₁, hx, hrun⟩ | ⟨stop, c', hrun⟩
    · have hok := hcmd.resp_ok hx
      have hrej : NegotiationWalk.rejects (r.map parseReply) = false := by
        cases r with
        | none => rfl
        | some line => simp [NegotiationWalk.rejects, hok line rfl]
      have hrec : (walk₁.record cmd (r.map parseReply)).skipStream = false ∧
          ((walk₁.record cmd (r.map parseReply)).seenStationRole = true →
            (walk₁.record cmd (r.map parseReply)).acceptedAnyStation = true) := by
        unfold NegotiationWalk.record
        rw [hrej]
        by_cases hrole : cmd.role = .station
        · rw [if_pos hrole]; exact ⟨hskip₁, fun _ => rfl⟩
        · rw [if_neg hrole]; exact ⟨hskip₁, hacc₁ hrole⟩
      refine (wp_iff_of_ok hrun).2 (wp_mono (wp_sendPlan_v4
        (fun cmd' hmem => h cmd' (List.mem_cons_of_mem _ hmem)) hrec.1 hrec.2) ?_ ?_)
      · rintro walk' c' ⟨hfin, log, hconv, hmap, hall⟩
        refine ⟨hfin, _, .cons hx hconv, by rw [List.map_cons, hmap], ?_⟩
        intro entry hmem
        rcases List.mem_cons.1 hmem with rfl | hmem
        · exact hok
        · exact hall entry hmem
      · rintro stop c' ⟨log, cmd', more, c₂, hconv, hmap, hall, hstop⟩
        refine ⟨_, cmd', more, c₂, .cons hx hconv, by rw [List.map_cons, List.cons_append, hmap], ?_, hstop⟩
        intro entry hmem
        rcases List.mem_cons.1 hmem with rfl | hmem
        · exact hok
        · exact hall entry hmem
    · exact (wp_iff_of_error hrun).2 ⟨[], cmd, plan, c, .nil, rfl, by simp, hrun⟩

theorem wp_runPlan_v4 {plan : List Command} (hok : ∀ cmd ∈ plan, MustBeOk cmd) (c : Client) :
    wp (runPlan plan)
      (fun _ c' => ∃ log, Conversation c log c' ∧ log.map Prod.fst = plan ∧
        ∀ entry ∈ log, ∀ line, entry.2 = some line → (parseReply line).ok = true)
      (fun stop c' => ∃ log cmd more c₁, Conversation c log c₁ ∧
        log.map Prod.fst ++ cmd :: more = plan ∧
        (∀ entry ∈ log, ∀ line, entry.2 = some line → (parseReply line).ok = true) ∧
        sendCommand cmd c₁ = .error stop c' ∧ (Unserved c₁ cmd ∨ RepliesNotOk c₁ cmd c') ∧
        (RepliesNotOk c₁ cmd c' → ∃ e, stop = .raised e ∧ e.isSeedLinkError = true)) c := by
  rw [runPlan, wp_bind]
  refine wp_mono (wp_sendPlan_v4 hok rfl (fun h => by cases h)) ?_ ?_
  · rintro walk c' ⟨hfin, log, hconv, hmap, hall⟩
    rw [hfin]
    exact ⟨log, hconv, hmap, hall⟩
  · rintro stop c' ⟨log, cmd, more, c₁, hconv, hmap, hall, hstop⟩
    have hcmd := hok cmd (hmap ▸ by simp)
    exact ⟨log, cmd, more, c₁, hconv, hmap, hall, hstop, hcmd.unserved hstop, fun hno => hcmd.error hno hstop⟩

/-- What holds of the commands of each stream holds of those of all streams. -/
theorem forall_planStreams {P : Command → Prop} {plan : Stream → Except Exn (List Command) × Stream} :
    ∀ {streams : List Stream} {cmds : List Command},
      (∀ s ∈ streams, ∀ cmds, (plan s).1 = .ok cmds → ∀ cmd ∈ cmds, P cmd) →
      (planStreams plan streams).1 = .ok cmds → ∀ cmd ∈ cmds, P cmd
  | [], cmds, _, h => by cases h; simp
  | s :: rest, cmds, hP, h => by
    unfold planStreams at h
    cases hs : plan s with
    | mk res s' =>
      rw [hs] at h
      cases res with
      | error e => cases h
      | ok cmds₁ =>
        cases hrest : (planStreams plan rest).1 with
        | error e => simp only [hrest] at h; cases h
        | ok cmds₂ =>
          simp only [hrest] at h
          cases h
          intro cmd hmem
          rcases List.mem_append.1 hmem with hmem | hmem
          · exact hP s List.mem_cons_self cmds₁ (by rw [hs]) cmd hmem
          · exact forall_planStreams (fun s hs => hP s (List.mem_cons_of_mem _ hs)) hrest cmd hmem

section plans
variable [Externals] {args : NegotiationArgs} {streams : List Stream} {plan : List Command}

/-- What is sent for one stream: its STATION, and behind an accepted one all of its SELECTs and its
one DATA, FETCH or TIME. -/
inductive StreamLog (args : NegotiationArgs) (startStr endStr : Option Text) (s : Stream) (log : Log) :
    Prop
  | mk {data : Command}
      (hdata : (requestV3 args startStr endStr (!args.batchActive) s).1 = .ok data)
      (h : BlockLog (stationV3 s.stationId (!args.batchActive)) (selectsV3 args s ++ [data]) log)

/-- What a finished v3 multi-station negotiation sends: `logs` for the streams in order, and one
END. -/
structure StationsLog (args : NegotiationArgs) (streams : List Stream) (logs : List Log) (log : Log) :
    Prop where
  streams : ∃ startStr endStr, args.startTime.mapM toCommaTimestring = .ok startStr ∧
    args.endTime.mapM toCommaTimestring = .ok endStr ∧
    List.Forall₂ (StreamLog args startStr endStr) streams logs
  log : log = logs.flatten ++ [(endV3, none)]

/-- One reply is read for each command but END, and none when batch is active. -/
def ReadsReplies (args : NegotiationArgs) (log : Log) : Prop :=
  ∀ entry ∈ log, entry.2.isSome = (!args.batchActive && entry.1.role ≠ .endStreams)

theorem inBody_selectsV3 {s : Stream} {cmd : Command} (h : cmd ∈ selectsV3 args s) :
    InBody cmd ∧ cmd.parse = replyIf (!args.batchActive) := by
  obtain ⟨sel, -, rfl⟩ := List.mem_map.1 h
  exact ⟨.inl rfl, rfl⟩

theorem inBody_requestV3 {startStr endStr : Option Text} {expectReply : Bool} {s : Stream}
    {data : Command} (h : (requestV3 args startStr endStr expectReply s).1 = .ok data) :
    InBody data ∧ data.parse = replyIf expectReply := by
  unfold requestV3 at h
  split at h
  · cases h; exact ⟨.inr rfl, rfl⟩
  · simp only at h
    split at h
    · cases h; exact ⟨.inr rfl, rfl⟩
    · cases h

/-- The blocks of a v3 plan. -/
theorem planStreams_blocks {startStr endStr : Option Text} :
    ∀ {streams : List Stream} {cmds : List Command},
      (planStreams (planStreamV3 args startStr endStr) streams).1 = .ok cmds →
      ∃ blocks : List (Command × List Command), cmds = blocks.flatMap (fun b => b.1 :: b.2) ∧
        List.Forall₂ (fun s b => ∃ data,
          (requestV3 args startStr endStr (!args.batchActive) s).1 = .ok data ∧
          b = (stationV3 s.stationId (!args.batchActive), selectsV3 args s ++ [data])) streams blocks
  | [], cmds, h => by cases h; exact ⟨[], rfl, .nil⟩
  | s :: rest, cmds, h => by
    unfold planStreams planStreamV3 at h
    cases hreq : requestV3 args startStr endStr (!args.batchActive) s with
    | mk res s' =>
      rw [hreq] at h
      cases res with
      | error e => cases h
      | ok data =>
        have h' : (planStreams (planStreamV3 args startStr endStr) rest).1.map
            ((stationV3 s.stationId (!args.batchActive) :: selectsV3 args s ++ [data]) ++ ·) = .ok cmds := h
        cases hrest : (planStreams (planStreamV3 args startStr endStr) rest).1 with
        | error e => rw [hrest] at h'; cases h'
        | ok cmds' =>
          rw [hrest] at h'
          cases h'
          obtain ⟨blocks, rfl, hblocks⟩ := planStreams_blocks hrest
          refine ⟨(stationV3 s.stationId (!args.batchActive), selectsV3 args s ++ [data]) :: blocks, ?_, ?_⟩
          · simp
          · exact .cons ⟨data, by rw [hreq], rfl⟩ hblocks

omit [Externals] in
theorem planNegotiation_v3 [Pymseed] [Unicode] [Iso8601] (hv3 : args.protocol ≠ some .v4)
    (hmulti : args.multistation = true) (h : (planNegotiation args streams).1 = .ok plan) :
    ∃ startStr endStr, args.startTime.mapM toCommaTimestring = .ok startStr ∧
      args.endTime.mapM toCommaTimestring = .ok endStr ∧
      ∃ cmds, (planStreams (planStreamV3 args startStr endStr) streams).1 = .ok cmds ∧
        plan = cmds ++ [endV3] := by
  unfold planNegotiation at h
  split at h
  · cases h
  · cases h
  · rename_i startStr endStr hstart hend
    rw [if_neg hv3] at h
    unfold planNegotiationV3 at h
    rw [if_pos hmulti] at h
    refine ⟨startStr, endStr, hstart, hend, ?_⟩
    have h' : Except.map (· ++ [endV3]) (planStreams (planStreamV3 args startStr endStr) streams).1 =
      .ok plan := h
    cases hcmds : (planStreams (planStreamV3 args startStr endStr) streams).1 with
    | error e => rw [hcmds] at h'; cases h'
    | ok cmds =>
      rw [hcmds] at h'
      cases h'
      exact ⟨cmds, rfl, rfl⟩

theorem StreamLog.replies {startStr endStr : Option Text} {st : Stream} {log : Log}
    (h : StreamLog args startStr endStr st log) :
    ∀ entry ∈ log, entry.1.parse = replyIf (!args.batchActive && entry.1.role ≠ .endStreams) := by
  have hreply : ∀ cmd : Command, cmd.parse = replyIf (!args.batchActive) → cmd.role ≠ .endStreams →
      cmd.parse = replyIf (!args.batchActive && cmd.role ≠ .endStreams) := by
    intro cmd hp hr
    rw [hp, decide_eq_true hr, Bool.and_true]
  have hstation := hreply (stationV3 st.stationId (!args.batchActive)) rfl Role.noConfusion
  obtain ⟨hdata, hb⟩ := h
  cases hb with
  | rejected h =>
    intro entry hmem
    obtain rfl := List.mem_singleton.1 hmem
    exact hstation
  | accepted h hlog =>
    intro entry hmem
    rcases List.mem_cons.1 hmem with rfl | hmem
    · exact hstation
    · have hcmd := List.mem_map_of_mem (f := Prod.fst) hmem
      rw [hlog, List.mem_append, List.mem_singleton] at hcmd
      have hbody : InBody entry.1 ∧ entry.1.parse = replyIf (!args.batchActive) := by
        rcases hcmd with hcmd | hcmd
        · exact inBody_selectsV3 hcmd
        · exact hcmd ▸ inBody_requestV3 hdata
      refine hreply _ hbody.2 ?_
      rcases hbody.1 with h | h <;> rw [h] <;> exact Role.noConfusion

theorem StationsLog.replies {logs : List Log} {log : Log} (h : StationsLog args streams logs log) :
    ∀ entry ∈ log, entry.1.parse = replyIf (!args.batchActive && entry.1.role ≠ .endStreams) := by
  obtain ⟨⟨startStr, endStr, -, -, hall⟩, rfl⟩ := h
  intro entry hmem
  rcases List.mem_append.1 hmem with hmem | hmem
  · obtain ⟨log, hlog, hmem⟩ := List.mem_flatten.1 hmem
    obtain ⟨s, -, hs⟩ := exists_of_mem_forall₂ hall hlog
    exact hs.replies entry hmem
  · obtain rfl := List.mem_singleton.1 hmem
    simp [endV3, replyIf]

/-- How often a reply is read follows from the log alone, as far as the conversation has come. -/
theorem StationsLog.readsReplies {logs : List Log} {log more : Log} {c c' : Client}
    (h : StationsLog args streams logs (log ++ more)) (hconv : Conversation c log c') : ReadsReplies args log := by
  intro entry hmem
  rw [hconv.isSome entry hmem, h.replies entry (List.mem_append_left _ hmem)]
  cases (!args.batchActive && decide (entry.1.role ≠ .endStreams)) <;> rfl

/-- The replies are not looked at, so a command of the plan fails only when it is not served. -/
theorem StationsLog.unserved {logs : List Log} {log more : Log} {cmd : Command} {r : Option Text} {c c' : Client}
    {stop : Stop} (h : StationsLog args streams logs (log ++ (cmd, r) :: more))
    (hstop : sendCommand cmd c = .error stop c') : Unserved c cmd := by
  rcases unserved_of_error hstop with hun | ⟨parser, -, line, e, -, hp, -, -, -, hrun⟩
  · exact hun
  · have hreply := h.replies (cmd, r) (List.mem_append_right _ List.mem_cons_self)
    rw [hp, replyIf] at hreply
    split at hreply
    · cases hreply
      cases hrun
    · cases hreply

/-- The v3 multi-station plan. -/
theorem wp_runPlan_v3 (hv3 : args.protocol ≠ some .v4) (hmulti : args.multistation = true)
    (hplan : (planNegotiation args streams).1 = .ok plan) (c : Client) :
    wp (runPlan plan)
      (fun _ c' => ∃ logs log, StationsLog args streams logs log ∧ Conversation c log c' ∧
        (streams = [] ∨ logs.any acceptedBlock = true))
      (fun stop c' =>
        (stop = .raised (seedLinkError "No stations accepted") ∧ ∃ logs log,
          StationsLog args streams logs log ∧ Conversation c log c' ∧ streams ≠ [] ∧
            logs.any acceptedBlock = false) ∨
        ∃ logs log cmd r more c₁, StationsLog args streams logs (log ++ (cmd, r) :: more) ∧
          Conversation c log c₁ ∧ sendCommand cmd c₁ = .error stop c') c := by
  obtain ⟨startStr, endStr, hstart, hend, cmds, hcmds, rfl⟩ := planNegotiation_v3 hv3 hmulti hplan
  obtain ⟨blocks, rfl, hblocks⟩ := planStreams_blocks hcmds
  have hstations : ∀ {logs : List Log},
      List.Forall₂ (fun (b : Command × List Command) log => BlockLog b.1 b.2 log) blocks logs →
        StationsLog args streams logs (logs.flatten ++ [(endV3, none)]) := fun hlogs =>
    ⟨⟨startStr, endStr, hstart, hend,
      forall₂_trans (fun s b log ⟨data, hdata, hb⟩ h => ⟨hdata, by rw [hb] at h; exact h⟩) hblocks hlogs⟩,
      rfl⟩
  have hnil : blocks.isEmpty = true ↔ streams = [] := by
    rw [List.isEmpty_iff, ← List.length_eq_zero_iff, ← List.length_eq_zero_iff, hblocks.length_eq]
  rw [runPlan, wp_bind]
  refine wp_sendPlan_blocks ?_ ?_ ?_
  · intro b hb
    obtain ⟨s, -, data, hdata, rfl⟩ := exists_of_mem_forall₂ hblocks hb
    refine ⟨rfl, fun cmd hcmd => ?_⟩
    rcases List.mem_append.1 hcmd with hcmd | hcmd
    · exact (inBody_selectsV3 hcmd).1
    · exact List.mem_singleton.1 hcmd ▸ (inBody_requestV3 hdata).1
  · intro logs c' walk' hconv hlogs hseen hacc
    have hask : walk'.shouldSend endV3 = (true, walk') := by
      simp [NegotiationWalk.shouldSend, endV3]
    have hrecord : ∀ resp, walk'.record endV3 resp = walk' := fun resp => if_neg (by simp [endV3])
    simp only [sendPlan, hask, if_true, wp_bind, hrecord, wp_pure]
    rcases sendCommand_cases c' endV3 with ⟨r, c₂, hx, hrun⟩ | ⟨stop, c₂, hrun⟩
    · obtain rfl : r = none := Option.not_isSome_iff_eq_none.1 (by rw [hx.isSome]; exact Bool.false_ne_true)
      have hconv' := hconv.append (.cons hx .nil)
      refine (wp_iff_of_ok hrun).2 ?_
      rw [NegotiationWalk.finish, hseen, hacc]
      cases hany : logs.any acceptedBlock with
      | true =>
        rw [if_neg (by simp)]
        exact ⟨logs, _, hstations hlogs, hconv', .inr hany⟩
      | false =>
        cases hempty : blocks.isEmpty with
        | true =>
          rw [if_neg (by simp)]
          exact ⟨logs, _, hstations hlogs, hconv', .inl (hnil.1 hempty)⟩
        | false =>
          simp only [Bool.not_false, Bool.or_true, Bool.or_false, Bool.and_self, if_true, wp_liftExcept]
          refine .inl ⟨trivial, logs, _, hstations hlogs, hconv', fun h => ?_, hany⟩
          rw [hnil.2 h] at hempty
          cases hempty
    · exact (wp_iff_of_error hrun).2 (.inr ⟨logs, _, endV3, none, [], c', hstations hlogs, hconv, hrun⟩)
  · intro logs log cmd r more c₁ stop c' hconv hlogs heq hstop
    refine .inr ⟨logs, log, cmd, r, more ++ [(endV3, none)], c₁, ?_, hconv, hstop⟩
    rw [← List.cons_append, ← List.append_assoc, ← heq]
    exact hstations hlogs

/-! ### v4 plans -/

theorem mustBeOk_planStreamV4 {s : Stream} {cmds : List Command} (h : planStreamV4 args s = .ok cmds) :
    ∀ cmd ∈ cmds, MustBeOk cmd := by
  unfold planStreamV4 at h
  simp only at h
  cases hdata : dataV4 s.stationId (if args.startTime.isSome then none else args.resumeSeqnum s)
      s.allData args.startTime args.endTime with
  | error e => rw [hdata] at h; cases h
  | ok data =>
    rw [hdata] at h
    cases h
    have hparse := (dataV4_shape hdata).2.1
    intro cmd hmem
    simp only [List.cons_append, List.mem_cons, List.mem_append, List.mem_map, List.not_mem_nil, or_false] at hmem
    rcases hmem with rfl | ⟨sel, -, rfl⟩ | rfl
    · exact .inr rfl
    · exact .inr rfl
    · exact .inr hparse

omit [Externals] in
theorem planNegotiation_v4 [Pymseed] [Unicode] [Iso8601] (hv4 : args.protocol = some .v4)
    (h : (planNegotiation args streams).1 = .ok plan) :
    ∃ cmds, (planStreams (fun s => (planStreamV4 args s, s)) streams).1 = .ok cmds ∧
      plan = cmds ++ [endV4 args.dialup] := by
  unfold planNegotiation at h
  split at h
  · cases h
  · cases h
  · rw [if_pos hv4] at h
    have h' : Except.map (· ++ [endV4 args.dialup])
      (planStreams (fun s => (planStreamV4 args s, s)) streams).1 = .ok plan := h
    cases hcmds : (planStreams (fun s => (planStreamV4 args s, s)) streams).1 with
    | error e => rw [hcmds] at h'; cases h'
    | ok cmds =>
      rw [hcmds] at h'
      cases h'
      exact ⟨cmds, rfl, rfl⟩

theorem mustBeOk_planNegotiation (hv4 : args.protocol = some .v4)
    (h : (planNegotiation args streams).1 = .ok plan) : ∀ cmd ∈ plan, MustBeOk cmd := by
  obtain ⟨cmds, hcmds, rfl⟩ := planNegotiation_v4 hv4 h
  intro cmd hmem
  rcases List.mem_append.1 hmem with hmem | hmem
  · exact forall_planStreams (fun s _ cmds hs => mustBeOk_planStreamV4 hs) hcmds cmd hmem
  · obtain rfl := List.mem_singleton.1 hmem
    exact .inl rfl

/-- Driving a plan. Where all its commands are served it is sent to its end in v3 mode, and in v4 mode to the
first reply that is not OK. -/
theorem runPlan_sends (hplan : (planNegotiation args streams).1 = .ok plan) (c : Client) :
    (args.protocol ≠ some .v4 → args.multistation = true →
      wp (runPlan plan)
        (fun _ c' => ∃ logs log, StationsLog args streams logs log ∧ Conversation c log c' ∧
          ReadsReplies args log ∧ (streams = [] ∨ logs.any acceptedBlock = true))
        (fun stop c' =>
          (stop = .raised (seedLinkError "No stations accepted") ∧ ∃ logs log,
            StationsLog args streams logs log ∧ Conversation c log c' ∧ ReadsReplies args log ∧
              streams ≠ [] ∧ logs.any acceptedBlock = false) ∨
          ∃ logs log cmd r more c₁, StationsLog args streams logs (log ++ (cmd, r) :: more) ∧
            Conversation c log c₁ ∧ ReadsReplies args log ∧ sendCommand cmd c₁ = .error stop c' ∧
              Unserved c₁ cmd) c) ∧
    (args.protocol = some .v4 →
      wp (runPlan plan)
        (fun _ c' => ∃ log, Conversation c log c' ∧ log.map Prod.fst = plan ∧
          ∀ entry ∈ log, ∀ line, entry.2 = some line → (parseReply line).ok = true)
        (fun stop c' => ∃ log cmd more c₁, Conversation c log c₁ ∧
          log.map Prod.fst ++ cmd :: more = plan ∧
          (∀ entry ∈ log, ∀ line, entry.2 = some line → (parseReply line).ok = true) ∧
          sendCommand cmd c₁ = .error stop c' ∧ (Unserved c₁ cmd ∨ RepliesNotOk c₁ cmd c') ∧
          (RepliesNotOk c₁ cmd c' → ∃ e, stop = .raised e ∧ e.isSeedLinkError = true)) c) := by
  refine ⟨fun hv3 hmulti => wp_mono (wp_runPlan_v3 hv3 hmulti hplan c) ?_ ?_,
    fun hv4 => wp_runPlan_v4 (mustBeOk_planNegotiation hv4 hplan) c⟩
  · rintro _ c' ⟨logs, log, hlog, hconv, hany⟩
    rw [← List.append_nil log] at hlog
    exact ⟨logs, log, List.append_nil log ▸ hlog, hconv, hlog.readsReplies hconv, hany⟩
  · rintro stop c' (⟨hstop, logs, log, hlog, hconv, hne, hany⟩ | ⟨logs, log, cmd, r, more, c₁, hlog, hconv, hstop⟩)
    · rw [← List.append_nil log] at hlog
      exact .inl ⟨hstop, logs, log, List.append_nil log ▸ hlog, hconv, hlog.readsReplies hconv, hne, hany⟩
    · exact .inr ⟨logs, log, cmd, r, more, c₁, hlog, hconv, hlog.readsReplies hconv, hstop, hlog.unserved hstop⟩

end plans

/-- Two stations in v3 multi-station mode, the first to be resumed, the second with a selector. -/
def twoStations : List Stream :=
  [{ stationId := "XX_ABC".toList, seqnum := some 255 },
    { stationId := "XX_DEF".toList, selectors := ["BHZ".toList] }]

def multistationArgs : NegotiationArgs :=
  { protocol := some .v3, dialup := false, multistation := true, resume := true, lastpkttime := false,
    batchActive := false, startTime := none, endTime := none }

def twoStationsPlan : List Command :=
  [stationV3 "XX_ABC".toList true, dataV3 "XX_ABC".toList "DATA".toList (some 256) none true,
    stationV3 "XX_DEF".toList true, selectV3 "XX_DEF".toList "BHZ".toList true,
    dataV3 "XX_DEF".toList "DATA".toList none none true, endV3]

/-- A client whose peer answers the lines one after another. -/
def answering (replies : List String) : Client :=
  { Client.listening .v3 [] with
    sock := some {
      incoming := []
      peer := fun sent pending _ =>
        .ok (pending ++ (replies[sent.length]?.map fun reply => Recv.data (Bytes.lit reply ++ crlf)).toList) } }

/-- How the run ends, and what it has sent. -/
def drives (replies : List String) : Option Stop × List Bytes :=
  match runPlan twoStationsPlan (answering replies) with
  | .ok _ c' => (none, c'.sent)
  | .error stop c' => (some stop, c'.sent)

/-- The first station is rejected, and so is a SELECT of the second, whose DATA is sent nevertheless; and both are
rejected. -/
theorem runPlan_sends_twoStations :
    (∃ c', runPlan twoStationsPlan (answering ["ERROR", "OK", "ERROR", "OK"]) = .ok ⟨⟩ c' ∧
      c'.sent = [Bytes.lit "STATION ABC XX", Bytes.lit "STATION DEF XX", Bytes.lit "SELECT BHZ", Bytes.lit "DATA",
        Bytes.lit "END"].map (· ++ crlf) ∧
      ∃ logs log, @StationsLog Externals.bare multistationArgs twoStations logs log ∧
        Conversation (answering ["ERROR", "OK", "ERROR", "OK"]) log c' ∧ ReadsReplies multistationArgs log ∧
          logs.any acceptedBlock = true) ∧
    ∃ c', runPlan twoStationsPlan (answering ["ERROR", "ERROR"]) =
        .error (.raised (seedLinkError "No stations accepted")) c' ∧
      c'.sent = [Bytes.lit "STATION ABC XX", Bytes.lit "STATION DEF XX", Bytes.lit "END"].map (· ++ crlf) := by
  have hsends := fun replies => (@runPlan_sends Externals.bare multistationArgs twoStations twoStationsPlan rfl
    (answering replies)).1 (by decide) rfl
  constructor
  · have hdrives : drives ["ERROR", "OK", "ERROR", "OK"] = (none, [Bytes.lit "STATION ABC XX",
        Bytes.lit "STATION DEF XX", Bytes.lit "SELECT BHZ", Bytes.lit "DATA", Bytes.lit "END"].map (· ++ crlf)) := by
      decide +kernel
    unfold drives at hdrives
    split at hdrives
    · rename_i c' hrun
      obtain ⟨logs, log, hlog, hconv, hreads, hnone | hany⟩ := wp_ok (hsends _) hrun
      · cases hnone
      · exact ⟨c', hrun, congrArg Prod.snd hdrives, logs, log, hlog, hconv, hreads, hany⟩
    · cases hdrives
  · have hdrives : drives ["ERROR", "ERROR"] = (some (.raised (seedLinkError "No stations accepted")),
        [Bytes.lit "STATION ABC XX", Bytes.lit "STATION DEF XX", Bytes.lit "END"].map (· ++ crlf)) := by
      decide +kernel
    unfold drives at hdrives
    split at hdrives
    · cases hdrives
    · rename_i stop c' hrun
      obtain ⟨hstop, hsent⟩ := Prod.mk.inj hdrives
      exact ⟨c', by rw [hrun, Option.some.inj hstop], hsent⟩

end SeedLink
