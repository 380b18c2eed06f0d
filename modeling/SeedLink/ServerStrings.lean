import SeedLink.Info
import SeedLink.Lib.Words
import SeedLink.Transport

/-!
# Server strings (`SeedLink.from_server_string`)

A server is given as `host`, `host:port`, `host@port` or `[host]:port`, the port and its sign optional.
`ServerNotation` lists these notations; `AccountsFor` says that a host and a port are what one of them gives,
with nothing of the string left over. What follows the closing bracket without a colon is left over
(`accountsFor_iff`).
-/

namespace SeedLink

def defaultPort : Nat := 18000

def tlsPort : Nat := 18500

def localhost : Text := "localhost".toList

/-! ### `repr()` of text, for messages -/

/-- `str.isprintable()` of one character. -/
class UnicodeRepr where
  isPrintable : Char → Bool
  isPrintable_ascii : ∀ c, c.toNat < 128 → isPrintable c = (32 ≤ c.toNat && c.toNat < 127)

/-- The last digits of `n` in base 16. -/
def lastHexDigits : Nat → Nat → Text
  | 0, _ => []
  | width + 1, n => lastHexDigits width (n / 16) ++ [hexLower (n % 16)]

section repr
variable [UnicodeRepr]

def reprChar (quote c : Char) : Text :=
  if c = quote ∨ c = Char.ofNat 92 then [Char.ofNat 92, c]
  else if c = '\t' then [Char.ofNat 92, 't']
  else if c = '\n' then [Char.ofNat 92, 'n']
  else if c = '\r' then [Char.ofNat 92, 'r']
  else if UnicodeRepr.isPrintable c then [c]
  else if c.toNat < 256 then Char.ofNat 92 :: 'x' :: lastHexDigits 2 c.toNat
  else if c.toNat < 65536 then Char.ofNat 92 :: 'u' :: lastHexDigits 4 c.toNat
  else Char.ofNat 92 :: 'U' :: lastHexDigits 8 c.toNat

/-- `repr(s)`: double quotes only around a single quote. -/
def reprText (s : Text) : String :=
  let quote := if s.contains (Char.ofNat 39) && !s.contains (Char.ofNat 34) then Char.ofNat 34 else Char.ofNat 39
  String.ofList (quote :: (s.flatMap (reprChar quote) ++ [quote]))

end repr

/-! ### The parser -/

/-- `host or "localhost"`. -/
def orLocalhost (host : Text) : Text := if host.isEmpty then localhost else host

theorem orLocalhost_of_ne_nil {host : Text} (hne : host ≠ []) : orLocalhost host = host :=
  if_neg (by simpa using hne)

section parser
variable [Unicode] [UnicodeRepr]

/-- `_parse_port`. -/
def parsePort (server text : Text) : Except Exn Nat :=
  match Text.intBase10 text with
  | none => .error (.valueError s!"Invalid port in server string: {reprText server}")
  | some port =>
    if 1 ≤ port ∧ port ≤ 65535 then .ok port.toNat
    else .error (.valueError s!"Port out of range in server string: {reprText server}")

/-- The port where there is text for it. -/
def portOrDefault (server text : Text) : Except Exn Nat :=
  if text.isEmpty then .ok defaultPort else parsePort server text

/-- Host and port of a server string without surrounding white space. -/
def parseServer (server : Text) : Except Exn (Text × Nat) :=
  if server.isEmpty then .ok (localhost, defaultPort)
  else if server.head? = some '[' then
    let (head, closed, remainder) := Text.partition ']' server
    if !closed then .error (.valueError s!"Missing closing bracket in server string: {reprText server}")
    else do
      let port ← portOrDefault server (if remainder.head? = some ':' then remainder.tail else [])
      .ok (orLocalhost head.tail, port)
  else if server.contains '@' then
    let (head, _, tail) := Text.rpartition '@' server
    do
      let port ← portOrDefault server tail
      .ok (orLocalhost head, port)
  else if server.count ':' > 1 then
    .error (.valueError
      s!"Ambiguous server string {reprText server}; use '[host]:port' or 'host@port' for a bare IPv6 address")
  else
    match Text.rsplit1 ':' server with
    | [head, tail] => do
      let port ← portOrDefault server tail
      .ok (orLocalhost head, port)
    | _ => .ok (orLocalhost server, defaultPort)

/-- `from_server_string`; `kwargs` holds the arguments that it hands on. -/
def fromServerString (kwargs : Config) (timeout : Option Int) (tls : Option Bool) (server : Text) :
    Except Exn Config := do
  let (host, port) ← parseServer (Text.strip server)
  .ok { kwargs with host, port, timeout, tls := tls.getD (port == tlsPort) }

end parser

/-! ### The notations -/

/-- The notations of a server: the string, the host and the port in it, both possibly empty. -/
inductive ServerNotation : Text → Text → Text → Prop
  | host (host : Text) : ServerNotation host host []
  | colon (host port : Text) : ServerNotation (host ++ ':' :: port) host port
  | atSign (host port : Text) : ServerNotation (host ++ '@' :: port) host port
  | bracket (host : Text) : ServerNotation ('[' :: (host ++ [']'])) host []
  | bracketColon (host port : Text) : ServerNotation ('[' :: (host ++ ']' :: ':' :: port)) host port

/-- The port that the text stands for. -/
def PortOf [Unicode] (text : Text) (port : Nat) : Prop :=
  if text = [] then port = defaultPort else Text.intBase10 text = some (port : Int) ∧ 1 ≤ port ∧ port ≤ 65535

/-- Host and port are what some notation of the string gives. -/
def AccountsFor [Unicode] (server host : Text) (port : Nat) : Prop :=
  ∃ h p, ServerNotation server h p ∧ host = orLocalhost h ∧ PortOf p port

/-- A host in brackets with something other than a port after it. -/
def Trailing (server : Text) : Prop :=
  ∃ host junk, server = '[' :: (host ++ ']' :: junk) ∧ ']' ∉ host ∧ junk ≠ [] ∧ junk.head? ≠ some ':'

/-! ### What is left over -/

section leftOver
variable {host h text junk rest : Text}

theorem head?_of_shift {α : Type} {a : α} {t u : List α} :
    ∀ {l : List α}, a :: (l ++ t) = l ++ u → u.head? = some a
  | [], h => by
    rw [← List.nil_append u, ← h]
    rfl
  | b :: l, h => by
    obtain ⟨rfl, h⟩ := List.cons.inj h
    exact head?_of_shift h

theorem orLocalhost_cases (h : orLocalhost host = orLocalhost text) :
    host = text ∨ (host = [] ∧ text = localhost) ∨ (host = localhost ∧ text = []) := by
  rcases host with _ | ⟨c, host⟩ <;> rcases text with _ | ⟨d, text⟩
  · exact .inl rfl
  · exact .inr (.inl ⟨rfl, h.symm⟩)
  · exact .inr (.inr ⟨h, rfl⟩)
  · exact .inl h

/-- In front of the string there is no such host: with the bracket it would be one longer. -/
theorem not_unbracketed (heq : '[' :: (host ++ ']' :: junk) = h ++ rest) (hlocal : orLocalhost host = orLocalhost h)
    (hrest : rest.head? ≠ some '[') : False := by
  rcases orLocalhost_cases hlocal with rfl | ⟨rfl, rfl⟩ | ⟨rfl, rfl⟩
  · exact hrest (head?_of_shift heq)
  · cases heq
  · rw [List.nil_append] at heq
    rw [← heq] at hrest
    exact hrest rfl

/-- Between brackets it is followed by what the brackets are followed by. -/
theorem not_bracketed (hjunk : junk ≠ [] ∧ junk.head? ≠ some ':')
    (heq : '[' :: (host ++ ']' :: junk) = '[' :: (h ++ ']' :: rest))
    (hlocal : orLocalhost host = orLocalhost h) (hrest : rest = [] ∨ rest.head? = some ':') : False := by
  obtain ⟨-, heq⟩ := List.cons.inj heq
  rcases orLocalhost_cases hlocal with rfl | ⟨rfl, rfl⟩ | ⟨rfl, rfl⟩
  · obtain ⟨-, rfl⟩ := List.cons.inj (List.append_cancel_left heq)
    exact hrest.elim hjunk.1 hjunk.2
  · cases heq
  · cases heq

end leftOver

/-! ### Every string -/

section sound
variable [Unicode] [UnicodeRepr] {server text h p host : Text} {port : Nat} {kwargs : Config} {timeout : Option Int}
variable {tls : Option Bool}

theorem portOrDefault_cases (server text : Text) :
    (∃ m, portOrDefault server text = .error (.valueError m)) ∨
      ∃ port, portOrDefault server text = .ok port ∧ PortOf text port := by
  unfold portOrDefault PortOf
  rcases text with _ | ⟨c, text⟩
  · exact .inr ⟨_, rfl, rfl⟩
  · simp only [List.isEmpty_cons, Bool.false_eq_true, if_false, reduceCtorEq, parsePort]
    cases hint : Text.intBase10 (c :: text) with
    | none => exact .inl ⟨_, rfl⟩
    | some port =>
      simp only
      split
      · rename_i hrange
        exact .inr ⟨port.toNat, rfl, by rw [Int.toNat_of_nonneg (by omega)], by omega, by omega⟩
      · exact .inl ⟨_, rfl⟩

/-- `ValueError`, or what some notation gives. -/
def Parsed (server : Text) (r : Except Exn (Text × Nat)) : Prop :=
  (∃ m, r = .error (.valueError m)) ∨ ∃ host port, r = .ok (host, port) ∧ AccountsFor server host port

theorem ServerNotation.parsed (hn : ServerNotation server h p) (whole : Text) :
    Parsed server (do
      let port ← portOrDefault whole p
      .ok (orLocalhost h, port)) := by
  rcases portOrDefault_cases whole p with ⟨m, hport⟩ | ⟨port, hport, hof⟩
  · rw [hport]
    exact .inl ⟨m, rfl⟩
  · rw [hport]
    exact .inr ⟨_, port, rfl, h, p, hn, rfl, hof⟩

omit [UnicodeRepr] in
theorem ServerNotation.parsed_noPort (hn : ServerNotation server h []) :
    Parsed server (.ok (orLocalhost h, defaultPort)) :=
  .inr ⟨_, _, rfl, h, [], hn, rfl, rfl⟩

/-! The parser on each notation. -/

theorem parseServer_bracket (h : ']' ∉ host) (rest : Text) :
    parseServer ('[' :: (host ++ ']' :: rest)) = (do
      let port ← portOrDefault ('[' :: (host ++ ']' :: rest)) (if rest.head? = some ':' then rest.tail else [])
      .ok (orLocalhost host, port)) := by
  have hpart : Text.partition ']' ('[' :: (host ++ ']' :: rest)) = ('[' :: host, true, rest) :=
    Text.partition_append (s := '[' :: host) (t := ']' :: rest) (by simpa using h) (by simp)
  unfold parseServer
  rw [hpart]
  rfl

theorem parseServer_at (hhead : (host ++ '@' :: text).head? ≠ some '[') (h : '@' ∉ text) :
    parseServer (host ++ '@' :: text) = (do
      let port ← portOrDefault (host ++ '@' :: text) text
      .ok (orLocalhost host, port)) := by
  unfold parseServer
  rw [if_neg (by simp), if_neg hhead, if_pos (by simp), Text.rpartition_append host h]

theorem parseServer_bare (hhead : server.head? ≠ some '[') (hat : '@' ∉ server) :
    Parsed server (parseServer server) := by
  rcases server with _ | ⟨c, cs⟩
  · exact (ServerNotation.host []).parsed_noPort
  · unfold parseServer
    rw [if_neg (by simp), if_neg hhead, if_neg (by simpa using hat)]
    generalize c :: cs = server
    by_cases hcount : server.count ':' > 1
    · rw [if_pos hcount]
      exact .inl ⟨_, rfl⟩
    · rw [if_neg hcount]
      rcases Text.exists_rpartition ':' server with hcolon | ⟨head, tail, rfl, htail⟩
      · rw [Text.rsplit1, Text.rpartition_of_notMem hcolon]
        exact (ServerNotation.host server).parsed_noPort
      · rw [Text.rsplit1, Text.rpartition_append head htail]
        exact (ServerNotation.colon head tail).parsed _

/-- A string with nothing behind its brackets is refused or accounted for. -/
theorem parseServer_parsed (h : ¬ Trailing server) : Parsed server (parseServer server) := by
  by_cases hhead : server.head? = some '['
  · obtain ⟨a, b, hab, ha, hb⟩ := Text.exists_partition ']' server
    rcases b with _ | ⟨c, rest⟩
    · unfold parseServer
      rw [List.append_nil] at hab
      rw [if_neg (by rintro hempty; rw [List.isEmpty_iff.1 hempty] at hhead; cases hhead), if_pos hhead, hab,
        show Text.partition ']' a = (a, false, []) from by simpa using Text.partition_append (t := []) ha (by simp)]
      exact .inl ⟨_, rfl⟩
    · obtain rfl : c = ']' := hb c rfl
      rcases a with _ | ⟨c, host⟩
      · rw [hab] at hhead
        cases hhead
      · obtain rfl : c = '[' := by simpa [hab] using hhead
        have hhost : ']' ∉ host := fun hmem => ha (List.mem_cons_of_mem _ hmem)
        rw [List.cons_append] at hab
        subst hab
        rw [parseServer_bracket hhost]
        rcases rest with _ | ⟨d, port⟩
        · exact (ServerNotation.bracket host).parsed _
        · by_cases hd : d = ':'
          · subst hd
            exact (ServerNotation.bracketColon host port).parsed _
          · exact absurd ⟨host, d :: port, rfl, hhost, by simp, by simpa using hd⟩ h
  · rcases Text.exists_rpartition '@' server with hat | ⟨head, tail, rfl, htail⟩
    · exact parseServer_bare hhead hat
    · rw [parseServer_at hhead htail]
      exact (ServerNotation.atSign head tail).parsed _

section trailing
variable {junk : Text} (hhost : ']' ∉ host) (hjunk : junk ≠ [] ∧ junk.head? ≠ some ':')

include hjunk in
omit [UnicodeRepr] in
theorem not_accountsFor : ¬ AccountsFor ('[' :: (host ++ ']' :: junk)) (orLocalhost host) port := by
  rintro ⟨h, p, hn, hlocal, -⟩
  generalize hs : '[' :: (host ++ ']' :: junk) = server at hn
  cases hn with
  | host => exact not_unbracketed (hs.trans (List.append_nil _).symm) hlocal (by simp)
  | colon => exact not_unbracketed hs hlocal (by simp)
  | atSign => exact not_unbracketed hs hlocal (by simp)
  | bracket => exact not_bracketed hjunk hs hlocal (.inl rfl)
  | bracketColon => exact not_bracketed hjunk hs hlocal (.inr rfl)

include hhost hjunk in
theorem parseServer_trailing :
    parseServer ('[' :: (host ++ ']' :: junk)) = .ok (orLocalhost host, defaultPort) := by
  rw [parseServer_bracket hhost, if_neg hjunk.2]
  rfl

end trailing

theorem parsed_iff : Parsed server (parseServer server) ↔ ¬ Trailing server := by
  refine ⟨?_, parseServer_parsed⟩
  rintro hparsed ⟨host, junk, rfl, hhost, hjunk⟩
  rw [parseServer_trailing hhost hjunk] at hparsed
  rcases hparsed with ⟨m, hm⟩ | ⟨_, _, hok, haccounts⟩
  · cases hm
  · cases hok
    exact not_accountsFor hjunk haccounts

/-- The client has this host and port. -/
def Names (r : Except Exn Config) (host : Text) (port : Nat) : Prop :=
  ∃ cfg, r = .ok cfg ∧ cfg.host = host ∧ cfg.port = port

theorem fromServerString_eq (kwargs : Config) (timeout : Option Int) (tls : Option Bool) (server : Text) :
    fromServerString kwargs timeout tls server =
      (parseServer (Text.strip server)).map fun hp =>
        { kwargs with host := hp.1, port := hp.2, timeout, tls := tls.getD (hp.2 == tlsPort) } := by
  unfold fromServerString
  cases parseServer (Text.strip server) <;> rfl

theorem parsed_fromServerString :
    ((∃ m, fromServerString kwargs timeout tls server = .error (.valueError m)) ∨
        ∃ host port, Names (fromServerString kwargs timeout tls server) host port ∧
          AccountsFor (Text.strip server) host port) ↔
      Parsed (Text.strip server) (parseServer (Text.strip server)) := by
  rw [fromServerString_eq]
  cases parseServer (Text.strip server) with
  | error e => simp [Parsed, Names, Except.map]
  | ok hp =>
    obtain ⟨host, port⟩ := hp
    simp [Parsed, Names, Except.map]

/-! ### Notations read back -/

theorem portOrDefault_numeral (hport : 1 ≤ port ∧ port ≤ 65535) (whole : Text) :
    portOrDefault whole (Text.numeral 10 port) = .ok port := by
  have hlen : (Text.numeral 10 port).length ≤ Text.maxStrDigits :=
    Nat.le_trans (Text.length_numeral_le (k := 5) (by decide) (by decide) (by omega)) (by decide)
  have hne : (Text.numeral 10 port).isEmpty = false := by simpa using Text.numeral_ne_nil port
  unfold portOrDefault parsePort
  rw [hne, Text.intBase10_numeral hlen]
  simp only [Bool.false_eq_true, if_false]
  rw [if_pos (by omega)]
  rfl

theorem parseServer_bracketed (hne : host ≠ []) (hhost : ']' ∉ host) (hport : 1 ≤ port ∧ port ≤ 65535) :
    parseServer ('[' :: (host ++ ']' :: ':' :: Text.numeral 10 port)) = .ok (host, port) := by
  rw [parseServer_bracket hhost, List.head?_cons, if_pos rfl, List.tail_cons, portOrDefault_numeral hport,
    orLocalhost_of_ne_nil hne]
  rfl

theorem parseServer_atSign (hne : host ≠ []) (hhost : '[' ∉ host) (hport : 1 ≤ port ∧ port ≤ 65535) :
    parseServer (host ++ '@' :: Text.numeral 10 port) = .ok (host, port) := by
  have hhead : (host ++ '@' :: Text.numeral 10 port).head? ≠ some '[' := by
    rw [List.head?_append_of_ne_nil _ hne]
    exact fun h => hhost (List.mem_of_mem_head? h)
  have hat : '@' ∉ Text.numeral 10 port := by
    intro hmem
    obtain ⟨d, hd, heq⟩ := Text.exists_digit_of_mem_numeral (by decide) hmem
    have hdigit : ∀ d < 10, '@' ≠ Text.digitChar d := by decide
    exact hdigit d hd heq
  rw [parseServer_at hhead hat, portOrDefault_numeral hport, orLocalhost_of_ne_nil hne]
  rfl

theorem names_of_parseServer {whole : Text} (h : parseServer (Text.strip whole) = .ok (host, port)) :
    Names (fromServerString kwargs timeout tls whole) host port := by
  rw [fromServerString_eq, h]
  exact ⟨_, rfl, rfl, rfl⟩

/-- A server string is refused or accounted for, unless something other than a port follows its brackets; and the
two notations that take every host are read back. -/
theorem accountsFor_iff (kwargs : Config) (timeout : Option Int) (tls : Option Bool) :
    (∀ server, ((∃ m, fromServerString kwargs timeout tls server = .error (.valueError m)) ∨
        ∃ host port, Names (fromServerString kwargs timeout tls server) host port ∧
          AccountsFor (Text.strip server) host port) ↔
      ¬ Trailing (Text.strip server)) ∧
    ∀ host port, host ≠ [] → '[' ∉ host → ']' ∉ host → (∀ c ∈ host.head?, Text.isSpace c = false) →
      1 ≤ port → port ≤ 65535 →
      Names (fromServerString kwargs timeout tls ('[' :: (host ++ ']' :: ':' :: Text.numeral 10 port))) host port ∧
        Names (fromServerString kwargs timeout tls (host ++ '@' :: Text.numeral 10 port)) host port := by
  refine ⟨fun server => parsed_fromServerString.trans parsed_iff, ?_⟩
  intro host port hne hopen hclose hhead hlow hhigh
  have hbracketed := Text.strip_append_numeral (s := '[' :: (host ++ [']', ':']))
    (by simp [Text.isSpace]) (by simp) port
  have hat := Text.strip_append_numeral (s := host ++ ['@'])
    (by rwa [List.head?_append_of_ne_nil _ hne]) (by simp) port
  simp only [List.cons_append, List.append_assoc, List.nil_append] at hbracketed hat
  exact ⟨names_of_parseServer (by rw [hbracketed, parseServer_bracketed hne hclose ⟨hlow, hhigh⟩]),
    names_of_parseServer (by rw [hat, parseServer_atSign hne hopen ⟨hlow, hhigh⟩])⟩

end sound

/-- ASCII alone is printable. -/
abbrev UnicodeRepr.bare : UnicodeRepr := ⟨fun c => 32 ≤ c.toNat && c.toNat < 127, fun _ _ => rfl⟩

/-- Of `[::1]8080` the port is dropped. -/
theorem port_dropped :
    Names (@fromServerString Externals.bare.toUnicode UnicodeRepr.bare {} none none "[::1]8080".toList)
        "::1".toList defaultPort ∧
      ¬ ((∃ m, @fromServerString Externals.bare.toUnicode UnicodeRepr.bare {} none none "[::1]8080".toList =
          .error (.valueError m)) ∨
        ∃ host port,
          Names (@fromServerString Externals.bare.toUnicode UnicodeRepr.bare {} none none "[::1]8080".toList)
              host port ∧
            @AccountsFor Externals.bare.toUnicode (Text.strip "[::1]8080".toList) host port) := by
  let _ := Externals.bare
  let _ := UnicodeRepr.bare
  have hstrip : Text.strip "[::1]8080".toList = '[' :: ("::1".toList ++ ']' :: "8080".toList) := by decide
  refine ⟨names_of_parseServer ?_, fun h => ?_⟩
  · rw [hstrip]
    exact parseServer_trailing (by decide) (by decide)
  · refine parsed_iff.1 (parsed_fromServerString.1 h) ?_
    exact ⟨"::1".toList, "8080".toList, hstrip, by decide, by decide, by decide⟩

/-- `[::1]:18500` and `::1@18500`. -/
theorem accountsFor_ipv6 :
    Names (@fromServerString Externals.bare.toUnicode UnicodeRepr.bare {} none none "[::1]:18500".toList)
        "::1".toList 18500 ∧
      Names (@fromServerString Externals.bare.toUnicode UnicodeRepr.bare {} none none "::1@18500".toList)
        "::1".toList 18500 := by
  have h := (@accountsFor_iff Externals.bare.toUnicode UnicodeRepr.bare {} none none).2 "::1".toList 18500
    (by decide) (by decide) (by decide) (by rintro c ⟨⟩; rfl) (by decide) (by decide)
  have hnum : Text.numeral 10 18500 = "18500".toList := by decide
  rwa [hnum] at h

end SeedLink
