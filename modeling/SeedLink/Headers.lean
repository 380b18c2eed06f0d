import SeedLink.FrameBoundary
import SeedLink.RecordStream
import SeedLink.Resume

/-!
# The v3 headers that are accepted

The sequence number of a v3 header goes through the integer parser, whose language is larger than six
hexadecimal digits: white space around the number, a sign, a `0x` and underscores between the digits are all
taken (`intBase16_isSome_iff`). A header is read as the protocol has it exactly when its six bytes are not
such a literal (`readsHeaderV3_iff`).
-/

namespace SeedLink

/-! ### Integer literals -/

/-- Hexadecimal digits, one underscore allowed between two of them. -/
inductive HexNumeral : Bytes → Prop
  | digit {b : UInt8} (h : (hexDigit? b).isSome = true) : HexNumeral [b]
  | cons {b : UInt8} {digits : Bytes} (h : (hexDigit? b).isSome = true) (hd : HexNumeral digits) :
      HexNumeral (b :: digits)
  | underscore {b : UInt8} {digits : Bytes} (h : (hexDigit? b).isSome = true) (hd : HexNumeral digits) :
      HexNumeral (b :: 95 :: digits)

inductive Sign : Bytes → Prop
  | none : Sign []
  | plus : Sign [43]
  | minus : Sign [45]

/-- Nothing, `0x` or `0x_`. -/
inductive BasePrefix : Bytes → Prop
  | none : BasePrefix []
  | x {c : UInt8} (h : c = 120 ∨ c = 88) : BasePrefix [48, c]
  | underscore {c : UInt8} (h : c = 120 ∨ c = 88) : BasePrefix [48, c, 95]

/-- What the integer parser reads in base 16. -/
structure HexLiteral (buf : Bytes) : Prop where
  parts : ∃ before sign base digits after : Bytes, buf = before ++ (sign ++ (base ++ (digits ++ after))) ∧
    (∀ b ∈ before, isByteSpace b = true) ∧ Sign sign ∧ BasePrefix base ∧ HexNumeral digits ∧
    ∀ b ∈ after, isByteSpace b = true

theorem isByteSpace_plain {b : UInt8} (h : isByteSpace b = true) :
    (hexDigit? b).isSome = false ∧ b ≠ 95 ∧ b ≠ 120 ∧ b ≠ 88 ∧ b ≠ 43 ∧ b ≠ 45 := by
  have key : ∀ n < 256, isByteSpace (UInt8.ofNat n) = true → (hexDigit? (UInt8.ofNat n)).isSome = false ∧
      UInt8.ofNat n ≠ 95 ∧ UInt8.ofNat n ≠ 120 ∧ UInt8.ofNat n ≠ 88 ∧ UInt8.ofNat n ≠ 43 ∧ UInt8.ofNat n ≠ 45 := by
    decide +kernel
  have := key b.toNat b.toNat_lt
  rw [UInt8.ofNat_toNat] at this
  exact this h

namespace HexNumeral

theorem exists_head {digits : Bytes} (h : HexNumeral digits) :
    ∃ b rest, digits = b :: rest ∧ (hexDigit? b).isSome = true := by
  cases h with
  | digit h => exact ⟨_, _, rfl, h⟩
  | cons h _ => exact ⟨_, _, rfl, h⟩
  | underscore h _ => exact ⟨_, _, rfl, h⟩

/-- A digit is followed by a digit, an underscore or the end. -/
theorem second {b x : UInt8} {rest : Bytes} (h : HexNumeral (b :: x :: rest)) :
    (hexDigit? x).isSome = true ∨ x = 95 := by
  cases h with
  | cons _ hd =>
    obtain ⟨_, _, heq, hx⟩ := hd.exists_head
    cases heq
    exact .inl hx
  | underscore => exact .inr rfl

end HexNumeral

theorem hexDigits_digit {b : UInt8} {acc d : Nat} {underscore : Bool} {rest : Bytes} (h : hexDigit? b = some d) :
    hexDigits acc underscore (b :: rest) = hexDigits (acc * 16 + d) false rest := by
  have hne : b ≠ 95 := by
    rintro rfl
    cases h
  rw [hexDigits, if_neg hne, h]

/-- White space ends the digits. -/
theorem hexDigits_space {acc : Nat} {after : Bytes} (h : ∀ b ∈ after, isByteSpace b = true) :
    hexDigits acc false after = some (acc, after) := by
  cases after with
  | nil => rfl
  | cons b rest =>
    obtain ⟨hb, hne, -⟩ := isByteSpace_plain (h b List.mem_cons_self)
    rw [hexDigits, if_neg hne, Option.isSome_eq_false_iff.1 hb |> Option.isNone_iff_eq_none.1]
    rfl

theorem HexNumeral.hexDigits {digits after : Bytes} (h : HexNumeral digits)
    (hafter : ∀ b ∈ after, isByteSpace b = true) :
    ∀ acc underscore, ∃ n, hexDigits acc underscore (digits ++ after) = some (n, after) := by
  induction h with
  | digit h =>
    intro acc underscore
    obtain ⟨d, hd⟩ := Option.isSome_iff_exists.1 h
    exact ⟨_, (hexDigits_digit hd).trans (hexDigits_space hafter)⟩
  | cons h _ ih =>
    intro acc underscore
    obtain ⟨d, hd⟩ := Option.isSome_iff_exists.1 h
    obtain ⟨n, hn⟩ := ih (acc * 16 + d) false
    exact ⟨n, (hexDigits_digit hd).trans hn⟩
  | underscore h _ ih =>
    intro acc underscore
    obtain ⟨d, hd⟩ := Option.isSome_iff_exists.1 h
    obtain ⟨n, hn⟩ := ih (acc * 16 + d) true
    exact ⟨n, (hexDigits_digit hd).trans hn⟩

/-- The digits that have been read continue a numeral, behind an underscore or not. -/
theorem exists_of_hexDigits {n : Nat} {tail : Bytes} : ∀ {s : Bytes} {acc : Nat} {underscore : Bool},
    SeedLink.hexDigits acc underscore s = some (n, tail) → ∃ digits, s = digits ++ tail ∧
      ∀ b, (hexDigit? b).isSome = true → HexNumeral (if underscore then b :: 95 :: digits else b :: digits)
  | [], acc, underscore, h => by
    cases underscore with
    | true => cases h
    | false =>
      cases h
      exact ⟨[], rfl, fun b hb => .digit hb⟩
  | b :: rest, acc, underscore, h => by
    rw [SeedLink.hexDigits] at h
    split at h
    · rename_i hb
      cases underscore with
      | true => cases h
      | false =>
        obtain ⟨digits, rfl, hdigits⟩ := exists_of_hexDigits h
        exact ⟨95 :: digits, by rw [hb]; rfl, hdigits⟩
    split at h
    · rename_i d hd
      have hb : (hexDigit? b).isSome = true := by rw [hd]; rfl
      obtain ⟨digits, rfl, hdigits⟩ := exists_of_hexDigits h
      have hnumeral : HexNumeral (b :: digits) := hdigits b hb
      refine ⟨b :: digits, rfl, fun b' hb' => ?_⟩
      cases underscore with
      | true => exact .underscore hb' hnumeral
      | false => exact .cons hb' hnumeral
    · cases underscore with
      | true => cases h
      | false =>
        cases h
        exact ⟨[], rfl, fun b' hb' => .digit hb'⟩

theorem signAndPrefix_minus (s : Bytes) : (signAndPrefix (45 :: s)).2 = (signAndPrefix (43 :: s)).2 := by
  unfold signAndPrefix
  simp only
  split
  · split
    · split <;> rfl
    · rfl
  · rfl

theorem signAndPrefix_unsigned {s : Bytes} (hminus : s.head? ≠ some 45) (hplus : s.head? ≠ some 43) :
    signAndPrefix s = signAndPrefix (43 :: s) := by
  unfold signAndPrefix
  split
  rename_i negative t ht
  have ht' : negative = false ∧ t = s := by
    split at ht
    · exact absurd rfl hminus
    · exact absurd rfl hplus
    · cases ht
      exact ⟨rfl, rfl⟩
  obtain ⟨rfl, rfl⟩ := ht'
  rfl

/-- Behind the sign a `0x` is dropped. -/
theorem signAndPrefix_base {base digits after : Bytes} (hbase : BasePrefix base) (hd : HexNumeral digits)
    (hafter : ∀ b ∈ after, isByteSpace b = true) :
    (signAndPrefix (43 :: (base ++ (digits ++ after)))).2 = digits ++ after := by
  obtain ⟨b, rest, rfl, hb⟩ := hd.exists_head
  obtain ⟨-, -, -, hx, hX⟩ := hexDigit_plain hb
  cases hbase with
  | none =>
    -- the second character is no `x`
    have hsecond : ∀ x tail, rest ++ after = x :: tail → ¬ (x = 120 ∨ x = 88) := by
      intro x tail heq
      cases rest with
      | nil =>
        obtain ⟨-, -, hx, hX, -⟩ := isByteSpace_plain (hafter x (by rw [List.nil_append] at heq; simp [heq]))
        simp [hx, hX]
      | cons y rest =>
        cases heq
        rcases hd.second with hy | rfl
        · obtain ⟨-, -, -, hx, hX⟩ := hexDigit_plain hy
          simp [hx, hX]
        · decide
    unfold signAndPrefix
    simp only [List.nil_append, List.cons_append]
    split
    · rename_i x tail heq
      rw [if_neg (hsecond _ _ (List.cons.inj heq).2), heq]
    · rfl
  | x h =>
    have hb95 : b ≠ 95 := by
      rintro rfl
      cases hb
    unfold signAndPrefix
    simp only [List.cons_append, List.nil_append, if_pos h]
    split
    · rename_i heq
      cases heq
      exact absurd rfl hb95
    · rfl
  | underscore h =>
    unfold signAndPrefix
    simp only [List.cons_append, List.nil_append, if_pos h]

/-- A sign and a `0x` are all that is dropped. -/
theorem exists_of_signAndPrefix (s : Bytes) :
    ∃ sign base, s = sign ++ (base ++ (signAndPrefix s).2) ∧ Sign sign ∧ BasePrefix base := by
  have hbase : ∀ s, ∃ base, s = base ++ (signAndPrefix (43 :: s)).2 ∧ BasePrefix base := by
    intro s
    unfold signAndPrefix
    simp only
    split
    · rename_i x rest
      split
      · rename_i hx
        split
        · exact ⟨_, rfl, .underscore hx⟩
        · exact ⟨_, rfl, .x hx⟩
      · exact ⟨_, rfl, .none⟩
    · exact ⟨_, rfl, .none⟩
  by_cases hminus : s.head? = some 45
  · obtain ⟨rest, rfl⟩ := List.head?_eq_some_iff.1 hminus
    obtain ⟨base, hrest, hb⟩ := hbase rest
    refine ⟨[45], base, ?_, .minus, hb⟩
    rw [signAndPrefix_minus, ← hrest]
    rfl
  by_cases hplus : s.head? = some 43
  · obtain ⟨rest, rfl⟩ := List.head?_eq_some_iff.1 hplus
    obtain ⟨base, hrest, hb⟩ := hbase rest
    refine ⟨[43], base, ?_, .plus, hb⟩
    rw [← hrest]
    rfl
  · obtain ⟨base, hs, hb⟩ := hbase s
    refine ⟨[], base, ?_, .none, hb⟩
    rwa [signAndPrefix_unsigned hminus hplus]

/-- What a literal begins with behind its white space. -/
theorem HexNumeral.head_base {base digits : Bytes} (hbase : BasePrefix base) (hd : HexNumeral digits) (after : Bytes) :
    ∃ b rest, base ++ (digits ++ after) = b :: rest ∧ (hexDigit? b).isSome = true := by
  cases hbase with
  | none =>
    obtain ⟨b, rest, rfl, hb⟩ := hd.exists_head
    exact ⟨b, _, rfl, hb⟩
  | x => exact ⟨48, _, rfl, rfl⟩
  | underscore => exact ⟨48, _, rfl, rfl⟩

theorem signAndPrefix_literal {sign base digits after : Bytes} (hsign : Sign sign) (hbase : BasePrefix base)
    (hd : HexNumeral digits) (hafter : ∀ b ∈ after, isByteSpace b = true) :
    (signAndPrefix (sign ++ (base ++ (digits ++ after)))).2 = digits ++ after := by
  have hplus := signAndPrefix_base hbase hd hafter
  cases hsign with
  | plus => exact hplus
  | minus => exact (signAndPrefix_minus _).trans hplus
  | none =>
    obtain ⟨b, rest, heq, hb⟩ := hd.head_base hbase after
    obtain ⟨-, hb45, hb43, -⟩ := hexDigit_plain hb
    rw [List.nil_append, signAndPrefix_unsigned (by simp [heq, hb45]) (by simp [heq, hb43]), hplus]

/-- What `int()` takes in base 16. -/
theorem intBase16_isSome_iff {buf : Bytes} : (intBase16 buf).isSome = true ↔ HexLiteral buf := by
  constructor
  · intro h
    obtain ⟨n, hn⟩ := Option.isSome_iff_exists.1 h
    unfold intBase16 at hn
    simp only at hn
    split at hn
    · cases hn
    rename_i b rest hs
    split at hn
    · cases hn
    rename_i d hd
    split at hn
    · cases hn
    rename_i m tail hm
    split at hn
    · rename_i htail
      obtain ⟨digits, rfl, hdigits⟩ := exists_of_hexDigits hm
      have hnumeral : HexNumeral (b :: digits) := hdigits b (by rw [hd]; rfl)
      obtain ⟨sign, base, heq, hsign, hbase⟩ := exists_of_signAndPrefix (buf.dropWhile isByteSpace)
      rw [hs] at heq
      refine ⟨buf.takeWhile isByteSpace, sign, base, b :: digits, tail, ?_,
        fun b hb => List.mem_takeWhile_imp hb, hsign, hbase, hnumeral, List.all_eq_true.1 htail⟩
      rw [List.cons_append, ← heq, List.takeWhile_append_dropWhile]
    · cases hn
  · rintro ⟨before, sign, base, digits, after, rfl, hbefore, hsign, hbase, hd, hafter⟩
    have hdrop : (before ++ (sign ++ (base ++ (digits ++ after)))).dropWhile isByteSpace =
        sign ++ (base ++ (digits ++ after)) := by
      rw [List.dropWhile_append_of_pos hbefore]
      obtain ⟨b, rest, heq, hb⟩ := hd.head_base hbase after
      cases hsign with
      | none => rw [List.nil_append, heq, List.dropWhile_cons_of_neg (by rw [(hexDigit_plain hb).1]; decide)]
      | plus => rfl
      | minus => rfl
    obtain ⟨b, rest, rfl, hb⟩ := hd.exists_head
    obtain ⟨d, hd'⟩ := Option.isSome_iff_exists.1 hb
    obtain ⟨n, hn⟩ := hd.hexDigits hafter 0 false
    rw [List.cons_append, hexDigits_digit hd', Nat.zero_mul, Nat.zero_add] at hn
    have hread : (signAndPrefix ((before ++ (sign ++ (base ++ (b :: rest ++ after)))).dropWhile isByteSpace)).2 =
        b :: (rest ++ after) := by
      rw [hdrop, signAndPrefix_literal hsign hbase hd hafter]
      rfl
    unfold intBase16
    simp only [hread, hd', hn, List.all_eq_true.2 hafter, if_true, Option.isSome_some]

/-! ### Headers -/

theorem parseHeaderV3_take {buf : Bytes} (h : headsizeV3 ≤ buf.length) :
    parseHeaderV3 buf = parseHeaderV3 (buf.take headsizeV3) := by
  have hlen : (buf.take headsizeV3).length = headsizeV3 := by rw [List.length_take, Nat.min_eq_left h]
  have hsix : (buf.take headsizeV3).take 6 = buf.take 6 := by rw [List.take_take]; rfl
  have htwo : (buf.take headsizeV3).take 2 = buf.take 2 := by rw [List.take_take]; rfl
  have hdigits : ((buf.take headsizeV3).drop 2).take 6 = (buf.drop 2).take 6 := by
    rw [List.drop_take, List.take_take]; rfl
  have hflag : ((buf.take headsizeV3).drop 7).take 1 = (buf.drop 7).take 1 := by
    rw [List.drop_take, List.take_take]; rfl
  unfold parseHeaderV3
  rw [hlen, hsix, htwo, hdigits, hflag, if_neg (Nat.not_lt.2 h), if_neg (Nat.lt_irrefl _)]

/-- `SL` with six bytes that are an integer literal but not six digits. -/
def LooseHeader (buf : Bytes) : Prop :=
  ∃ six rest, buf = signatureV3 ++ (six ++ rest) ∧ six.length = 6 ∧ HexLiteral six ∧
    ¬ ∀ b ∈ six, (hexDigit? b).isSome = true

/-- The header is read as the protocol has it. -/
structure ReadsHeaderV3 (buf : Bytes) : Prop where
  ok_iff : (∃ header, parseHeaderV3 buf = .ok header) ↔ ∃ h : V3Header, buf.take headsizeV3 = h.encode
  value : ∀ digits hlen hex, buf.take headsizeV3 = (V3Header.data digits hlen hex).encode →
    parseHeaderV3 buf = .ok { seqnum := some (hexValue digits), isInfo := false, infoContinues := false } ∧
      hexValue digits < 2 ^ 24
  refused : (¬ ∃ h : V3Header, buf.take headsizeV3 = h.encode) →
    ∃ e, parseHeaderV3 buf = .error e ∧ e.isSeedLinkError = true

/-- What is accepted is `SLINFO` or `SL` with an integer literal. -/
theorem parseHeaderV3_ok_iff {buf : Bytes} (h : headsizeV3 ≤ buf.length) :
    (∃ header, parseHeaderV3 buf = .ok header) ↔
      buf.take 6 = infoSignatureV3 ∨ buf.take 2 = signatureV3 ∧ HexLiteral ((buf.drop 2).take 6) := by
  rw [← intBase16_isSome_iff]
  unfold parseHeaderV3
  rw [if_neg (Nat.not_lt.2 h)]
  by_cases hinfo : buf.take 6 = infoSignatureV3
  · rw [if_pos hinfo]
    exact ⟨fun _ => .inl hinfo, fun _ => ⟨_, rfl⟩⟩
  rw [if_neg hinfo]
  by_cases hsig : buf.take 2 = signatureV3
  · rw [if_pos hsig]
    cases hn : intBase16 ((buf.drop 2).take 6) with
    | none => simp [hinfo]
    | some n => simp [hsig]
  · rw [if_neg hsig]
    simp [hinfo, hsig]

/-- An `I` begins no literal. -/
theorem not_hexLiteral_info {rest : Bytes} : ¬ HexLiteral (73 :: rest) := by
  intro h
  cases intBase16_isSome_iff.2 h

theorem exists_encode_info {buf : Bytes} (h : headsizeV3 ≤ buf.length) (hinfo : buf.take 6 = infoSignatureV3) :
    ∃ b flag, buf.take headsizeV3 = (V3Header.info b flag).encode := by
  have hlen : (buf.drop 6).length = buf.length - 6 := List.length_drop
  have htail : ((buf.drop 6).take 2).length = 2 := by
    rw [List.length_take, hlen]
    unfold headsizeV3 at h
    omega
  obtain ⟨b, flag, hbytes⟩ := List.length_eq_two.1 htail
  refine ⟨b, flag, ?_⟩
  have : buf.take headsizeV3 = buf.take 6 ++ (buf.drop 6).take 2 := List.take_add (i := 6) (j := 2)
  rw [this, hinfo, hbytes]
  rfl

theorem exists_encode_data {buf : Bytes} (h : headsizeV3 ≤ buf.length) (hsig : buf.take 2 = signatureV3)
    (hhex : ∀ b ∈ (buf.drop 2).take 6, (hexDigit? b).isSome = true) :
    ∃ hlen, buf.take headsizeV3 = (V3Header.data ((buf.drop 2).take 6) hlen hhex).encode := by
  have hlen : ((buf.drop 2).take 6).length = 6 := by
    rw [List.length_take, List.length_drop]
    unfold headsizeV3 at h
    omega
  refine ⟨hlen, ?_⟩
  have : buf.take headsizeV3 = buf.take 2 ++ (buf.drop 2).take 6 := List.take_add (i := 2) (j := 6)
  rw [this, hsig]
  rfl

theorem looseHeader_iff {buf : Bytes} (h : headsizeV3 ≤ buf.length) :
    LooseHeader buf ↔ buf.take 2 = signatureV3 ∧ HexLiteral ((buf.drop 2).take 6) ∧
      ¬ ∀ b ∈ (buf.drop 2).take 6, (hexDigit? b).isSome = true := by
  constructor
  · rintro ⟨six, rest, rfl, hlen, hlit, hhex⟩
    have hsix : ((signatureV3 ++ (six ++ rest)).drop 2).take 6 = six := List.take_left' hlen
    rw [hsix]
    exact ⟨rfl, hlit, hhex⟩
  · rintro ⟨hsig, hlit, hhex⟩
    refine ⟨(buf.drop 2).take 6, buf.drop 8, ?_, ?_, hlit, hhex⟩
    · have hrest : buf.drop 8 = (buf.drop 2).drop 6 := by rw [List.drop_drop]
      rw [← hsig, hrest, List.take_append_drop, List.take_append_drop]
    · rw [List.length_take, List.length_drop]
      unfold headsizeV3 at h
      omega

/-- A header of eight bytes is read as the protocol has it exactly when its number is no other literal. -/
theorem readsHeaderV3_iff {buf : Bytes} (h : headsizeV3 ≤ buf.length) : ReadsHeaderV3 buf ↔ ¬ LooseHeader buf := by
  rw [looseHeader_iff h]
  constructor
  · rintro hr ⟨hsig, hlit, hhex⟩
    obtain ⟨header, henc⟩ := hr.ok_iff.1 ((parseHeaderV3_ok_iff h).2 (.inr ⟨hsig, hlit⟩))
    have hsix : (buf.drop 2).take 6 = header.encode.drop 2 := by rw [← henc, List.drop_take]; rfl
    rw [hsix] at hlit hhex
    cases header with
    | data digits hlen hex => exact hhex hex
    | info b flag => exact not_hexLiteral_info hlit
  · intro hloose
    have hencode : ∀ header : V3Header, buf.take headsizeV3 = header.encode →
        parseHeaderV3 buf = .ok header.parsed := by
      intro header henc
      rw [parseHeaderV3_take h, henc, parseHeaderV3_encode]
    have hok : (∃ header, parseHeaderV3 buf = .ok header) ↔ ∃ h : V3Header, buf.take headsizeV3 = h.encode := by
      refine ⟨fun hp => ?_, fun ⟨header, henc⟩ => ⟨_, hencode header henc⟩⟩
      rcases (parseHeaderV3_ok_iff h).1 hp with hinfo | ⟨hsig, hlit⟩
      · obtain ⟨b, flag, henc⟩ := exists_encode_info h hinfo
        exact ⟨_, henc⟩
      · have hhex := not_not.1 fun hhex => hloose ⟨hsig, hlit, hhex⟩
        obtain ⟨hlen, henc⟩ := exists_encode_data h hsig hhex
        exact ⟨_, henc⟩
    refine ⟨hok, fun digits hlen hex henc => ?_, fun hno => ?_⟩
    · have hp := hencode _ henc
      have hlt : (hexValue digits : Int) < 2 ^ 24 := seqnum_lt_of_parseHeaderV3 hp rfl
      exact ⟨hp, by exact_mod_cast hlt⟩
    · cases hp : parseHeaderV3 buf with
      | ok header => exact absurd (hok.1 ⟨header, hp⟩) hno
      | error e => exact ⟨e, rfl, parseHeaderV3_error hp⟩

/-- A sign is taken for a digit. -/
theorem readsHeaderV3_negative : parseHeaderV3 (Bytes.lit "SL-00001") =
      .ok { seqnum := some (-1), isInfo := false, infoContinues := false } ∧
    ¬ ReadsHeaderV3 (Bytes.lit "SL-00001") := by
  have hp : parseHeaderV3 (Bytes.lit "SL-00001") =
      .ok { seqnum := some (-1), isInfo := false, infoContinues := false } := rfl
  refine ⟨hp, fun hr => ?_⟩
  obtain ⟨header, henc⟩ := hr.ok_iff.1 ⟨_, hp⟩
  cases header with
  | data digits hlen hex =>
    have hdigits : digits = Bytes.lit "-00001" := (congrArg (List.drop 2) henc).symm
    have := hex 45 (by rw [hdigits]; decide)
    cases this
  | info b flag =>
    have := congrArg (·[2]?) henc
    cases this

theorem readsHeaderV3_digits : ReadsHeaderV3 (Bytes.lit "SL00002A") := by
  refine (readsHeaderV3_iff (by decide)).2 ?_
  rw [looseHeader_iff (by decide)]
  rintro ⟨-, -, hhex⟩
  have hall : (((Bytes.lit "SL00002A").drop 2).take 6).all (fun b => (hexDigit? b).isSome) = true := by decide
  exact hhex (List.all_eq_true.1 hall)

end SeedLink
