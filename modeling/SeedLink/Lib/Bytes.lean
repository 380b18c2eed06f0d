import SeedLink.Lib.Text

/-!
# Bytes

Byte strings as lists, little-endian integers, ASCII and UTF-8 text.
-/

abbrev Bytes := List UInt8

namespace Bytes

/-! ### Little-endian integers -/

/-- The number the bytes spell, least significant byte first. -/
def leNat : Bytes → Nat
  | [] => 0
  | b :: bs => b.toNat + 256 * leNat bs

/-- The `k` low bytes of `n`, least significant first. -/
def leBytes : Nat → Nat → Bytes
  | 0, _ => []
  | k + 1, n => UInt8.ofNat (n % 256) :: leBytes k (n / 256)

@[simp] theorem length_leBytes (k n : Nat) : (leBytes k n).length = k := by
  induction k generalizing n with
  | zero => rfl
  | succ k ih => simp [leBytes, ih]

theorem leNat_leBytes {k n : Nat} (h : n < 256 ^ k) : leNat (leBytes k n) = n := by
  induction k generalizing n with
  | zero => simp only [Nat.pow_zero] at h; simp only [leBytes, leNat]; omega
  | succ k ih =>
    have hdiv : n / 256 < 256 ^ k := by rw [Nat.pow_succ] at h; omega
    simp only [leBytes, leNat, ih hdiv, UInt8.toNat_ofNat']
    omega

theorem leNat_lt (l : Bytes) : leNat l < 256 ^ l.length := by
  induction l with
  | nil => exact Nat.one_pos
  | cons b l ih =>
    have := b.toNat_lt
    rw [List.length_cons, Nat.pow_succ]
    simp only [leNat]
    omega

/-! ### ASCII -/

def isAscii (b : UInt8) : Bool := b.toNat < 128

/-- `bytes.decode("ascii")`, `none` for `UnicodeDecodeError`. -/
def decodeAscii (l : Bytes) : Option Text :=
  if l.all isAscii then some (l.map fun b => Char.ofNat b.toNat) else none

/-- `str.encode("ascii")`, `none` for `UnicodeEncodeError`. -/
def encodeAscii (s : Text) : Option Bytes :=
  if s.all (·.toNat < 128) then some (s.map fun c => UInt8.ofNat c.toNat) else none

/-- The bytes of a literal. -/
def lit (s : String) : Bytes := s.toList.map fun c => UInt8.ofNat c.toNat

theorem decodeAscii_of_ascii {l : Bytes} (h : ∀ b ∈ l, b.toNat < 128) :
    decodeAscii l = some (l.map fun b => Char.ofNat b.toNat) := by
  simp only [decodeAscii, List.all_eq_true, isAscii, decide_eq_true_eq]
  exact if_pos h

theorem decodeAscii_eq_none_iff {l : Bytes} : decodeAscii l = none ↔ ∃ b ∈ l, 128 ≤ b.toNat := by
  simp [decodeAscii, isAscii]

theorem encodeAscii_eq_some {s : Text} {b : Bytes} : encodeAscii s = some b ↔
    (∀ c ∈ s, c.toNat < 128) ∧ b = s.map fun c => UInt8.ofNat c.toNat := by
  simp only [encodeAscii, List.all_eq_true, decide_eq_true_eq]
  constructor
  · intro h
    split at h
    · rename_i hs
      cases h
      exact ⟨hs, rfl⟩
    · cases h
  · rintro ⟨hs, rfl⟩
    exact if_pos hs

theorem encodeAscii_append {s t : Text} {b : Bytes} (h : encodeAscii (s ++ t) = some b) :
    ∃ b₁ b₂, encodeAscii s = some b₁ ∧ encodeAscii t = some b₂ ∧ b = b₁ ++ b₂ := by
  rw [encodeAscii_eq_some, List.map_append] at h
  obtain ⟨hst, rfl⟩ := h
  exact ⟨_, _, encodeAscii_eq_some.2 ⟨fun c hc => hst c (List.mem_append_left _ hc), rfl⟩,
    encodeAscii_eq_some.2 ⟨fun c hc => hst c (List.mem_append_right _ hc), rfl⟩, rfl⟩

theorem decodeAscii_of_encodeAscii {s : Text} {b : Bytes} (h : encodeAscii s = some b) :
    decodeAscii b = some s := by
  obtain ⟨hs, rfl⟩ := encodeAscii_eq_some.1 h
  have hbyte : ∀ c ∈ s, (UInt8.ofNat c.toNat).toNat = c.toNat := fun c hc => by
    rw [UInt8.toNat_ofNat']
    have := hs c hc
    omega
  rw [decodeAscii_of_ascii, List.map_map, Option.some.injEq]
  · refine (List.map_congr_left fun c hc => ?_).trans s.map_id
    show Char.ofNat (UInt8.ofNat c.toNat).toNat = c
    rw [hbyte c hc, Char.ofNat_toNat]
  · intro b hb
    obtain ⟨c, hc, rfl⟩ := List.mem_map.1 hb
    rw [hbyte c hc]
    exact hs c hc

theorem encodeAscii_inj {s t : Text} {b : Bytes} (hs : encodeAscii s = some b)
    (ht : encodeAscii t = some b) : s = t :=
  Option.some.inj ((decodeAscii_of_encodeAscii hs).symm.trans (decodeAscii_of_encodeAscii ht))

/-! ### UTF-8 with replacement -/

/-- A multi-byte character begun: its bits so far, the continuation bytes it still needs and the
range the next one must lie in. -/
structure Utf8Pending where
  bits : Nat
  need : Nat
  lo : Nat
  hi : Nat

def replacement : Char := Char.ofNat 0xFFFD

/-- The first byte of a character. -/
def utf8Start (b : Nat) : Text × Option Utf8Pending :=
  if b < 0x80 then ([Char.ofNat b], none)
  else if 0xC2 ≤ b ∧ b ≤ 0xDF then ([], some ⟨b % 0x20, 1, 0x80, 0xBF⟩)
  else if b = 0xE0 then ([], some ⟨b % 0x10, 2, 0xA0, 0xBF⟩)
  else if b = 0xED then ([], some ⟨b % 0x10, 2, 0x80, 0x9F⟩)
  else if 0xE1 ≤ b ∧ b ≤ 0xEF then ([], some ⟨b % 0x10, 2, 0x80, 0xBF⟩)
  else if b = 0xF0 then ([], some ⟨b % 8, 3, 0x90, 0xBF⟩)
  else if 0xF1 ≤ b ∧ b ≤ 0xF3 then ([], some ⟨b % 8, 3, 0x80, 0xBF⟩)
  else if b = 0xF4 then ([], some ⟨b % 8, 3, 0x80, 0x8F⟩)
  else ([replacement], none)

/-- One byte: the characters it completes and what is then begun. A byte that does not continue
the character begun replaces it, and is itself read as a first byte. -/
def utf8Step (p : Option Utf8Pending) (b : Nat) : Text × Option Utf8Pending :=
  match p with
  | none => utf8Start b
  | some p =>
    if p.lo ≤ b ∧ b ≤ p.hi then
      let bits := p.bits * 0x40 + b % 0x40
      if p.need = 1 then ([Char.ofNat bits], none) else ([], some ⟨bits, p.need - 1, 0x80, 0xBF⟩)
    else
      let r := utf8Start b
      (replacement :: r.1, r.2)

def utf8Loop : Option Utf8Pending → Bytes → Text
  | none, [] => []
  | some _, [] => [replacement]
  | p, b :: rest => (utf8Step p b.toNat).1 ++ utf8Loop (utf8Step p b.toNat).2 rest

/-- `bytes.decode("utf-8", errors="replace")`. -/
def decodeUtf8 (l : Bytes) : Text := utf8Loop none l

/-- `str.encode("utf-8")`. -/
def encodeUtf8 (s : Text) : Bytes := s.flatMap String.utf8EncodeChar

end Bytes
