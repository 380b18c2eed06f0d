import SeedLink.Lib.Bytes

/-!
# UTF-8 in pieces

Decoding with replacement takes what has been encoded back (`decodeUtf8_encodeUtf8`). Text that is cut into
pieces is decoded piece by piece to itself exactly when every piece is text on its own: a cut inside a character
leaves continuation bytes at the start of a piece, each of which becomes a replacement of its own, so that more
characters come out than have gone in (`flatMap_decodeUtf8_eq_iff`).
-/

namespace Bytes

/-! ### Whole characters -/

theorem utf8Start_ascii {b : Nat} (h : b < 0x80) : utf8Start b = ([Char.ofNat b], none) := if_pos h

theorem utf8Start_two {b : Nat} (h : 0xC2 ≤ b) (h' : b ≤ 0xDF) :
    utf8Start b = ([], some ⟨b % 0x20, 1, 0x80, 0xBF⟩) := by
  unfold utf8Start
  rw [if_neg (by omega), if_pos ⟨h, h'⟩]

theorem utf8Start_three {b : Nat} (h : 0xE0 ≤ b) (h' : b ≤ 0xEF) : utf8Start b =
    ([], some ⟨b % 0x10, 2, if b = 0xE0 then 0xA0 else 0x80, if b = 0xED then 0x9F else 0xBF⟩) := by
  unfold utf8Start
  rw [if_neg (by omega), if_neg (by omega)]
  by_cases h0 : b = 0xE0
  · subst h0
    rfl
  by_cases hd : b = 0xED
  · subst hd
    rfl
  rw [if_neg h0, if_neg hd, if_pos (by omega), if_neg h0, if_neg hd]

theorem utf8Start_four {b : Nat} (h : 0xF0 ≤ b) (h' : b ≤ 0xF4) : utf8Start b =
    ([], some ⟨b % 8, 3, if b = 0xF0 then 0x90 else 0x80, if b = 0xF4 then 0x8F else 0xBF⟩) := by
  unfold utf8Start
  rw [if_neg (by omega), if_neg (by omega), if_neg (by omega), if_neg (by omega), if_neg (by omega)]
  by_cases h0 : b = 0xF0
  · subst h0
    rfl
  by_cases h4 : b = 0xF4
  · subst h4
    rfl
  rw [if_neg h0, if_pos (by omega), if_neg h0, if_neg h4]

theorem utf8Step_more {bits need lo hi b : Nat} (hlo : lo ≤ b) (hhi : b ≤ hi) (hneed : need ≠ 1) :
    utf8Step (some ⟨bits, need, lo, hi⟩) b = ([], some ⟨bits * 0x40 + b % 0x40, need - 1, 0x80, 0xBF⟩) := by
  simp only [utf8Step, if_pos (And.intro hlo hhi), if_neg hneed]

theorem utf8Step_last {bits lo hi b : Nat} (hlo : lo ≤ b) (hhi : b ≤ hi) :
    utf8Step (some ⟨bits, 1, lo, hi⟩) b = ([Char.ofNat (bits * 0x40 + b % 0x40)], none) := by
  simp only [utf8Step, if_pos (And.intro hlo hhi), if_true]

theorem utf8Loop_cons (p : Option Utf8Pending) (b : UInt8) (rest : Bytes) :
    utf8Loop p (b :: rest) = (utf8Step p b.toNat).1 ++ utf8Loop (utf8Step p b.toNat).2 rest := by
  cases p <;> rfl

theorem utf8Loop_start (b : UInt8) (rest : Bytes) :
    utf8Loop none (b :: rest) = (utf8Start b.toNat).1 ++ utf8Loop (utf8Start b.toNat).2 rest := rfl

theorem toNat_byte {n : Nat} (h : n < 256) : (UInt8.ofNat n).toNat = n := by
  rw [UInt8.toNat_ofNat', Nat.mod_eq_of_lt h]

/-- A character is read back from its bytes. -/
theorem utf8Loop_encodeChar (c : Char) (rest : Bytes) :
    utf8Loop none (String.utf8EncodeChar c ++ rest) = c :: utf8Loop none rest := by
  have hvalid : c.toNat < 0xD800 ∨ 0xDFFF < c.toNat ∧ c.toNat < 0x110000 := c.valid
  have hc : Char.ofNat c.toNat = c := Char.ofNat_toNat c
  have hv : c.val.toNat = c.toNat := rfl
  unfold String.utf8EncodeChar
  simp only [hv]
  generalize c.toNat = v at hvalid hc
  split
  · rw [List.singleton_append, utf8Loop_start, toNat_byte (by omega), utf8Start_ascii (by omega), hc]
    rfl
  split
  · simp only [List.cons_append, List.nil_append]
    rw [utf8Loop_start, toNat_byte (by omega), utf8Start_two (by omega) (by omega), List.nil_append, utf8Loop_cons,
      toNat_byte (by omega), utf8Step_last (by omega) (by omega)]
    have hbits : (v / 64 % 0x20 + 0xc0) % 0x20 * 0x40 + (v % 0x40 + 0x80) % 0x40 = v := by omega
    rw [hbits, hc]
    rfl
  split
  · simp only [List.cons_append, List.nil_append]
    rw [utf8Loop_start, toNat_byte (by omega), utf8Start_three (by omega) (by omega), List.nil_append, utf8Loop_cons,
      toNat_byte (by omega), utf8Step_more (by split <;> omega) (by split <;> omega) (by decide),
      List.nil_append, utf8Loop_cons, toNat_byte (by omega), utf8Step_last (by omega) (by omega)]
    have hbits : ((v / 4096 % 0x10 + 0xe0) % 0x10 * 0x40 + (v / 64 % 0x40 + 0x80) % 0x40) * 0x40 +
        (v % 0x40 + 0x80) % 0x40 = v := by omega
    rw [hbits, hc]
    rfl
  · simp only [List.cons_append, List.nil_append]
    rw [utf8Loop_start, toNat_byte (by omega), utf8Start_four (by omega) (by omega), List.nil_append, utf8Loop_cons,
      toNat_byte (by omega), utf8Step_more (by split <;> omega) (by split <;> omega) (by decide),
      List.nil_append, utf8Loop_cons, toNat_byte (by omega), utf8Step_more (by omega) (by omega) (by decide),
      List.nil_append, utf8Loop_cons, toNat_byte (by omega), utf8Step_last (by omega) (by omega)]
    have hbits : (((v / 262144 % 0x08 + 0xf0) % 8 * 0x40 + (v / 4096 % 0x40 + 0x80) % 0x40) * 0x40 +
        (v / 64 % 0x40 + 0x80) % 0x40) * 0x40 + (v % 0x40 + 0x80) % 0x40 = v := by omega
    rw [hbits, hc]
    rfl

/-- What has been encoded is decoded. -/
theorem decodeUtf8_encodeUtf8 (s : Text) : decodeUtf8 (encodeUtf8 s) = s := by
  unfold decodeUtf8 encodeUtf8
  induction s with
  | nil => rfl
  | cons c s ih => rw [List.flatMap_cons, utf8Loop_encodeChar, ih]

theorem encodeUtf8_append (s t : Text) : encodeUtf8 (s ++ t) = encodeUtf8 s ++ encodeUtf8 t := List.flatMap_append

theorem encodeUtf8_inj {s t : Text} (h : encodeUtf8 s = encodeUtf8 t) : s = t := by
  rw [← decodeUtf8_encodeUtf8 s, h, decodeUtf8_encodeUtf8]

/-! ### Pieces -/

/-- A byte inside a character. -/
def isContinuation (b : UInt8) : Bool := 0x80 ≤ b.toNat && b.toNat < 0xC0

/-- The bytes with which a character may begin. -/
def starts (l : Bytes) : Nat := l.countP (!isContinuation ·)

theorem starts_append (l l' : Bytes) : starts (l ++ l') = starts l + starts l' := List.countP_append

theorem starts_cons (b : UInt8) (l : Bytes) : starts (b :: l) = starts l + if isContinuation b then 0 else 1 := by
  cases h : isContinuation b <;> simp [starts, h]

/-- A character begins with its only byte that is no continuation. -/
theorem exists_encodeChar (c : Char) : ∃ b tail, String.utf8EncodeChar c = b :: tail ∧ isContinuation b = false ∧
    ∀ x ∈ tail, isContinuation x = true := by
  have hvalid : c.toNat < 0x110000 := by
    have : c.toNat < 0xD800 ∨ 0xDFFF < c.toNat ∧ c.toNat < 0x110000 := c.valid
    omega
  have hv : c.val.toNat = c.toNat := rfl
  have hstart : ∀ n, n < 0x80 ∨ 0xC0 ≤ n → n < 256 → isContinuation (UInt8.ofNat n) = false := by
    intro n hn hlt
    simp only [isContinuation, toNat_byte hlt, Bool.and_eq_false_iff, decide_eq_false_iff_not]
    omega
  have hcont : ∀ n, isContinuation (UInt8.ofNat (n % 0x40 + 0x80)) = true := by
    intro n
    have hlt : n % 0x40 + 0x80 < 256 := by omega
    simp only [isContinuation, toNat_byte hlt, Bool.and_eq_true, decide_eq_true_eq]
    omega
  unfold String.utf8EncodeChar
  simp only [hv]
  generalize c.toNat = v at hvalid
  split
  · exact ⟨_, _, rfl, hstart _ (by omega) (by omega), by simp⟩
  split
  · exact ⟨_, _, rfl, hstart _ (by omega) (by omega), List.forall_mem_singleton.2 (hcont _)⟩
  split
  · exact ⟨_, _, rfl, hstart _ (by omega) (by omega),
      List.forall_mem_cons.2 ⟨hcont _, List.forall_mem_singleton.2 (hcont _)⟩⟩
  · exact ⟨_, _, rfl, hstart _ (by omega) (by omega),
      List.forall_mem_cons.2 ⟨hcont _, List.forall_mem_cons.2 ⟨hcont _, List.forall_mem_singleton.2 (hcont _)⟩⟩⟩

theorem starts_encodeUtf8 (s : Text) : starts (encodeUtf8 s) = s.length := by
  induction s with
  | nil => rfl
  | cons c s ih =>
    obtain ⟨b, tail, henc, hb, htail⟩ := exists_encodeChar c
    have hnone : starts tail = 0 := List.countP_eq_zero.2 fun x hx => by simp [htail x hx]
    have hcons : encodeUtf8 (c :: s) = String.utf8EncodeChar c ++ encodeUtf8 s := rfl
    rw [hcons, starts_append, ih, henc, starts_cons, hnone, hb, List.length_cons]
    simp [Nat.add_comm]

/-- A character begun will be one character. -/
def owed : Option Utf8Pending → Nat
  | none => 0
  | some _ => 1

/-- Only continuations are waited for. -/
def Utf8Pending.Ok (p : Utf8Pending) : Prop := 0x80 ≤ p.lo ∧ p.hi ≤ 0xBF

/-- A first byte makes one character, now or later. -/
theorem utf8Start_spec (b : Nat) :
    (utf8Start b).1.length + owed (utf8Start b).2 = 1 ∧ ∀ p ∈ (utf8Start b).2, p.Ok := by
  have hbegun : ∀ bits need lo hi : Nat, 0x80 ≤ lo → hi ≤ 0xBF →
      ([] : Text).length + owed (some ⟨bits, need, lo, hi⟩) = 1 ∧
        ∀ p ∈ some (Utf8Pending.mk bits need lo hi), p.Ok := by
    intro bits need lo hi hlo hhi
    refine ⟨rfl, ?_⟩
    rintro p ⟨⟩
    exact ⟨hlo, hhi⟩
  have hdone : ∀ c : Char, [c].length + owed none = 1 ∧ ∀ p ∈ (none : Option Utf8Pending), p.Ok :=
    fun c => ⟨rfl, fun p hp => by cases hp⟩
  unfold utf8Start
  split
  · exact hdone _
  split
  · exact hbegun _ _ _ _ (by decide) (by decide)
  split
  · exact hbegun _ _ _ _ (by decide) (by decide)
  split
  · exact hbegun _ _ _ _ (by decide) (by decide)
  split
  · exact hbegun _ _ _ _ (by decide) (by decide)
  split
  · exact hbegun _ _ _ _ (by decide) (by decide)
  split
  · exact hbegun _ _ _ _ (by decide) (by decide)
  split
  · exact hbegun _ _ _ _ (by decide) (by decide)
  · exact hdone _

/-- A byte makes as many characters as it begins, and more where it continues nothing. -/
theorem utf8Step_spec {p : Option Utf8Pending} (hp : ∀ q ∈ p, q.Ok) (b : UInt8) :
    owed p + (if isContinuation b then 0 else 1) ≤
        (utf8Step p b.toNat).1.length + owed (utf8Step p b.toNat).2 ∧
      ∀ q ∈ (utf8Step p b.toNat).2, q.Ok := by
  obtain ⟨hone, hok⟩ := utf8Start_spec b.toNat
  cases p with
  | none =>
    refine ⟨?_, hok⟩
    show 0 + _ ≤ (utf8Start b.toNat).1.length + owed (utf8Start b.toNat).2
    rw [hone]
    split <;> omega
  | some p =>
    obtain ⟨hlo, hhi⟩ := hp p rfl
    simp only [utf8Step]
    by_cases hrange : p.lo ≤ b.toNat ∧ b.toNat ≤ p.hi
    · have hcont : isContinuation b = true := by
        simp only [isContinuation, Bool.and_eq_true, decide_eq_true_eq]
        omega
      rw [if_pos hrange, hcont]
      by_cases hneed : p.need = 1
      · rw [if_pos hneed]
        exact ⟨Nat.le_refl _, fun q hq => by cases hq⟩
      · rw [if_neg hneed]
        refine ⟨Nat.le_refl _, ?_⟩
        rintro q ⟨⟩
        exact ⟨Nat.le_refl _, Nat.le_refl _⟩
    · rw [if_neg hrange]
      refine ⟨?_, hok⟩
      simp only [List.length_cons, owed]
      simp only [owed] at hone
      split <;> omega

/-- No fewer characters come out than begin. -/
theorem starts_le_length_utf8Loop {p : Option Utf8Pending} (hp : ∀ q ∈ p, q.Ok) (l : Bytes) :
    owed p + starts l ≤ (utf8Loop p l).length := by
  induction l generalizing p with
  | nil => cases p <;> exact Nat.le_refl _
  | cons b rest ih =>
    obtain ⟨hstep, hok⟩ := utf8Step_spec hp b
    have := ih hok
    rw [utf8Loop_cons, List.length_append, starts_cons]
    omega

theorem starts_le_length (l : Bytes) : starts l ≤ (decodeUtf8 l).length := by
  have h := @starts_le_length_utf8Loop none (fun q hq => by cases hq) l
  rwa [owed, Nat.zero_add] at h

/-- More come out of a piece that begins inside a character. -/
theorem starts_lt_length {b : UInt8} (hb : isContinuation b = true) (l : Bytes) :
    starts (b :: l) < (decodeUtf8 (b :: l)).length := by
  obtain ⟨hone, hok⟩ := utf8Start_spec b.toNat
  have := starts_le_length_utf8Loop hok l
  rw [decodeUtf8, utf8Loop_start, List.length_append, starts_cons, hb]
  simp only [if_true]
  omega

/-- The bytes are text. -/
def IsUtf8 (l : Bytes) : Prop := ∃ t, encodeUtf8 t = l

/-- Text is cut between characters where no continuation follows. -/
theorem isUtf8_of_append {s : Text} {l l' : Bytes} (h : encodeUtf8 s = l ++ l')
    (hcut : ∀ b ∈ l'.head?, isContinuation b = false) : IsUtf8 l ∧ IsUtf8 l' := by
  induction s generalizing l with
  | nil =>
    obtain ⟨rfl, rfl⟩ := List.append_eq_nil_iff.1 h.symm
    exact ⟨⟨[], rfl⟩, ⟨[], rfl⟩⟩
  | cons c s ih =>
    obtain ⟨b, tail, henc, -, htail⟩ := exists_encodeChar c
    have hcons : encodeUtf8 (c :: s) = String.utf8EncodeChar c ++ encodeUtf8 s := rfl
    rw [hcons] at h
    rcases List.append_eq_append_iff.1 h with ⟨m, rfl, hm⟩ | ⟨m, hm, rfl⟩
    · obtain ⟨⟨t, rfl⟩, hl'⟩ := ih hm
      exact ⟨⟨c :: t, rfl⟩, hl'⟩
    · -- the cut is inside the bytes of `c`, or at their end
      cases m with
      | nil =>
        rw [List.append_nil] at hm
        exact ⟨⟨[c], by rw [← hm]; exact List.append_nil _⟩, ⟨s, rfl⟩⟩
      | cons x m =>
        cases l with
        | nil => exact ⟨⟨[], rfl⟩, ⟨c :: s, by rw [hcons, hm]; rfl⟩⟩
        | cons y l =>
          have hx : x ∈ tail := by
            rw [henc, List.cons_append, List.cons.injEq] at hm
            rw [hm.2]
            simp
          have hcont := htail x hx
          rw [hcut x rfl] at hcont
          cases hcont

/-- Pieces none of which begins inside a character are text each. -/
theorem isUtf8_of_flatten {pieces : List Bytes} {s : Text} (h : pieces.flatten = encodeUtf8 s)
    (hcut : ∀ l ∈ pieces, ∀ b ∈ l.head?, isContinuation b = false) : ∀ l ∈ pieces, IsUtf8 l := by
  induction pieces generalizing s with
  | nil => exact nofun
  | cons l pieces ih =>
    have hhead : ∀ b ∈ pieces.flatten.head?, isContinuation b = false := by
      intro b hb
      have hcut' := fun l hl => hcut l (List.mem_cons_of_mem _ hl)
      clear ih h hcut
      induction pieces with
      | nil => cases hb
      | cons l' pieces ih' =>
        cases l' with
        | nil => exact ih' hb fun l hl => hcut' l (List.mem_cons_of_mem _ hl)
        | cons x l' => exact hcut' (x :: l') List.mem_cons_self b hb
    obtain ⟨hl, t, ht⟩ := isUtf8_of_append (l := l) h.symm hhead
    intro l' hl'
    rcases List.mem_cons.1 hl' with rfl | hl'
    · exact hl
    · exact ih ht.symm (fun l hl => hcut l (List.mem_cons_of_mem _ hl)) l' hl'

theorem starts_flatten_le (pieces : List Bytes) : starts pieces.flatten ≤ (pieces.flatMap decodeUtf8).length := by
  induction pieces with
  | nil => exact Nat.le_refl _
  | cons l pieces ih =>
    have := starts_le_length l
    rw [List.flatten_cons, starts_append, List.flatMap_cons, List.length_append]
    omega

/-- Pieces of text are decoded to the text exactly when each of them is text. -/
theorem flatMap_decodeUtf8_eq_iff {pieces : List Bytes} {s : Text} (h : pieces.flatten = encodeUtf8 s) :
    pieces.flatMap decodeUtf8 = s ↔ ∀ l ∈ pieces, IsUtf8 l := by
  constructor
  · intro hs
    refine isUtf8_of_flatten h fun l hl b hb => ?_
    cases hcont : isContinuation b with
    | false => rfl
    | true =>
      -- more characters come out than begin
      obtain ⟨rest, rfl⟩ := List.head?_eq_some_iff.1 hb
      obtain ⟨before, after, rfl⟩ := List.append_of_mem hl
      have hlt := starts_lt_length hcont rest
      have hbefore := starts_flatten_le before
      have hafter := starts_flatten_le after
      have hstarts := starts_encodeUtf8 s
      rw [← h, ← hs, List.flatten_append, List.flatten_cons, List.flatMap_append, List.flatMap_cons, starts_append,
        starts_append, List.length_append, List.length_append] at hstarts
      omega
  · intro hall
    apply encodeUtf8_inj
    rw [← h]
    clear h
    induction pieces with
    | nil => rfl
    | cons l pieces ih =>
      obtain ⟨t, rfl⟩ := hall l List.mem_cons_self
      rw [List.flatMap_cons, encodeUtf8_append, List.flatten_cons, decodeUtf8_encodeUtf8,
        ih fun l hl => hall l (List.mem_cons_of_mem _ hl)]

end Bytes
