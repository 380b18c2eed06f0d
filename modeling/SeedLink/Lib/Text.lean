import Mathlib.Data.List.TakeWhile
import Mathlib.Data.Nat.Digits.Lemmas

/-!
# Text

Text is a list of characters. The string operations here are those of Python's `str`, under
their own names, with its notion of white space.
-/

abbrev Text := List Char

namespace Text

/-- The characters `str.split()` and `str.strip()` take for white space. -/
def isSpace (c : Char) : Bool :=
  let n := c.toNat
  (9 ≤ n && n ≤ 13) || (28 ≤ n && n ≤ 32) || n == 133 || n == 160 || n == 5760 ||
    (8192 ≤ n && n ≤ 8202) || n == 8232 || n == 8233 || n == 8239 || n == 8287 || n == 12288

def lstrip (s : Text) : Text := s.dropWhile isSpace

def rstrip (s : Text) : Text := (s.reverse.dropWhile isSpace).reverse

def strip (s : Text) : Text := rstrip (lstrip s)

/-- `s.rstrip(chars)`. -/
def rstripChars (chars s : Text) : Text := (s.reverse.dropWhile (chars.contains ·)).reverse

/-- `s.split()`. -/
def splitWords (s : Text) : List Text := (s.splitOnP isSpace).filter (!·.isEmpty)

/-- `s.split(None, 1)`. -/
def splitWord1 (s : Text) : List Text :=
  match lstrip s with
  | [] => []
  | c :: cs =>
    let rest := lstrip ((c :: cs).dropWhile (!isSpace ·))
    (c :: cs).takeWhile (!isSpace ·) :: if rest.isEmpty then [] else [rest]

/-- `s.partition(sep)` for a one-character separator: what stands before it, whether it was found,
and what stands after it. -/
def partition (sep : Char) (s : Text) : Text × Bool × Text :=
  match s.dropWhile (· ≠ sep) with
  | [] => (s, false, [])
  | _ :: rest => (s.takeWhile (· ≠ sep), true, rest)

/-- Text without the separator, then nothing or the separator. -/
theorem partition_append {sep : Char} {s t : Text} (hs : sep ∉ s) (ht : ∀ c ∈ t.head?, c = sep) :
    partition sep (s ++ t) = (s, !t.isEmpty, t.tail) := by
  have hall : ∀ c ∈ s, decide (c ≠ sep) = true := fun c hc => by simpa using fun h : c = sep => hs (h ▸ hc)
  unfold partition
  rw [List.dropWhile_append_of_pos hall, List.takeWhile_append_of_pos hall]
  cases t with
  | nil => simp
  | cons c t =>
    obtain rfl : c = sep := ht c rfl
    simp

/-- Every text is partitioned so. -/
theorem exists_partition (sep : Char) (s : Text) :
    ∃ a b, s = a ++ b ∧ sep ∉ a ∧ ∀ c ∈ b.head?, c = sep := by
  refine ⟨s.takeWhile (· ≠ sep), s.dropWhile (· ≠ sep), List.takeWhile_append_dropWhile.symm, fun h => ?_,
    fun c hc => ?_⟩
  · simpa using List.mem_takeWhile_imp h
  · have := List.head?_dropWhile_not (· ≠ sep) s
    rw [Option.mem_def.1 hc] at this
    simpa using this

/-- `s.rpartition(sep)` for a one-character separator: what stands before its last occurrence, whether it was
found, and what stands after. -/
def rpartition (sep : Char) (s : Text) : Text × Bool × Text :=
  match s.reverse.dropWhile (· ≠ sep) with
  | [] => ([], false, s)
  | _ :: head => (head.reverse, true, (s.reverse.takeWhile (· ≠ sep)).reverse)

theorem rpartition_append {sep : Char} {t : Text} (s : Text) (ht : sep ∉ t) :
    rpartition sep (s ++ sep :: t) = (s, true, t) := by
  have hrev : (s ++ sep :: t).reverse = t.reverse ++ (sep :: s.reverse) := by simp
  have hall : ∀ c ∈ t.reverse, decide (c ≠ sep) = true := fun c hc => by
    simpa using fun h : c = sep => ht (h ▸ List.mem_reverse.1 hc)
  unfold rpartition
  rw [hrev, List.dropWhile_append_of_pos hall, List.takeWhile_append_of_pos hall]
  simp

theorem rpartition_of_notMem {sep : Char} {s : Text} (h : sep ∉ s) : rpartition sep s = ([], false, s) := by
  have hall : s.reverse.dropWhile (· ≠ sep) = [] :=
    List.dropWhile_eq_nil_iff.2 fun c hc => by simpa using fun hce : c = sep => h (hce ▸ List.mem_reverse.1 hc)
  unfold rpartition
  rw [hall]

/-- Every text is without the separator or parted at its last occurrence. -/
theorem exists_rpartition (sep : Char) (s : Text) : sep ∉ s ∨ ∃ a b, s = a ++ sep :: b ∧ sep ∉ b := by
  by_cases h : sep ∈ s
  · obtain ⟨b, a, hs, hb⟩ := List.eq_append_cons_of_mem (List.mem_reverse.2 h)
    exact .inr ⟨a.reverse, b.reverse, by rw [← List.reverse_reverse s, hs]; simp, by simpa using hb⟩
  · exact .inl h

/-- `s.rsplit(sep, 1)`. -/
def rsplit1 (sep : Char) (s : Text) : List Text :=
  let (head, found, tail) := rpartition sep s
  if found then [head, tail] else [s]

/-- The first place at which `pat` occurs in `l`. -/
def findSub {α : Type} [DecidableEq α] (pat : List α) : List α → Option Nat
  | [] => if pat = [] then some 0 else none
  | a :: l => if pat.isPrefixOf (a :: l) then some 0 else (findSub pat l).map (· + 1)

section findSub
variable {α : Type} [DecidableEq α] {pat l : List α}

theorem findSub_eq_none : findSub pat l = none ↔ ∀ j, ¬ pat <+: l.drop j := by
  induction l with
  | nil => simp [findSub]
  | cons a l ih =>
    unfold findSub
    split
    · rename_i h
      exact ⟨(nomatch ·), fun h' => absurd (List.isPrefixOf_iff_prefix.1 h) (h' 0)⟩
    · rename_i h
      rw [Option.map_eq_none_iff, ih]
      refine ⟨fun h' j => ?_, fun h' j => h' (j + 1)⟩
      cases j with
      | zero => exact fun hp => h (List.isPrefixOf_iff_prefix.2 hp)
      | succ j => exact h' j

theorem findSub_eq_some {i : Nat} :
    findSub pat l = some i ↔ i ≤ l.length ∧ pat <+: l.drop i ∧ ∀ j < i, ¬ pat <+: l.drop j := by
  induction l generalizing i with
  | nil =>
    unfold findSub
    split
    · rename_i h
      subst h
      simp only [Option.some.injEq, List.length_nil, Nat.le_zero]
      exact ⟨fun h => ⟨h.symm, by simp, fun j hj => by omega⟩, fun h => h.1.symm⟩
    · rename_i h
      simp only [reduceCtorEq, List.drop_nil, List.prefix_nil, h, false_and, and_false]
  | cons a l ih =>
    unfold findSub
    split
    · rename_i h
      have hp := List.isPrefixOf_iff_prefix.1 h
      rw [Option.some.injEq]
      refine ⟨?_, fun h' => ?_⟩
      · rintro rfl
        exact ⟨Nat.zero_le _, hp, fun j hj => by omega⟩
      · by_contra hne
        exact h'.2.2 0 (Nat.pos_of_ne_zero fun h0 => hne h0.symm) hp
    · rename_i h
      have hp : ¬ pat <+: a :: l := fun hp => h (List.isPrefixOf_iff_prefix.2 hp)
      cases i with
      | zero =>
        simp only [Option.map_eq_some_iff, Nat.add_eq_zero_iff, one_ne_zero, and_false, exists_false,
          List.drop_zero, hp, false_and]
      | succ i =>
        have hsucc : (findSub pat l).map (· + 1) = some (i + 1) ↔ findSub pat l = some i := by
          cases findSub pat l <;> simp
        rw [hsucc, ih]
        simp only [List.length_cons, Nat.add_le_add_iff_right, List.drop_succ_cons]
        refine and_congr_right fun _ => and_congr_right fun _ => ⟨fun h' j hj => ?_, fun h' j hj => ?_⟩
        · cases j with
          | zero => exact hp
          | succ j => exact h' j (by omega)
        · exact h' (j + 1) (by omega)

/-- A search may start behind places where nothing occurs. -/
theorem findSub_drop {k : Nat} (hk : k ≤ l.length) (h : ∀ j < k, ¬ pat <+: l.drop j) :
    findSub pat l = (findSub pat (l.drop k)).map (· + k) := by
  cases hf : findSub pat (l.drop k) with
  | none =>
    rw [findSub_eq_none] at hf
    rw [Option.map_none, findSub_eq_none]
    intro j
    by_cases hj : j < k
    · exact h j hj
    · have := hf (j - k)
      rwa [List.drop_drop, Nat.add_sub_cancel' (by omega)] at this
  | some i =>
    rw [findSub_eq_some] at hf
    obtain ⟨hle, hp, hmin⟩ := hf
    rw [List.length_drop] at hle
    rw [List.drop_drop] at hp
    rw [Option.map_some, findSub_eq_some]
    refine ⟨by omega, by rwa [Nat.add_comm i k], fun j hj => ?_⟩
    by_cases hjk : j < k
    · exact h j hjk
    · have := hmin (j - k) (by omega)
      rwa [List.drop_drop, Nat.add_sub_cancel' (by omega)] at this

theorem findSub_append {i : Nat} (h : findSub pat l = some i) (t : List α) :
    findSub pat (l ++ t) = some i := by
  rw [findSub_eq_some] at h ⊢
  obtain ⟨hle, hp, hmin⟩ := h
  have hlen := hp.length_le
  rw [List.length_drop] at hlen
  refine ⟨by rw [List.length_append]; omega, ?_, fun j hj hp' => hmin j hj ?_⟩
  · rw [List.drop_append_of_le_length hle]
    exact hp.trans (List.prefix_append _ _)
  · rw [List.drop_append_of_le_length (by omega)] at hp'
    exact List.prefix_of_prefix_length_le hp' (List.prefix_append _ _) (by rw [List.length_drop]; omega)

end findSub

/-- What stands in joined parts is the separator's or one part's. -/
theorem mem_of_mem_intercalate {α : Type} {sep : List α} {a : α} {parts : List (List α)}
    (h : a ∈ List.intercalate sep parts) : a ∈ sep ∨ ∃ p ∈ parts, a ∈ p := by
  induction parts with
  | nil => exact absurd h List.not_mem_nil
  | cons p parts ih =>
    cases parts with
    | nil => exact .inr ⟨p, List.mem_cons_self, by simpa [List.intercalate] using h⟩
    | cons q parts =>
      rw [List.intercalate_cons_cons, List.append_assoc, List.mem_append, List.mem_append] at h
      rcases h with h | h | h
      · exact .inr ⟨p, List.mem_cons_self, h⟩
      · exact .inl h
      · exact (ih h).imp_right fun ⟨r, hr, har⟩ => ⟨r, List.mem_cons_of_mem _ hr, har⟩

/-- The characters of the digits, for bases up to 16. -/
def digitChar (d : Nat) : Char := "0123456789ABCDEF".toList.getD d '0'

/-- The numeral of `n` in base `b`, most significant digit first. -/
def numeral (b n : Nat) : Text :=
  if n = 0 then ['0'] else (Nat.digits b n).reverse.map digitChar

/-- The numeral of an integer, with its sign. -/
def intNumeral (b : Nat) : Int → Text
  | .ofNat n => numeral b n
  | .negSucc n => '-' :: numeral b (n + 1)

theorem digitChar_inj {d d' : Nat} (h : d < 16) (h' : d' < 16) (hd : digitChar d = digitChar d') :
    d = d' := by
  have key : ∀ i < 16, ∀ j < 16, digitChar i = digitChar j → i = j := by decide
  exact key d h d' h' hd

theorem digitChar_ne_zero {d : Nat} (h : d < 16) (hd : digitChar d = '0') : d = 0 :=
  digitChar_inj h (by decide) hd

/-- A digit is neither white space nor a sign. -/
theorem digitChar_plain (d : Nat) : isSpace (digitChar d) = false ∧ digitChar d ≠ '-' := by
  have key : ∀ i < 16, isSpace (digitChar i) = false ∧ digitChar i ≠ '-' := by decide
  by_cases h : d < 16
  · exact key d h
  · have : digitChar d = '0' := by
      have hlen : "0123456789ABCDEF".toList.length ≤ d := Nat.le_of_not_lt h
      simp only [digitChar, List.getD, List.getElem?_eq_none hlen, Option.getD_none]
    rw [this]; decide

section numerals
variable {b : Nat}

theorem numeral_ne_nil (n : Nat) : numeral b n ≠ [] := by
  unfold numeral
  split
  · simp
  · simpa [Nat.digits_eq_nil_iff_eq_zero] using ‹¬ n = 0›

theorem exists_digit_of_mem_numeral (hb : 1 < b) {n : Nat} {c : Char} (h : c ∈ numeral b n) :
    ∃ d < b, c = digitChar d := by
  unfold numeral at h
  split at h
  · exact ⟨0, by omega, List.mem_singleton.1 h⟩
  · obtain ⟨d, hd, rfl⟩ := List.mem_map.1 h
    exact ⟨d, Nat.digits_lt_base hb (List.mem_reverse.1 hd), rfl⟩

theorem length_numeral_le (hb : 1 < b) {n k : Nat} (hk : 0 < k) (h : n < b ^ k) : (numeral b n).length ≤ k := by
  unfold numeral
  split
  · exact hk
  · rw [List.length_map, List.length_reverse]
    exact (Nat.digits_length_le_iff hb n).2 h

theorem numeral_inj (hb : 1 < b) (hb' : b ≤ 16) {n m : Nat} (h : numeral b n = numeral b m) : n = m := by
  have hdig : ∀ k, ∀ d ∈ Nat.digits b k, d < 16 := fun k d hd =>
    Nat.lt_of_lt_of_le (Nat.digits_lt_base hb hd) hb'
  have hmap : ∀ l l' : List Nat, (∀ d ∈ l, d < 16) → (∀ d ∈ l', d < 16) →
      l.map digitChar = l'.map digitChar → l = l' := by
    intro l
    induction l with
    | nil => intro l' _ _ h; simpa [eq_comm] using h
    | cons d l ih =>
      intro l' hl hl' h
      cases l' with
      | nil => simp at h
      | cons d' l' =>
        simp only [List.map_cons, List.cons.injEq] at h
        rw [digitChar_inj (hl d (by simp)) (hl' d' (by simp)) h.1,
          ih l' (fun x hx => hl x (by simp [hx])) (fun x hx => hl' x (by simp [hx])) h.2]
  -- a numeral of a positive number does not start with zero
  have hpos : ∀ k, k ≠ 0 → (Nat.digits b k).reverse.map digitChar ≠ ['0'] := by
    intro k hk h0
    have hlen : (Nat.digits b k).length = 1 := by simpa using congrArg List.length h0
    obtain ⟨d, hd⟩ := List.length_eq_one_iff.1 hlen
    have h1 : digitChar d = '0' := by simpa [hd] using h0
    have h2 := digitChar_ne_zero (hdig k d (by simp [hd])) h1
    have := Nat.ofDigits_digits b k
    rw [hd, h2] at this
    exact hk (by simpa using this.symm)
  unfold numeral at h
  split at h <;> split at h
  · omega
  · exact absurd h.symm (hpos m ‹_›)
  · exact absurd h (hpos n ‹_›)
  · have := hmap _ _ (fun d hd => hdig n d (by simpa using hd))
      (fun d hd => hdig m d (by simpa using hd)) h
    exact Nat.digits_inj_iff.1 (List.reverse_inj.1 this)

theorem intNumeral_inj (hb : 1 < b) (hb' : b ≤ 16) {n m : Int} (h : intNumeral b n = intNumeral b m) :
    n = m := by
  have hsign : ∀ k, ∀ l, numeral b k ≠ '-' :: l := by
    intro k l hk
    have hmem : '-' ∈ numeral b k := by rw [hk]; simp
    unfold numeral at hmem
    split at hmem
    · simp at hmem
    · obtain ⟨d, -, hd⟩ := List.mem_map.1 hmem
      exact (digitChar_plain d).2 hd
  cases n <;> cases m <;> simp only [intNumeral, List.cons.injEq, true_and] at h
  · rw [numeral_inj hb hb' h]
  · exact absurd h (hsign _ _)
  · exact absurd h.symm (hsign _ _)
  · have := numeral_inj hb hb' h
    congr 1; omega

end numerals

end Text
