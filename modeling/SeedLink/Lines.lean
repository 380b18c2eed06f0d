import SeedLink.Capacity
import SeedLink.RoundTrip

/-!
# Reply lines (`_read_line`)

A line is read up to its terminator whatever comes behind it: no read is made for bytes or events of the rest,
and the buffer does not grow (`wp_readLine_line`). A stream without a terminator is given up once it is as long
as a line may be (`wp_readLine_endless`).
-/

namespace SeedLink

open StateExc Client

/-! ### Terminators -/

theorem not_crlf_drop {l : Bytes} (h : ¬ crlf <:+: l) (j : Nat) : ¬ crlf <+: l.drop j :=
  fun hp => h (hp.isInfix.trans (List.drop_suffix j l).isInfix)

section lines
variable {c : Client} {line : Text} {l r s : Bytes} {later : List Recv}

/-! ### A line and what follows it -/

/-- The line is read, and nothing of what follows. -/
theorem wp_readLine_line {E : Stop → Client → Prop} (h : c.Feeds (l ++ crlf ++ r) later)
    (hline : Bytes.encodeAscii line = some l) (hcrlf : ¬ crlf <:+: l) (hshort : l.length + 2 ≤ maxLineLen) :
    wp readLine (fun line' c' => line' = line ∧ c'.Feeds r later ∧ c'.core = c.core) E c := by
  have hfind := findSub_crlf_append (not_crlf_drop hcrlf) r
  have htake : (l ++ crlf ++ r).take l.length = l := by rw [List.append_assoc, List.take_left]
  have hdrop : (l ++ crlf ++ r).drop (l.length + 2) = r := List.drop_left' (by rw [List.length_append]; rfl)
  refine wp_readLine_feeds h hfind hshort (?_ : _ = some line) fun c' h' hc' => ⟨rfl, hdrop ▸ h', hc'⟩
  rw [htake]
  exact Bytes.decodeAscii_of_encodeAscii hline

/-- A line fits in the buffer as it is. -/
theorem capacity_readLine (h : c.rb.WF) : wp readLine (fun _ c' => c'.capacity ≤ c.capacity) (fun _ _ => True) c := by
  refine wp_mono (within_readLine (Nat.le_refl recvBufSize) (by decide) c) (fun _ c' hw => ?_) fun _ _ _ => trivial
  have hsize : recvBufSize ≤ c.capacity := h.size_ge
  obtain ⟨-, heq | hle⟩ := hw hsize
  · exact heq.le
  · exact hle.trans hsize

/-! ### No terminator -/

def overlong : Exn := seedLinkError s!"Reply line exceeds {maxLineLen} bytes with no terminator"

/-- The bytes seen so far start no terminator, so the scan goes on until they are too many. No read asks for more
than the bytes that a line may have. -/
theorem wp_readLineLoop_endless (hs : ¬ crlf <:+: s) (hlong : maxLineLen ≤ s.length) :
    ∀ (fuel searchFrom : Nat) (c₁ : Client), c₁.Feeds s later → c₁.core = c.core → searchFrom ≤ c₁.rb.available →
      maxLineLen + 1 ≤ fuel + min c₁.rb.available maxLineLen →
      wp (readLineLoop fuel searchFrom) (fun _ _ => False)
        (fun stop c' => stop = .raised overlong ∧ c'.core = c.closed.core) c₁
  | 0, _, c₁, _, _, _, hfuel => by omega
  | fuel + 1, searchFrom, c₁, h₁, hc₁, hfrom, hfuel => by
    have hunread : ¬ crlf <:+: c₁.rb.unread := fun hu => hs (hu.trans h₁.unread_prefix.isInfix)
    have hnone : Text.findSub crlf c₁.rb.unread = none := Text.findSub_eq_none.2 (not_crlf_drop hunread)
    simp only [readLineLoop, wp_bind, wp_get]
    rw [scanLine_eq h₁.wf hfrom fun j _ => not_crlf_drop hunread j, hnone]
    by_cases hfull : c₁.rb.available ≥ maxLineLen
    · simp only [hfull, if_true, wp_bind, wp_close, wp_raise]
      exact ⟨rfl, closed_core_of_core hc₁⟩
    · simp only [hfull, if_false, wp_bind]
      refine wp_ensure_feeds h₁ (by omega) fun c₂ h₂ hc₂ hav => ?_
      exact wp_readLineLoop_endless hs hlong fuel _ c₂ h₂ (hc₂.trans hc₁) (by omega) (by omega)

theorem wp_readLine_endless (h : c.Feeds s later) (hs : ¬ crlf <:+: s) (hlong : maxLineLen ≤ s.length) :
    wp readLine (fun _ _ => False) (fun stop c' => stop = .raised overlong ∧ c'.core = c.closed.core) c :=
  wp_readLineLoop_endless hs hlong _ 0 c h rfl (Nat.zero_le _) (by omega)

end lines

/-- A short ASCII line is read, and what follows it, whatever it is, stays; where no line ends the connection
does. -/
theorem readLine_returns_or_closes :
    (∀ (c : Client) (line : Text) (l r : Bytes) (later : List Recv), c.Feeds (l ++ crlf ++ r) later →
      Bytes.encodeAscii line = some l → ¬ crlf <:+: l → l.length ≤ maxLineLen - 2 →
      ∃ c', readLine c = .ok line c' ∧ c'.Feeds r later ∧ c'.stream = r ++ delivered later ∧
        c'.capacity ≤ c.capacity) ∧
    ∀ (c : Client) (s : Bytes) (later : List Recv), c.Feeds s later → ¬ crlf <:+: s → maxLineLen ≤ s.length →
      ∃ message c', readLine c = .error (.raised (seedLinkError message)) c' ∧ c'.sock = none := by
  refine ⟨fun c line l r later h hline hcrlf hshort => ?_, fun c s later h hs hlong => ?_⟩
  · have hlen : l.length + 2 ≤ maxLineLen := by
      have hmax : maxLineLen = 8192 := rfl
      omega
    obtain ⟨line', c', hrun, rfl, hfeeds, -⟩ := wp_exists (wp_readLine_line h hline hcrlf hlen)
    exact ⟨c', hrun, hfeeds, hfeeds.stream, wp_ok (Q := fun _ c' => c'.capacity ≤ c.capacity) (capacity_readLine h.wf) hrun⟩
  · obtain ⟨stop, c', hrun, rfl, hcore⟩ := wp_exists_error (wp_readLine_endless h hs hlong)
    exact ⟨_, c', hrun, sock_eq_none_of_closed hcore⟩

/-- A client before these events. -/
theorem feeds_listening (protocol : Protocol) {incoming : List Recv} (h : ∀ ev ∈ incoming, ev.Benign true) :
    (Client.listening protocol incoming).Feeds (delivered incoming) [] :=
  ⟨[], incoming, ⟨RecvBuf.wf_fresh, RecvBuf.unread_fresh, _, rfl, (List.append_nil _).symm⟩, h, rfl⟩

/-- The terminator comes in two reads, and `END` with its second byte; then the letter `A`, 8192 times. -/
theorem readLine_cut :
    (∃ c', readLine (.listening .v3 [.data [79, 75, 13], .data [10, 69, 78, 68]]) = .ok "OK".toList c' ∧
      c'.stream = [69, 78, 68]) ∧
    ∃ message c', readLine (.listening .v3 [.data (List.replicate maxLineLen 65)]) =
      .error (.raised (seedLinkError message)) c' ∧ c'.sock = none := by
  obtain ⟨hlines, hendless⟩ := readLine_returns_or_closes
  refine ⟨?_, ?_⟩
  · have htwo : ∀ ev ∈ [Recv.data [79, 75, 13], .data [10, 69, 78, 68]], ev.Benign true := by simp [Recv.Benign]
    obtain ⟨c', hrun, -, hstream, -⟩ := hlines _ "OK".toList [79, 75] [69, 78, 68] []
      (feeds_listening .v3 htwo)
      (by decide) (by decide) (by decide)
    exact ⟨c', hrun, hstream⟩
  · have hlen : (List.replicate maxLineLen (65 : UInt8)).length = maxLineLen := List.length_replicate
    have hletter : ∀ b ∈ List.replicate maxLineLen (65 : UInt8), b = 65 := fun b hb => List.eq_of_mem_replicate hb
    generalize List.replicate maxLineLen (65 : UInt8) = letters at hlen hletter
    have hne : letters ≠ [] := by
      rintro rfl
      cases hlen
    have hdata : ∀ ev ∈ [Recv.data letters], ev.Benign true := by simpa [Recv.Benign] using hne
    have hfeeds := feeds_listening .v3 hdata
    rw [delivered_cons, delivered_nil, Recv.bytes_data, List.append_nil] at hfeeds
    refine hendless _ letters [] hfeeds ?_ hlen.ge
    exact fun hin => absurd (hletter 13 (hin.subset List.mem_cons_self)) (by decide)

end SeedLink
