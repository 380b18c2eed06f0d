import SeedLink.Info
import SeedLink.Commands
import SeedLink.Lib.OneLine

/-!
# Selectors there and back

A v3 selector is a location and a channel run together, a v4 selector has its four codes apart. Both
conversions meet at the codes they name (`Codes`): what the one makes of a v3 selector the other takes back
to a v3 selector that names the same (`v3ToV4Selector_stable`). The way down does not look at the characters
of the codes, and the way up takes letters, digits and wildcards only, so a v4 selector comes back from v3
exactly when its codes are made of these (`v3ToV4Selector_v4ToV3Selector_iff`).
-/

namespace SeedLink

/-- What follows a stream ID: nothing, or a dot and a type. -/
def IsTypeSuffix (suffix : Text) : Prop := ∀ c ∈ suffix.head?, c = '.'

theorem typeSuffix_eq {suffix : Text} (h : IsTypeSuffix suffix) :
    (if (!suffix.isEmpty) = true then '.' :: suffix.tail else []) = suffix := by
  cases suffix with
  | nil => rfl
  | cons c rest => rw [h c rfl]; rfl

/-- The codes a selector names. -/
structure Codes where
  location : Text
  band : Char
  source : Char
  subsource : Char

namespace Codes

def chars (k : Codes) : Text := k.location ++ [k.band, k.source, k.subsource]

/-- The v4 stream ID. -/
def v4 (k : Codes) : Text := k.location ++ ['_', k.band, '_', k.source, '_', k.subsource]

/-- The v3 location: none stands for any, two dashes for the empty one. -/
def v3Location (k : Codes) : Text :=
  if k.location = ['*'] then [] else if k.location = [] then ['-', '-'] else k.location

def v3 (k : Codes) : Text := k.v3Location ++ [k.band, k.source, k.subsource]

/-- A location of at most two characters, and no separator in any code. -/
structure Plain (k : Codes) : Prop where
  length_le : k.location.length ≤ 2
  underscore : '_' ∉ k.chars
  dot : '.' ∉ k.chars

variable {k k' : Codes}

theorem v4_eq_append (k : Codes) : k.v4 = k.location ++ '_' :: ([k.band] ++ '_' :: ([k.source] ++ '_' :: [k.subsource])) :=
  rfl

theorem Plain.v4_inj (h : k.Plain) (h' : k'.Plain) (heq : k.v4 = k'.v4) : k = k' := by
  have hloc : ∀ k : Codes, k.Plain → k.v4.takeWhile (· ≠ '_') = k.location := by
    intro k hk
    have hmem : ∀ c ∈ k.location, decide (c ≠ '_') = true := fun c hc => by
      simpa using fun hc' : c = '_' => hk.underscore (List.mem_append_left _ (hc' ▸ hc))
    rw [v4, List.takeWhile_append_of_pos hmem]
    simp
  have hlocation : k.location = k'.location := by rw [← hloc k h, ← hloc k' h', heq]
  obtain ⟨location, band, source, subsource⟩ := k
  obtain ⟨location', band', source', subsource'⟩ := k'
  obtain rfl : location = location' := hlocation
  simpa [v4] using heq

end Codes

section selectors
variable [Unicode]

/-- A letter, a digit or a wildcard. -/
def isCode (c : Char) : Bool := Unicode.isAlnum c || c = '?' || c = '*'

theorem not_isCode {c : Char} (h : c = '-' ∨ c = '_' ∨ c = '.') : isCode c = false := by
  rcases h with rfl | rfl | rfl <;> simp [isCode, Unicode.isAlnum_ascii]

/-- Letters, digits and wildcards throughout. -/
def Codes.Coded (k : Codes) : Prop := ∀ c ∈ k.chars, isCode c = true

/-- A v3 stream ID names codes; dashes in front of three characters name the empty location. -/
def namedV3 (dashes : Bool) : Text → Option Codes
  | [a, b, c] => some ⟨if dashes then [] else ['*'], a, b, c⟩
  | [a, b, c, d] => some ⟨[a], b, c, d⟩
  | [a, b, c, d, e] => some ⟨[a, b], c, d, e⟩
  | _ => none

/-- The way up on a stream ID and its type. -/
theorem v3ToV4Selector_append {n : Nat} {streamid suffix : Text} (hdot : '.' ∉ streamid)
    (hdash : streamid.head? ≠ some '-') (hsuffix : IsTypeSuffix suffix) :
    v3ToV4Selector (List.replicate n '-' ++ (streamid ++ suffix)) =
      if streamid.all isCode then (namedV3 (0 < n) streamid).map (·.v4 ++ suffix) else none := by
  have hhead : (streamid ++ suffix).head? ≠ some '-' := by
    cases streamid with
    | nil =>
      intro h
      cases hsuffix _ h
    | cons c rest => simpa using hdash
  have hdrop : (List.replicate n '-' ++ (streamid ++ suffix)).dropWhile (· = '-') = streamid ++ suffix := by
    rw [List.dropWhile_append_of_pos (by simp)]
    cases h : streamid ++ suffix with
    | nil => rfl
    | cons c rest =>
      rw [h] at hhead
      rw [List.dropWhile_cons_of_neg (by simpa using hhead)]
  have hempty : (List.replicate n '-' ++ (streamid ++ suffix)).head? = some '-' ↔ 0 < n := by
    cases n with
    | zero => simpa using hhead
    | succ n => simp [List.replicate_succ]
  have hcode : (fun c => Unicode.isAlnum c || decide (c = '?') || decide (c = '*')) = isCode := rfl
  unfold v3ToV4Selector
  simp only [hdrop, hempty, Text.partition_append hdot hsuffix, typeSuffix_eq hsuffix, hcode]
  cases hall : streamid.all isCode with
  | false => simp
  | true =>
    simp only [Bool.not_true, Bool.or_false]
    rcases streamid with _ | ⟨a, _ | ⟨b, _ | ⟨c, _ | ⟨d, _ | ⟨e, _ | ⟨f, rest⟩⟩⟩⟩⟩⟩
    · rfl
    · rfl
    · rfl
    · by_cases hn : 0 < n <;> simp [namedV3, Codes.v4, hn]
    · simp [namedV3, Codes.v4]
    · simp [namedV3, Codes.v4]
    · rfl

theorem namedV3_spec {dashes : Bool} {streamid : Text} {k : Codes} (h : namedV3 dashes streamid = some k)
    (hcode : streamid.all isCode = true) : k.Coded ∧ k.location.length ≤ 2 := by
  have hstar : isCode '*' = true := by simp [isCode]
  unfold namedV3 at h
  split at h <;> cases h <;> simp only [List.all_cons, List.all_nil, Bool.and_eq_true] at hcode
  · refine ⟨?_, by split <;> simp⟩
    unfold Codes.Coded Codes.chars
    split <;> simp [hcode, hstar]
  · exact ⟨by simp [Codes.Coded, Codes.chars, hcode], by simp⟩
  · exact ⟨by simp [Codes.Coded, Codes.chars, hcode], by simp⟩

/-- A selector that goes up names letters, digits and wildcards. -/
theorem exists_of_v3ToV4Selector {s t : Text} (h : v3ToV4Selector s = some t) :
    ∃ k : Codes, ∃ suffix, t = k.v4 ++ suffix ∧ k.Coded ∧ k.location.length ≤ 2 ∧ IsTypeSuffix suffix := by
  obtain ⟨n, hn⟩ : ∃ n, s.takeWhile (· = '-') = List.replicate n '-' :=
    ⟨_, List.eq_replicate_of_mem fun c hc => by simpa using List.mem_takeWhile_imp hc⟩
  obtain ⟨streamid, suffix, hrest, hdot, hsuffix⟩ := Text.exists_partition '.' (s.dropWhile (· = '-'))
  have hdash : streamid.head? ≠ some '-' := by
    intro hc
    have := List.head?_dropWhile_not (· = '-') s
    rw [hrest, List.head?_append_of_ne_nil _ (by rintro rfl; cases hc), hc] at this
    simp at this
  have hs : s = List.replicate n '-' ++ (streamid ++ suffix) := by
    rw [← hn, ← hrest, List.takeWhile_append_dropWhile]
  rw [hs, v3ToV4Selector_append hdot hdash hsuffix] at h
  split at h
  · obtain ⟨k, hk, rfl⟩ := Option.map_eq_some_iff.1 h
    obtain ⟨hcoded, hlen⟩ := namedV3_spec hk ‹_›
    exact ⟨k, suffix, rfl, hcoded, hlen, hsuffix⟩
  · cases h

variable {k : Codes} {suffix : Text}

theorem Codes.Coded.plain (h : k.Coded) (hlen : k.location.length ≤ 2) : k.Plain where
  length_le := hlen
  underscore hmem := by
    have := h _ hmem
    rw [not_isCode (.inr (.inl rfl))] at this
    cases this
  dot hmem := by
    have := h _ hmem
    rw [not_isCode (.inr (.inr rfl))] at this
    cases this

/-- The way up from codes of letters, digits and wildcards. -/
theorem v3ToV4Selector_v3 (h : k.Coded) (hlen : k.location.length ≤ 2) (hsuffix : IsTypeSuffix suffix) :
    v3ToV4Selector (k.v3 ++ suffix) = some (k.v4 ++ suffix) := by
  have hdash : ∀ c ∈ k.chars, c ≠ '-' := by
    rintro c hc rfl
    have := h _ hc
    rw [not_isCode (.inl rfl)] at this
    cases this
  have hdot := (h.plain hlen).dot
  obtain ⟨location, band, source, subsource⟩ := k
  unfold Codes.chars at hdash hdot
  unfold Codes.Coded Codes.chars at h
  -- the two dashes of the empty location
  have hup : ∀ n streamid, streamid.all isCode = true → '.' ∉ streamid → streamid.head? ≠ some '-' →
      v3ToV4Selector (List.replicate n '-' ++ (streamid ++ suffix)) =
        (namedV3 (0 < n) streamid).map (·.v4 ++ suffix) := fun n streamid hall hd hh => by
    rw [v3ToV4Selector_append hd hh hsuffix, if_pos hall]
  have hchars : ∀ streamid : Text, streamid ⊆ location ++ [band, source, subsource] →
      streamid.all isCode = true ∧ '.' ∉ streamid ∧ streamid.head? ≠ some '-' := fun streamid hsub =>
    ⟨List.all_eq_true.2 fun c hc => h c (hsub hc), fun hc => hdot (hsub hc),
      fun hc => hdash _ (hsub (List.mem_of_mem_head? hc)) rfl⟩
  have hchannel := hchars [band, source, subsource] (List.subset_append_right _ _)
  have hwhole := hchars (location ++ [band, source, subsource]) (List.Subset.refl _)
  rcases location with _ | ⟨a, _ | ⟨b, _ | ⟨d, rest⟩⟩⟩
  · exact hup 2 [band, source, subsource] hchannel.1 hchannel.2.1 hchannel.2.2
  · by_cases ha : a = '*'
    · subst ha
      exact hup 0 [band, source, subsource] hchannel.1 hchannel.2.1 hchannel.2.2
    · have hv3 : (Codes.mk [a] band source subsource).v3 = [a, band, source, subsource] := by
        simp [Codes.v3, Codes.v3Location, ha]
      rw [hv3]
      exact hup 0 [a, band, source, subsource] hwhole.1 hwhole.2.1 hwhole.2.2
  · have hv3 : (Codes.mk [a, b] band source subsource).v3 = [a, b, band, source, subsource] := by
      simp [Codes.v3, Codes.v3Location]
    rw [hv3]
    exact hup 0 [a, b, band, source, subsource] hwhole.1 hwhole.2.1 hwhole.2.2
  · simp at hlen

end selectors

/-! ### The way down -/

section down
variable {k : Codes} {suffix : Text}

theorem splitOn_v4 (h : k.Plain) : k.v4.splitOn '_' = [k.location, [k.band], [k.source], [k.subsource]] := by
  have hmem := h.underscore
  simp only [Codes.chars, List.mem_append, List.mem_cons, List.not_mem_nil, or_false, not_or] at hmem
  obtain ⟨hloc, hband, hsource, hsub⟩ := hmem
  rw [Codes.v4_eq_append, List.splitOn_append_cons_self_of_not_mem hloc,
    List.splitOn_append_cons_self_of_not_mem (by simpa using hband),
    List.splitOn_append_cons_self_of_not_mem (by simpa using hsource),
    List.splitOn_eq_singleton (by simpa using hsub)]

theorem mem_v4 {c : Char} : c ∈ k.v4 ↔ c = '_' ∨ c ∈ k.chars := by
  simp only [Codes.v4, Codes.chars, List.mem_append, List.mem_cons, List.not_mem_nil, or_false]
  tauto

theorem dot_not_mem_v4 (h : k.Plain) : '.' ∉ k.v4 := fun hmem => h.dot ((mem_v4.1 hmem).resolve_left (by decide))

/-- The way down, whatever the characters. -/
theorem v4ToV3Selector_v4 (h : k.Plain) (hsuffix : IsTypeSuffix suffix) :
    v4ToV3Selector (k.v4 ++ suffix) = some (k.v3 ++ suffix) := by
  unfold v4ToV3Selector
  simp only [Text.partition_append (dot_not_mem_v4 h) hsuffix, typeSuffix_eq hsuffix, splitOn_v4 h]
  rw [if_neg (by simpa using h.length_le)]
  unfold Codes.v3 Codes.v3Location
  have hstar : "*".toList = ['*'] := rfl
  have hdash : "--".toList = ['-', '-'] := rfl
  rw [hstar, hdash]
  split
  · rfl
  · split <;> simp

/-- `*_` is put in front of three codes. -/
def withLocation (t : Text) : Text :=
  if ((Text.partition '.' t).1.splitOn '_').length = 3 then "*_".toList ++ t else t

/-- A selector that goes down has four codes, or three and any location. -/
theorem exists_of_v4ToV3Selector {t u : Text} (h : v4ToV3Selector t = some u) :
    ∃ k : Codes, ∃ suffix, k.Plain ∧ IsTypeSuffix suffix ∧ withLocation t = k.v4 ++ suffix ∧ u = k.v3 ++ suffix ∧
      ∀ c, c ≠ '*' → (c ∈ k.chars ↔ c ∈ (Text.partition '.' t).1 ∧ c ≠ '_') := by
  obtain ⟨streamid, suffix, rfl, hdot, hsuffix⟩ := Text.exists_partition '.' t
  have hjoin : List.intercalate ['_'] (streamid.splitOn '_') = streamid := List.intercalate_splitOn '_'
  have hpart : ∀ part ∈ streamid.splitOn '_', ∀ c ∈ part, c ∈ streamid ∧ c ≠ '_' := by
    intro part hpart c hc
    rw [List.splitOn_eq_splitOnP] at hpart
    obtain ⟨hmem, hne⟩ := Text.mem_of_mem_splitOnP hpart hc
    exact ⟨hmem, by simpa using hne⟩
  -- four codes of which all but the location have one character
  have hcodes : ∀ location band source subsource : Text, (∀ c ∈ location, c ≠ '_' ∧ c ≠ '.') →
      (∀ part ∈ [band, source, subsource], part ∈ streamid.splitOn '_') →
      ¬ (band.length ≠ 1 ∨ source.length ≠ 1 ∨ subsource.length ≠ 1 ∨ location.length > 2) →
      ∃ k : Codes, k.Plain ∧ k.location = location ∧ [k.band] = band ∧ [k.source] = source ∧ [k.subsource] = subsource := by
    intro location band source subsource hloc hmem hlen
    simp only [not_or, not_not] at hlen
    obtain ⟨hb, hs, hu, hl⟩ := hlen
    obtain ⟨b, rfl⟩ := List.length_eq_one_iff.1 hb
    obtain ⟨s, rfl⟩ := List.length_eq_one_iff.1 hs
    obtain ⟨u, rfl⟩ := List.length_eq_one_iff.1 hu
    have hone : ∀ c ∈ [b, s, u], c ≠ '_' ∧ c ≠ '.' := by
      intro c hc
      obtain ⟨hin, hne⟩ := hpart [c] (hmem _ (by simpa using hc)) c (by simp)
      exact ⟨hne, fun hdot' => hdot (hdot' ▸ hin)⟩
    have hall : ∀ c ∈ location ++ [b, s, u], c ≠ '_' ∧ c ≠ '.' := fun c hc =>
      (List.mem_append.1 hc).elim (hloc c) (hone c)
    exact ⟨⟨location, b, s, u⟩, ⟨Nat.not_lt.1 hl, fun hc => (hall _ hc).1 rfl, fun hc => (hall _ hc).2 rfl⟩,
      rfl, rfl, rfl, rfl⟩
  have h₀ := h
  unfold v4ToV3Selector at h
  unfold withLocation
  simp only [Text.partition_append hdot hsuffix, typeSuffix_eq hsuffix] at h ⊢
  split at h
  · rename_i location band source subsource hparts
    split at h
    · cases h
    · rename_i hlen
      rw [hparts] at hjoin hpart hcodes ⊢
      obtain ⟨k, hplain, rfl, rfl, rfl, rfl⟩ := hcodes location band source subsource
        (fun c hc => ⟨(hpart location (by simp) c hc).2, fun hdot' => hdot (hdot' ▸ (hpart location (by simp) c hc).1)⟩)
        (by simp) hlen
      obtain rfl : streamid = k.v4 := hjoin.symm
      refine ⟨k, suffix, hplain, hsuffix, rfl, ?_, fun c _ => ?_⟩
      · exact Option.some.inj (h₀.symm.trans (v4ToV3Selector_v4 hplain hsuffix))
      · rw [mem_v4]
        exact ⟨fun hc => ⟨.inr hc, fun hc' => hplain.underscore (hc' ▸ hc)⟩, fun hc => hc.1.resolve_left hc.2⟩
  · rename_i band source subsource hparts
    split at h
    · cases h
    · rename_i hlen
      rw [hparts] at hjoin hpart hcodes ⊢
      obtain ⟨k, hplain, hloc, rfl, rfl, rfl⟩ := hcodes ['*'] band source subsource (by simp) (by simp) hlen
      have hv4 : "*_".toList ++ streamid = k.v4 := by
        rw [← hjoin, Codes.v4, hloc]
        rfl
      have hv3 : k.v3 = [k.band, k.source, k.subsource] := by simp [Codes.v3, Codes.v3Location, hloc]
      refine ⟨k, suffix, hplain, hsuffix, ?_, ?_, fun c hstar => ?_⟩
      · rw [← hv4]
        rfl
      · rw [hv3]
        simpa using h.symm
      · have hmem : c ∈ k.v4 ↔ c = '_' ∨ c ∈ streamid := by
          rw [← hv4]
          simp [hstar]
        rw [mem_v4] at hmem
        refine ⟨fun hc => ?_, fun hc => ?_⟩
        · have hne : c ≠ '_' := fun hc' => hplain.underscore (hc' ▸ hc)
          exact ⟨(hmem.1 (.inr hc)).resolve_left hne, hne⟩
        · exact (hmem.2 (.inr hc.1)).resolve_left hc.2
  · cases h

end down

section conversions
variable [Unicode]

/-- What goes down to v3 comes back up as it was exactly when the codes are letters, digits and wildcards. -/
theorem v3ToV4Selector_v4ToV3Selector_iff {t u : Text} (h : v4ToV3Selector t = some u) :
    v3ToV4Selector u = some (withLocation t) ↔ ∀ c ∈ (Text.partition '.' t).1, c ≠ '_' → isCode c = true := by
  obtain ⟨k, suffix, hplain, hsuffix, ht, rfl, hchars⟩ := exists_of_v4ToV3Selector h
  have hcoded : k.Coded ↔ ∀ c ∈ (Text.partition '.' t).1, c ≠ '_' → isCode c = true := by
    have hstar : isCode '*' = true := by simp [isCode]
    constructor
    · intro hk c hc hne
      by_cases hs : c = '*'
      · exact hs ▸ hstar
      · exact hk c ((hchars c hs).2 ⟨hc, hne⟩)
    · intro ht c hc
      by_cases hs : c = '*'
      · exact hs ▸ hstar
      · obtain ⟨hc', hne⟩ := (hchars c hs).1 hc
        exact ht c hc' hne
  rw [ht, ← hcoded]
  constructor
  · intro hup
    obtain ⟨k', suffix', heq, hk', hlen', hsuffix'⟩ := exists_of_v3ToV4Selector hup
    have hplain' := hk'.plain hlen'
    have hv4 := congrArg (fun t => (Text.partition '.' t).1) heq
    simp only [Text.partition_append (dot_not_mem_v4 hplain) hsuffix,
      Text.partition_append (dot_not_mem_v4 hplain') hsuffix'] at hv4
    rwa [hplain.v4_inj hplain' hv4]
  · intro hk
    exact v3ToV4Selector_v3 hk hplain.length_le hsuffix

omit [Unicode] in
/-- A location of one dash becomes the empty location. -/
theorem v3ToV4Selector_dashLocation : v4ToV3Selector "-_H_H_Z".toList = some "-HHZ".toList ∧
    @v3ToV4Selector Externals.bare.toUnicode "-HHZ".toList = some "_H_H_Z".toList ∧
    @v3ToV4Selector Externals.bare.toUnicode "-HHZ".toList ≠ some (withLocation "-_H_H_Z".toList) := by
  decide

omit [Unicode] in
theorem v3ToV4Selector_v4ToV3Selector_threeCodes :
    @v3ToV4Selector Externals.bare.toUnicode "HHZ.D".toList = some "*_H_H_Z.D".toList := by
  refine (@v3ToV4Selector_v4ToV3Selector_iff Externals.bare.toUnicode "H_H_Z.D".toList "HHZ.D".toList (by decide)).2 ?_
  have hall : ((Text.partition '.' "H_H_Z.D".toList).1.all fun c =>
      c == '_' || @isCode Externals.bare.toUnicode c) = true := by decide
  intro c hc hne
  have := List.all_eq_true.1 hall c hc
  simpa [hne] using this

theorem v3ToV4Selector_v4 {k : Codes} {suffix : Text} (h : k.Coded) (hlen : k.location.length ≤ 2)
    (hsuffix : IsTypeSuffix suffix) : v3ToV4Selector (k.v4 ++ suffix) = none := by
  have hdash : k.v4.head? ≠ some '-' := by
    intro hc
    rcases mem_v4.1 (List.mem_of_mem_head? hc) with hc' | hc'
    · cases hc'
    · have := h _ hc'
      rw [not_isCode (.inl rfl)] at this
      cases this
  have hcode : ¬ k.v4.all isCode = true := by
    rw [List.all_eq_true]
    intro hall
    have := hall '_' (mem_v4.2 (.inl rfl))
    rw [not_isCode (.inr (.inl rfl))] at this
    cases this
  have := v3ToV4Selector_append (n := 0) (dot_not_mem_v4 (h.plain hlen)) hdash hsuffix
  rwa [if_neg hcode] at this

omit [Unicode] in
theorem v4ToV3Selector_v3 {k : Codes} {suffix : Text} (h : k.Plain) (hsuffix : IsTypeSuffix suffix) :
    v4ToV3Selector (k.v3 ++ suffix) = none := by
  have hmem : ∀ c ∈ k.v3, c = '-' ∨ c ∈ k.chars := by
    intro c hc
    rcases List.mem_append.1 hc with hc | hc
    · unfold Codes.v3Location at hc
      split at hc
      · cases hc
      split at hc
      · exact .inl (by simpa using hc)
      · exact .inr (List.mem_append_left _ hc)
    · exact .inr (List.mem_append_right _ hc)
  have hdot : '.' ∉ k.v3 := fun hc => h.dot ((hmem _ hc).resolve_left (by decide))
  have hunderscore : '_' ∉ k.v3 := fun hc => h.underscore ((hmem _ hc).resolve_left (by decide))
  unfold v4ToV3Selector
  simp only [Text.partition_append hdot hsuffix, List.splitOn_eq_singleton hunderscore]

/-- What has gone up to v4 is not taken for a v3 selector and comes back from v3 as it was; a second
conversion for the same protocol changes nothing. -/
theorem v3ToV4Selector_stable :
    (∀ s t, v3ToV4Selector s = some t → v3ToV4Selector t = none ∧
      ∃ u, v4ToV3Selector t = some u ∧ v3ToV4Selector u = some t) ∧
    ∀ protocol selector, wireSelector protocol (wireSelector protocol selector) = wireSelector protocol selector := by
  have hup : ∀ s t, v3ToV4Selector s = some t → v3ToV4Selector t = none ∧
      ∃ u, v4ToV3Selector t = some u ∧ v3ToV4Selector u = some t := by
    intro s t h
    obtain ⟨k, suffix, rfl, hk, hlen, hsuffix⟩ := exists_of_v3ToV4Selector h
    exact ⟨v3ToV4Selector_v4 hk hlen hsuffix, _, v4ToV3Selector_v4 (hk.plain hlen) hsuffix,
      v3ToV4Selector_v3 hk hlen hsuffix⟩
  refine ⟨hup, fun protocol selector => ?_⟩
  unfold wireSelector
  split
  · cases h : v3ToV4Selector selector with
    | none => simp [h]
    | some t => simp [(hup _ _ h).1]
  · cases h : v4ToV3Selector selector with
    | none => simp [h]
    | some u =>
      obtain ⟨k, suffix, hplain, hsuffix, -, rfl, -⟩ := exists_of_v4ToV3Selector h
      simp [v4ToV3Selector_v3 hplain hsuffix]

omit [Unicode] in
theorem v3ToV4Selector_stable_blankLocation :
    @v3ToV4Selector Externals.bare.toUnicode "_H_H_Z.D".toList = none ∧
      ∃ u, v4ToV3Selector "_H_H_Z.D".toList = some u ∧
        @v3ToV4Selector Externals.bare.toUnicode u = some "_H_H_Z.D".toList :=
  (@v3ToV4Selector_stable Externals.bare.toUnicode).1 "-HHZ.D".toList "_H_H_Z.D".toList (by decide)

end conversions

end SeedLink
