import SeedLink.Info

/-!
# The tree of an INFO document (`parse_info_xml`)

An element becomes a dictionary in which its attributes and, under their tags, its children share one name
space. `Shows v e` says that the attributes and the children of `e` can be read back from `v`, at every depth.
The walk gives such a value exactly when no child has the name of an attribute for its tag and the elements do
not stand too deep inside one another (`parseInfoXml_shows_iff`).
-/

namespace SeedLink

/-! ### Trees -/

namespace Element

def attrib : Element → List (Text × Text)
  | mk _ attrib _ => attrib

def children : Element → List Element
  | mk _ _ children => children

/-- The children with a tag, in document order. -/
def childrenTagged (e : Element) (t : Text) : List Element := e.children.filter (·.tag = t)

/-- `p` holds of the element and of every element in it. -/
inductive Everywhere (p : Element → Prop) : Element → Prop
  | mk {tag : Text} {attrib : List (Text × Text)} {children : List Element} (here : p (mk tag attrib children))
      (below : ∀ c ∈ children, Everywhere p c) : Everywhere p (mk tag attrib children)

/-- At most so many elements stand inside one another. -/
inductive Levels : Nat → Element → Prop
  | mk {n : Nat} {tag : Text} {attrib : List (Text × Text)} {children : List Element}
      (below : ∀ c ∈ children, Levels n c) : Levels (n + 1) (mk tag attrib children)

/-- No attribute is given twice. -/
def Distinct (e : Element) : Prop := (e.attrib.map Prod.fst).Nodup

/-- No child has the name of an attribute for its tag. -/
def Apart (e : Element) : Prop := ∀ c ∈ e.children, c.tag ∉ e.attrib.map Prod.fst

instance (e : Element) : Decidable e.Distinct := inferInstanceAs (Decidable (List.Nodup _))

instance (e : Element) : Decidable e.Apart := inferInstanceAs (Decidable (∀ c ∈ e.children, _))

/-- The attributes and the children of the element can be read back from the value: each attribute with its
value, the children with a tag in the list under it, and nothing else. -/
inductive Shows : XmlValue → Element → Prop
  | dict {e : Element} {entries : List (Text × XmlValue)} (items : Text → List XmlValue)
      (attributes : ∀ a ∈ e.attrib, entries.lookup a.1 = some (.text a.2))
      (lists : ∀ c ∈ e.children, entries.lookup c.tag = some (.list (items c.tag)))
      (shown : ∀ t, List.Forall₂ Shows (items t) (e.childrenTagged t))
      (only : ∀ k, (entries.lookup k).isSome = true → k ∈ e.attrib.map Prod.fst ∨ ∃ c ∈ e.children, c.tag = k) :
      Shows (.dict entries) e

end Element

/-! ### One entry -/

section entries
variable {tag k : Text} {v : XmlValue} {value : Except Exn XmlValue} {entries entries' : List (Text × XmlValue)}
variable {items : List XmlValue}

theorem lookup_cons_if {β : Type} (k key : Text) (b : β) (l : List (Text × β)) :
    List.lookup k ((key, b) :: l) = if k = key then some b else List.lookup k l := by
  by_cases h : k = key
  · rw [if_pos h, h, List.lookup_cons_self]
  · rw [if_neg h, List.lookup_cons, beq_false_of_ne h]

/-- The list an entry is, empty where there is no entry. -/
def listUnder : Option XmlValue → Option (List XmlValue)
  | none => some []
  | some (.list items) => some items
  | some _ => none

namespace Element

theorem appendUnder_ok : ∀ {entries : List (Text × XmlValue)}, listUnder (entries.lookup tag) = some items →
    ∃ entries', appendUnder tag (.ok v) entries = .ok entries' ∧
      ∀ k, entries'.lookup k = if k = tag then some (.list (items ++ [v])) else entries.lookup k
  | [], h => by
    obtain rfl : [] = items := Option.some.inj h
    exact ⟨_, rfl, fun k => lookup_cons_if k tag _ _⟩
  | (key, entry) :: rest, h => by
    rw [lookup_cons_if] at h
    unfold appendUnder
    by_cases hkey : key = tag
    · rw [if_pos hkey.symm] at h
      rw [if_pos hkey]
      cases entry with
      | text => cases h
      | dict => cases h
      | list l =>
        obtain rfl : l = items := Option.some.inj h
        refine ⟨_, rfl, fun k => ?_⟩
        rw [lookup_cons_if, lookup_cons_if, hkey]
        split <;> rfl
    · rw [if_neg (Ne.symm hkey)] at h
      obtain ⟨rest', hrest, hlookup⟩ := appendUnder_ok h
      rw [if_neg hkey, hrest]
      refine ⟨_, rfl, fun k => ?_⟩
      rw [lookup_cons_if, lookup_cons_if, hlookup k]
      by_cases hk : k = key
      · rw [if_pos hk, if_pos hk, if_neg (by rw [hk]; exact hkey)]
      · rw [if_neg hk, if_neg hk]

theorem of_appendUnder_ok : ∀ {entries entries' : List (Text × XmlValue)},
    appendUnder tag value entries = .ok entries' → (∃ items, listUnder (entries.lookup tag) = some items) ∧
      ∃ v, value = .ok v
  | [], _, h => by
    cases value with
    | error e => cases h
    | ok v => exact ⟨⟨[], rfl⟩, v, rfl⟩
  | (key, entry) :: rest, _, h => by
    rw [lookup_cons_if]
    unfold appendUnder at h
    by_cases hkey : key = tag
    · rw [if_pos hkey] at h
      rw [if_pos hkey.symm]
      cases entry with
      | text => cases h
      | dict => cases h
      | list l =>
        cases value with
        | error e => cases h
        | ok v => exact ⟨⟨l, rfl⟩, v, rfl⟩
    · rw [if_neg hkey] at h
      rw [if_neg (Ne.symm hkey)]
      cases hrest : appendUnder tag value rest with
      | error e =>
        rw [hrest] at h
        cases h
      | ok rest' => exact of_appendUnder_ok hrest

end Element

end entries

/-! ### All children of an element -/

namespace Element
section children
variable {attrib : List (Text × Text)} {done children : List Element} {entries entries' : List (Text × XmlValue)}
variable {c e : Element} {v : XmlValue} {visit : Element → Except Exn XmlValue} {n : Nat}

theorem lookup_attributes (k : Text) : ∀ attrib : List (Text × Text),
    (attrib.map fun a => (a.1, XmlValue.text a.2)).lookup k = (attrib.lookup k).map XmlValue.text
  | [] => rfl
  | (key, t) :: attrib => by
    rw [List.map_cons, lookup_cons_if, lookup_cons_if, lookup_attributes k attrib]
    split <;> rfl

/-- What the dictionary holds after some of the children. -/
def Collected (attrib : List (Text × Text)) (done : List Element) (entries : List (Text × XmlValue)) : Prop :=
  ∃ items : Text → List XmlValue, (∀ t, List.Forall₂ Shows (items t) (done.filter (·.tag = t))) ∧
    ∀ k, entries.lookup k =
      ((attrib.lookup k).map XmlValue.text).or (if items k = [] then none else some (.list (items k)))

theorem collected_nil (attrib : List (Text × Text)) :
    Collected attrib [] (attrib.map fun a => (a.1, XmlValue.text a.2)) := by
  refine ⟨fun _ => [], fun t => .nil, fun k => ?_⟩
  rw [lookup_attributes, if_pos rfl, Option.or_none]

theorem Collected.step (h : Collected attrib done entries) (htag : attrib.lookup c.tag = none) (hv : Shows v c) :
    ∃ entries', appendUnder c.tag (.ok v) entries = .ok entries' ∧ Collected attrib (done ++ [c]) entries' := by
  obtain ⟨items, hitems, hlookup⟩ := h
  have hlist : listUnder (entries.lookup c.tag) = some (items c.tag) := by
    rw [hlookup, htag, Option.map_none, Option.none_or]
    split
    · rename_i hnil
      rw [hnil]
      rfl
    · rfl
  obtain ⟨entries', hok, hlookup'⟩ := appendUnder_ok hlist
  refine ⟨entries', hok, fun t => if t = c.tag then items c.tag ++ [v] else items t, fun t => ?_, fun k => ?_⟩
  · rw [List.filter_append]
    by_cases ht : t = c.tag
    · subst ht
      simpa using List.rel_append (hitems c.tag) (.cons hv .nil)
    · simpa [ht, Ne.symm ht] using hitems t
  · rw [hlookup' k]
    by_cases hk : k = c.tag
    · subst hk
      simp [htag]
    · simp only [if_neg hk, hlookup k]

/-- The fold goes through if every child does. -/
theorem Collected.fold (hchildren : ∀ c ∈ children, attrib.lookup c.tag = none ∧ ∃ v, visit c = .ok v ∧ Shows v c)
    (h : Collected attrib done entries) :
    ∃ entries', children.foldlM (fun entries child => appendUnder child.tag (visit child) entries) entries =
      .ok entries' ∧ Collected attrib (done ++ children) entries' := by
  induction children generalizing done entries with
  | nil => exact ⟨entries, rfl, by rwa [List.append_nil]⟩
  | cons c children ih =>
    obtain ⟨htag, v, hvisit, hv⟩ := hchildren c List.mem_cons_self
    obtain ⟨entries₁, hok, hcollected⟩ := h.step htag hv
    obtain ⟨entries₂, hrest, hall⟩ := ih (fun d hd => hchildren d (List.mem_cons_of_mem _ hd)) hcollected
    refine ⟨entries₂, ?_, by rwa [List.append_assoc] at hall⟩
    rw [List.foldlM_cons, hvisit, hok]
    exact hrest

/-- It went through only if every child did, and none of them found an attribute under its tag. -/
theorem of_fold_ok (h : children.foldlM (fun entries child => appendUnder child.tag (visit child) entries) entries =
      .ok entries')
    (hattrib : ∀ k t, attrib.lookup k = some t → entries.lookup k = some (.text t)) :
    ∀ c ∈ children, attrib.lookup c.tag = none ∧ ∃ v, visit c = .ok v := by
  induction children generalizing entries with
  | nil => exact fun c hc => absurd hc List.not_mem_nil
  | cons c children ih =>
    rw [List.foldlM_cons] at h
    obtain ⟨entries₁, happend, hrest⟩ := exists_of_bind_ok h
    obtain ⟨⟨items, hitems⟩, v, hvisit⟩ := of_appendUnder_ok happend
    -- an attribute under the tag would be text, no list
    have htag : attrib.lookup c.tag = none := by
      cases hlook : attrib.lookup c.tag with
      | none => rfl
      | some t =>
        rw [hattrib c.tag t hlook] at hitems
        cases hitems
    rw [hvisit] at happend
    obtain ⟨entries₂, happend₂, hlookup⟩ := appendUnder_ok (v := v) hitems
    obtain rfl : entries₂ = entries₁ := Except.ok.inj (happend₂.symm.trans happend)
    have hrec := ih hrest fun k t hk => by
      rw [hlookup k, if_neg fun hkc => by rw [hkc, htag] at hk; cases hk]
      exact hattrib k t hk
    intro d hd
    rcases List.mem_cons.1 hd with rfl | hd
    · exact ⟨htag, v, hvisit⟩
    · exact hrec d hd

theorem lookup_eq_none_iff {k : Text} : ∀ {attrib : List (Text × Text)},
    attrib.lookup k = none ↔ k ∉ attrib.map Prod.fst
  | [] => by simp
  | (key, t) :: attrib => by
    rw [lookup_cons_if, List.map_cons, List.mem_cons, not_or, ← (lookup_eq_none_iff : attrib.lookup k = none ↔ _)]
    split <;> simp_all

theorem lookup_of_mem : ∀ {attrib : List (Text × Text)}, (attrib.map Prod.fst).Nodup →
    ∀ a ∈ attrib, attrib.lookup a.1 = some a.2
  | (key, t) :: attrib, h, a, ha => by
    obtain ⟨hkey, hrest⟩ := List.nodup_cons.1 h
    rw [lookup_cons_if]
    rcases List.mem_cons.1 ha with rfl | ha
    · rw [if_pos rfl]
    · rw [if_neg fun heq => hkey (List.mem_map.2 ⟨a, ha, heq⟩)]
      exact lookup_of_mem hrest a ha

/-- The dictionary after all children shows the element. -/
theorem Collected.shows (h : Collected e.attrib e.children entries) (hdistinct : e.Distinct) (hapart : e.Apart) :
    Shows (.dict entries) e := by
  obtain ⟨items, hitems, hlookup⟩ := h
  refine .dict items (fun a ha => ?_) (fun c hc => ?_) hitems fun k hk => ?_
  · rw [hlookup, lookup_of_mem hdistinct a ha]
    rfl
  · have hne : items c.tag ≠ [] := by
      intro hnil
      have hmem : c ∈ e.children.filter (·.tag = c.tag) := List.mem_filter.2 ⟨hc, by simp⟩
      have := hitems c.tag
      rw [hnil, List.forall₂_nil_left_iff] at this
      rw [this] at hmem
      exact absurd hmem List.not_mem_nil
    rw [hlookup, lookup_eq_none_iff.2 (hapart c hc), if_neg hne]
    rfl
  · by_cases hmem : k ∈ e.attrib.map Prod.fst
    · exact .inl hmem
    · rw [hlookup, lookup_eq_none_iff.2 hmem] at hk
      by_cases hnil : items k = []
      · rw [if_pos hnil] at hk
        cases hk
      · obtain ⟨v, l, hl⟩ := List.exists_cons_of_ne_nil hnil
        have := hitems k
        rw [hl] at this
        obtain ⟨c, rest, -, -, hfilter⟩ := List.forall₂_cons_left_iff.1 this
        have hc : c ∈ e.children.filter (·.tag = k) := hfilter ▸ List.mem_cons_self
        exact .inr ⟨c, (List.mem_filter.1 hc).1, by simpa using (List.mem_filter.1 hc).2⟩

/-! ### Every depth -/

theorem walk_shows : ∀ {n : Nat} {e : Element}, e.Levels n → e.Everywhere Distinct → e.Everywhere Apart →
    ∃ v, walk n e = .ok v ∧ Shows v e
  | n + 1, mk tag attrib children, .mk hbelow, .mk hdistinct hdistincts, .mk hapart haparts => by
    have hchildren : ∀ c ∈ children, attrib.lookup c.tag = none ∧ ∃ v, walk n c = .ok v ∧ Shows v c := fun c hc =>
      ⟨lookup_eq_none_iff.2 (hapart c hc), walk_shows (hbelow c hc) (hdistincts c hc) (haparts c hc)⟩
    obtain ⟨entries, hok, hcollected⟩ := (collected_nil attrib).fold hchildren
    refine ⟨.dict entries, ?_, Collected.shows hcollected hdistinct hapart⟩
    unfold walk
    rw [hok]
    rfl

theorem of_walk_ok : ∀ {n : Nat} {e : Element} {v : XmlValue}, walk n e = .ok v → e.Everywhere Apart ∧ e.Levels n
  | n + 1, mk tag attrib children, v, h => by
    unfold walk at h
    obtain ⟨entries, hfold, -⟩ := exists_of_bind_ok h
    have hattrib : ∀ k t, attrib.lookup k = some t →
        (attrib.map fun a => (a.1, XmlValue.text a.2)).lookup k = some (.text t) := fun k t hk => by
      rw [lookup_attributes, hk]
      rfl
    have hall := of_fold_ok hfold hattrib
    have hbelow : ∀ c ∈ children, c.Everywhere Apart ∧ c.Levels n := fun c hc => by
      obtain ⟨-, w, hw⟩ := hall c hc
      exact of_walk_ok hw
    exact ⟨.mk (fun c hc => lookup_eq_none_iff.1 (hall c hc).1) fun c hc => (hbelow c hc).1,
      .mk fun c hc => (hbelow c hc).2⟩

end children
end Element

/-! ### Documents -/

open Element

section documents
variable [XmlReader] {text : Text} {root : Element}

theorem parseInfoXml_eq (h : XmlReader.fromstring text = .ok root) :
    parseInfoXml text = (root.walk XmlReader.stackDepth).map fun value => .xml [(root.tag, value)] := by
  unfold parseInfoXml
  simp only [h]
  cases root.walk XmlReader.stackDepth <;> rfl

/-- The dictionary of a document shows all of it, and is there at all, exactly when no child has the name of an
attribute for its tag and the walk fits on the stack. -/
theorem parseInfoXml_shows_iff (h : XmlReader.fromstring text = .ok root) (hdistinct : root.Everywhere Distinct) :
    (∃ value, parseInfoXml text = .ok (.xml [(root.tag, value)]) ∧ Shows value root) ↔
      root.Everywhere Apart ∧ root.Levels XmlReader.stackDepth := by
  rw [parseInfoXml_eq h]
  refine ⟨?_, ?_⟩
  · rintro ⟨value, hok, -⟩
    obtain ⟨v, hwalk, -⟩ := exists_of_map_ok hok
    exact of_walk_ok hwalk
  · rintro ⟨hapart, hlevels⟩
    obtain ⟨v, hwalk, hshows⟩ := walk_shows hlevels hdistinct hapart
    exact ⟨v, by rw [hwalk]; rfl, hshows⟩

end documents

/-! ### Two documents -/

def stationsText : Text := "<seedlink software=\"s\"><station name=\"A\"/><station name=\"B\"/></seedlink>".toList

def namedStation (name : String) : Element := .mk "station".toList [("name".toList, name.toList)] []

def stationsTree : Element :=
  .mk "seedlink".toList [("software".toList, "s".toList)] [namedStation "A", namedStation "B"]

def clashText : Text := "<seedlink station=\"A\"><station/></seedlink>".toList

def clashTree : Element := .mk "seedlink".toList [("station".toList, "A".toList)] [.mk "station".toList [] []]

/-- A reader of the two. -/
abbrev XmlReader.stations : XmlReader where
  fromstring text :=
    if text = stationsText then .ok stationsTree
    else if text = clashText then .ok clashTree
    else .error "not well-formed"
  stackDepth := 900

theorem everywhere_leaf {p : Element → Prop} {tag : Text} {attrib : List (Text × Text)}
    (h : p (.mk tag attrib [])) : (Element.mk tag attrib []).Everywhere p :=
  .mk h fun _ hc => absurd hc List.not_mem_nil

/-- A station beside an attribute of that name. -/
theorem station_clashes :
    @parseInfoXml .stations clashText = .error .attributeError ∧
      ¬ ∀ text root, @XmlReader.fromstring .stations text = .ok root → root.Everywhere Distinct →
        ∃ value, @parseInfoXml .stations text = .ok (.xml [(root.tag, value)]) ∧ Shows value root := by
  have hread : @XmlReader.fromstring .stations clashText = .ok clashTree := rfl
  have herr : @parseInfoXml .stations clashText = .error .attributeError := by
    rw [@parseInfoXml_eq .stations _ _ hread]
    rfl
  have hdistinct : clashTree.Everywhere Distinct := .mk (by decide) fun c hc => by
    rw [List.mem_singleton.1 hc]
    exact everywhere_leaf (by decide)
  refine ⟨herr, fun h => ?_⟩
  obtain ⟨value, hok, -⟩ := h clashText clashTree hread hdistinct
  rw [herr] at hok
  cases hok

theorem parseInfoXml_shows_stations :
    ∃ value, @parseInfoXml .stations stationsText = .ok (.xml [("seedlink".toList, value)]) ∧
      Shows value stationsTree := by
  have hstations : ∀ c ∈ [namedStation "A", namedStation "B"], ∃ name, c = namedStation name := by
    intro c hc
    rcases List.mem_cons.1 hc with rfl | hc
    · exact ⟨"A", rfl⟩
    · exact ⟨"B", List.mem_singleton.1 hc⟩
  refine (@parseInfoXml_shows_iff .stations stationsText stationsTree rfl
    (.mk (by decide) fun c hc => ?_)).2 ⟨.mk (by decide) fun c hc => ?_, .mk fun c hc => ?_⟩
  · obtain ⟨name, rfl⟩ := hstations c hc
    exact everywhere_leaf (List.nodup_singleton _)
  · obtain ⟨name, rfl⟩ := hstations c hc
    exact everywhere_leaf fun _ h => absurd h List.not_mem_nil
  · obtain ⟨name, rfl⟩ := hstations c hc
    exact .mk fun _ h => absurd h List.not_mem_nil

end SeedLink
