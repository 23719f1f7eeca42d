import ServiceUnits.Proofs.FileSystem.Chain
import ServiceUnits.Proofs.Path.Joined
import ServiceUnits.Proofs.Resolver.Listings
import ServiceUnits.Proofs.Sequence

namespace ServiceUnits

open Text

/-- A chain that leads through any place at all starts with the path that was asked for. -/
def FileSystem.IsAnchored (fs : FileSystem) : Prop :=
  ∀ p q qs, fs.chain p = .ok (q :: qs) → q.same p = true

/-- What the later stages take for granted of an alias set that was located by a name. -/
structure AliasSet.IsNamed (a : AliasSet) (name : String) : Prop where
  id : a.id? = some name
  nodup : a.names.Nodup
  canonical : ∀ other ∈ a.names, Name.canonical other = other
  no_slash : ∀ other ∈ a.names, '/' ∉ other.toList

namespace Path

theorem same_refl (p : Path) : p.same p = true := decide_eq_true rfl

/-- Only the components of a path decide what its last one is. -/
theorem fileName?_congr {p q : Path} (h : p.same q = true) : p.fileName? = q.fileName? := by
  rw [fileName?, fileName?, of_decide_eq_true h]

theorem getLast?_parts {s name : List Char} {before : List (List Char)}
    (h : pieces slash s = before ++ [name]) (hn : isIdle name = false) :
    (componentsOf s).parts.getLast? = some name := by
  rw [componentsOf, h]
  cases before with
  | nil =>
    have hne : name ≠ [] := by
      rintro rfl
      cases hn
    simp [hne]
  | cons first before => simp [List.filter_append, hn]

/-- The name beneath a directory is the last piece of the path. -/
theorem pieces_join_name (dir : Path) {name : String} (h : '/' ∉ name.toList) :
    ∃ before, pieces slash (dir.join name).text.toList = before ++ [name.toList] := by
  have hname : ∀ c ∈ name.toList, slash c = false := by
    intro c hc
    simpa [slash] using fun e : c = '/' => h (e ▸ hc)
  have hhead : name.toList.head? ≠ some '/' := fun e => h (List.mem_of_head? e)
  by_cases hdir : dir.text = ""
  · refine ⟨[], ?_⟩
    rw [join, if_neg hhead, hdir, List.nil_append, ← pieces_of_forall hname]
    simp
  · obtain ⟨above, hjoin, -⟩ := toList_join hdir hhead
    refine ⟨pieces slash above, ?_⟩
    rw [hjoin, pieces_append_sep (by decide), pieces_of_forall hname]

theorem fileName?_join (dir : Path) {name : String} (h : IsStep name) :
    (dir.join name).fileName? = some name := by
  obtain ⟨before, hpieces⟩ := pieces_join_name dir h.no_slash
  have hne : ∀ s : String, name ≠ s → name.toList ≠ s.toList :=
    fun s hs e => hs (String.toList_injective e)
  have hempty : name.toList ≠ [] := hne "" h.ne_empty
  have hdot : name.toList ≠ ['.'] := hne "." h.ne_dot
  have hdots : name.toList ≠ ['.', '.'] := hne ".." h.ne_dots
  have hidle : isIdle name.toList = false := by simp [isIdle, hempty, hdot]
  rw [fileName?, components, getLast?_parts hpieces hidle]
  simp [hdot, hdots]

end Path

namespace NodeTable

/-- The places of a chain are behind those that were met before. -/
theorem chainFrom_eq_ok {t : NodeTable} {n : Nat} {met places : List Path} {p : Path}
    (h : t.chainFrom n met p = .ok places) : places = [] ∨ met ++ [p] <+: places := by
  fun_induction chainFrom t n met p with
  | case1 => cases h
  | case2 n met p target _ ih =>
    exact (ih h).imp_right fun hpre => (List.prefix_append _ _).trans hpre
  | case3 | case4 =>
    obtain rfl := Except.ok.inj h
    exact .inr (List.prefix_refl _)
  | case6 =>
    obtain rfl := Except.ok.inj h
    exact .inl rfl
  | case5 | case7 => cases h

theorem isAnchored (t : NodeTable) : t.fileSystem.IsAnchored := by
  intro p q qs h
  rcases chainFrom_eq_ok h with hnil | ⟨rest, hrest⟩
  · cases hnil
  · obtain ⟨rfl, -⟩ := List.cons.inj hrest
    exact p.same_refl

end NodeTable

/-- What a system shows of a chain starts with the very path that was asked for. -/
theorem System.start_of_chain {s : System} {p q : Path} {qs : List Path}
    (h : s.fileSystem.chain p = .ok (q :: qs)) : q = p := by
  have hplaces : ((Probe.chase s.probe p).map (·.map RawPath.shown)).mapError Error.ofLink =
    .ok (q :: qs) := h
  cases hc : Probe.chase s.probe p with
  | error e =>
    rw [hc] at hplaces
    cases hplaces
  | ok places =>
    rw [hc] at hplaces
    obtain ⟨rest, rfl⟩ : ∃ rest, places = p.raw :: rest := by
      cases Probe.followed_of_chaseFrom hc with
      | last | next => exact ⟨_, rfl⟩
    obtain ⟨rfl, -⟩ := List.cons.inj (Except.ok.inj hplaces)
    exact congrArg Path.mk (RawPath.text_ofText p.text)

theorem System.isAnchored (s : System) : s.fileSystem.IsAnchored := by
  intro p q qs h
  obtain rfl := System.start_of_chain h
  exact q.same_refl

namespace AliasSet

variable {fs : FileSystem} {lookup : Lookup} {text name param : String} {c : Chain} {a : AliasSet}

/-- The names of a chain begin with the file name of the place that it starts at. -/
theorem id?_ofChain (h : c.start.fileName? = some name) (hn : Name.canonical name = name) :
    (ofChain c).id? = some name := by
  rw [id?, ofChain, Chain.fileNames, Chain.toList, List.filterMap_cons_some h, List.map_cons, hn,
    List.eraseDups_cons, List.head?_cons]

theorem canonical_of_mem_fileNames (h : name ∈ c.fileNames) : Name.canonical name = name := by
  obtain ⟨-, -, f, -, rfl⟩ := mem_fileNames.1 h
  exact Name.canonical_canonical f

/-- A chain that is found under a name starts at a file of that name. -/
theorem fileName?_start (hfs : fs.IsAnchored) (hname : IsStep name)
    (h : FirstAt fs lookup name c) : c.start.fileName? = some name := by
  obtain ⟨-, dir, -, -, hchain, -⟩ := h
  rw [Path.fileName?_congr (hfs _ _ _ hchain)]
  exact Path.fileName?_join ⟨dir⟩ hname

theorem isNamed_of_located (h : Located fs lookup name a) (hfs : fs.IsAnchored)
    (hname : IsStep name) (hn : Name.canonical name = name) : a.IsNamed name := by
  refine ⟨?_, ?_, ?_, fun other => no_slash_of_located h hname.no_slash⟩
  · cases h with
    | direct hc =>
      exact id?_ofChain (fileName?_start hfs hname (firstChain?_eq_some_iff.1 hc)) hn
    | fromTemplate => rw [id?, ofTemplate, List.eraseDups_cons, List.head?_cons]
  · cases h with
    | direct | fromTemplate => exact (firstPlaces_eraseDups _).nodup
  · intro other ho
    cases h with
    | direct => exact canonical_of_mem_fileNames (mem_names_ofChain.1 ho)
    | fromTemplate =>
      rcases mem_names_ofTemplate.1 ho with rfl | ⟨template, -, n, -, hinst⟩
      · exact hn
      · obtain ⟨-, rfl⟩ := Name.instantiate?_eq_some_iff.1 hinst
        exact Name.canonical_text _

/-- The chain of an alias set was found in a lookup directory, under the name or its template. -/
theorem exists_firstAt_of_located (h : Located fs lookup name a) :
    ∃ found, (found = name ∨ Name.templateOf? name = some found) ∧
      FirstAt fs lookup found a.chain := by
  cases h with
  | direct hc => exact ⟨name, .inl rfl, firstChain?_eq_some_iff.1 hc⟩
  | fromTemplate _ hb _ hc => exact ⟨_, .inr hb, firstChain?_eq_some_iff.1 hc⟩

/-- A unit that is located has a chain, which was asked for in a lookup directory, and the name that
was asked for is the first of its aliases. If it was found under that name itself, its aliases are
the file names of the chain, each at its first place. -/
theorem locate_isNamed (hfs : fs.IsAnchored) (lookup : Lookup) (text : String)
    (hslash : '/' ∉ (Name.canonical text).toList) (hdot : Name.canonical text ≠ ".")
    (hdots : Name.canonical text ≠ "..") (h : locate fs lookup text = .ok a) :
    a.chain.toList ≠ [] ∧
    (∃ dir ∈ lookup.dirs, ∃ found,
      (found = Name.canonical text ∨ Name.templateOf? (Name.canonical text) = some found) ∧
      fs.chain (Path.join ⟨dir⟩ found) = .ok a.chain.toList ∧
      a.fragment.same (Path.join ⟨dir⟩ found) = true) ∧
    a.IsNamed (Name.canonical text) ∧
    ∀ c, FirstAt fs lookup (Name.canonical text) c →
      a.chain = c ∧ FirstPlaces c.fileNames a.names := by
  rw [locate_eq_ok_iff] at h
  have hstep : IsStep (Name.canonical text) :=
    ⟨Name.canonical_ne_empty text, hslash, hdot, hdots⟩
  have hnamed := isNamed_of_located h hfs hstep (Name.canonical_canonical text)
  refine ⟨List.cons_ne_nil _ _, ?_, hnamed, ?_⟩
  · obtain ⟨found, hfound, before, dir, after, hdirs, hchain, -⟩ := exists_firstAt_of_located h
    exact ⟨dir, by simp [hdirs], found, hfound, hchain, hfs _ _ _ hchain⟩
  · intro c hc
    rw [← firstChain?_eq_some_iff] at hc
    cases h with
    | direct hc' =>
      obtain rfl := Option.some.inj (hc'.symm.trans hc)
      exact ⟨rfl, firstPlaces_eraseDups _⟩
    | fromTemplate hn => cases hn.symm.trans hc

/-- A unit whose chain leads through a file of the same name without its type, through a place that
has no name, and to a place with a slash at its end. -/
def winding : NodeTable where
  nodes := [(Path.components ⟨"/u/web.service"⟩, .link "/lib//web"),
    (Path.components ⟨"/lib/web"⟩, .link "/lib/.."),
    (Path.components ⟨"/lib/.."⟩, .link "/lib/front.socket/"),
    (Path.components ⟨"/lib/front.socket"⟩, .file .empty)]
  listings := []

def windingChain : Chain where
  start := ⟨"/u/web.service"⟩
  targets := [⟨"/lib//web"⟩, ⟨"/lib/.."⟩, ⟨"/lib/front.socket/"⟩]

theorem winding_isNamed : ∃ a, locate winding.fileSystem ⟨["/u/"]⟩ "web" = .ok a ∧
    a.IsNamed "web.service" ∧
    FirstPlaces ["web.service", "web.service", "front.socket"] a.names := by
  have hname : Name.canonical "web" = "web.service" := by decide
  have hfirst : FirstAt winding.fileSystem ⟨["/u/"]⟩ "web.service" windingChain :=
    firstChain?_eq_some_iff.1 (by decide +kernel)
  have hopen : ¬ LeadsToNull windingChain := fun hl =>
    absurd (isMasked_iff.2 hl) (by decide +kernel)
  obtain ⟨a, ha, -⟩ := (locate_of_firstAt (hname ▸ hfirst)).2 hopen
  obtain ⟨-, -, hnamed, hplaces⟩ := locate_isNamed winding.isAnchored ⟨["/u/"]⟩ "web" (by decide)
    (by decide) (by decide) ha
  exact ⟨a, ha, hnamed, (hplaces _ hfirst).2⟩

end AliasSet

end ServiceUnits
