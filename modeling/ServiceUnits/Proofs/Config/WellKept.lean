import ServiceUnits.Proofs.Config.Continuation

namespace ServiceUnits

open Text

namespace Config

open Line Reader UnitFile

/-- A text as values are kept. It may be empty, and it may end in a backslash. -/
def IsKept (value : List Char) : Prop := trim value = value ∧ OneLine value

/-- The names of the sections, the keys and the values are what a line has room for, and no
section is left at the top level without a key. -/
structure WellKept (c : Config) : Prop where
  names : ∀ s ∈ c.sectionNames, OneLine s.toList
  top_level : topLevel ∈ c.sectionNames → ∃ key values, c.values? topLevel key = some values
  keys : ∀ s key values, c.values? s key = some values → IsKey key.toList
  values : ∀ s key v, c.HasValue s key v → IsKept v.toList

/-- A config that is left when texts are read one on top of the other, well-formed or not. -/
inductive Reached : Config → Prop
  | empty : Reached empty
  | overlay {c : Config} (h : Reached c) (text : String) : Reached (c.overlay text).1

namespace WellKept

variable {c : Config}

theorem empty : WellKept empty where
  names s hs := by simp [sectionNames, Config.empty, Dict.keys, Dict.empty] at hs
  top_level hs := by simp [sectionNames, Config.empty, Dict.keys, Dict.empty] at hs
  keys s key values h := by simp [values?, Config.empty] at h
  values s key v h := by simp [HasValue, values?, Config.empty] at h

theorem openSection (h : c.WellKept) {name : String} (hne : name ≠ topLevel)
    (hname : OneLine name.toList) : (c.openSection name).WellKept where
  names s hs := by
    rcases (c.mem_sectionNames_openSection name s).1 hs with rfl | hs
    · exact hname
    · exact h.names s hs
  top_level hs := by
    simp only [values?_openSection]
    exact h.top_level (((c.mem_sectionNames_openSection name topLevel).1 hs).resolve_left hne.symm)
  keys s key values hv := h.keys s key values (by rwa [values?_openSection] at hv)
  values s key v hv := h.values s key v (hasValue_openSection.1 hv)

theorem alterKey (h : c.WellKept) {name key : String} (hname : OneLine name.toList)
    (hkey : IsKey key.toList) {f : Option (List String) → List String}
    (hf : ∀ v ∈ f (c.values? name key), IsKept v.toList) : (c.alterKey name key f).WellKept where
  names s hs := by
    rcases (c.mem_sectionNames_alterKey name key f s).1 hs with rfl | hs
    · exact hname
    · exact h.names s hs
  top_level hs := by
    by_cases hs' : topLevel = name
    · exact ⟨key, _, (c.values?_alterKey name key f topLevel key).trans (if_pos ⟨hs', rfl⟩)⟩
    · obtain ⟨k, values, hk⟩ :=
        h.top_level (((c.mem_sectionNames_alterKey name key f topLevel).1 hs).resolve_left hs')
      refine ⟨k, values, ?_⟩
      rw [values?_alterKey, if_neg fun e => hs' e.1, hk]
  keys s k values hv := by
    rw [values?_alterKey] at hv
    split at hv
    · rename_i e
      exact e.2 ▸ hkey
    · exact h.keys s k values hv
  values s k v hv := by
    rw [hasValue_alterKey] at hv
    split at hv
    · exact hf v hv
    · exact h.values s k v hv

theorem append (h : c.WellKept) {name key value : String} (hname : OneLine name.toList)
    (hkey : IsKey key.toList) (hvalue : IsKept value.toList) :
    (c.append name key value).WellKept := by
  refine h.alterKey hname hkey fun v hv => ?_
  rcases List.mem_append.1 hv with hv | hv
  · exact h.values name key v hv
  · exact List.mem_singleton.1 hv ▸ hvalue

theorem reset (h : c.WellKept) {name key : String} (hname : OneLine name.toList)
    (hkey : IsKey key.toList) : (c.reset name key).WellKept :=
  h.alterKey hname hkey fun _ hv => absurd hv List.not_mem_nil

end WellKept

end Config

namespace Reader

open Config Line UnitFile

/-- The config of the reader is well-kept, and so will be what it does with its section and with the
value that is not complete. -/
structure WellKept (r : Reader) : Prop where
  config : r.config.WellKept
  current : OneLine r.current.toList
  pending : ∀ p, r.pending = some p → IsKey p.key.toList ∧ ∀ s ∈ p.segments, OneLine s

/-- What stands before the first `=` of a line, trimmed, is a key. -/
theorem isKey_of_isProperty {raw key value : List Char} (h : IsProperty (trim raw) key value)
    (hraw : OneLine raw) : IsKey (trim key) where
  ne_nil := h.trim_key_ne_nil
  trimmed := trim_trim key
  not_mem hm := h.not_mem_key (mem_of_mem_trim hm)
  one_line c hc := by
    refine hraw c (mem_of_mem_trim ?_)
    rw [h.eq_append]
    exact List.mem_append_left _ (mem_of_mem_trim hc)
  not_comment := by
    obtain ⟨c, cs, rfl⟩ := List.exists_cons_of_ne_nil h.key_ne_nil
    have hline : (trim raw).head? = some c := by rw [h.eq_append]; rfl
    have hblank : isBlank c = false := isBlank_head_trim hline
    have hkey : (trim (c :: cs)).head? = some c := head?_trim rfl hblank
    have hcomment := h.not_comment
    rwa [IsComment, hline, ← hkey] at hcomment

theorem oneLine_value_of_isProperty {raw key value : List Char}
    (h : IsProperty (trim raw) key value) (hraw : OneLine raw) : OneLine (trim value) := by
  intro c hc
  refine hraw c (mem_of_mem_trim ?_)
  rw [h.eq_append]
  exact List.mem_append_right _ (List.mem_cons_of_mem _ (mem_of_mem_trim hc))

/-- What stands before the last character of a line, trimmed, is in one line. -/
theorem oneLine_segment {s : List Char} (h : OneLine s) : OneLine (trimEnd s.dropLast) :=
  fun c hc => h c (List.dropLast_subset s (mem_of_mem_trimEnd hc))

/-- A value that is put together from segments is trimmed as a whole. -/
theorem isKept_value {p : Pending} (h : ∀ s ∈ p.segments, OneLine s) : IsKept p.value.toList := by
  rw [Pending.value, String.toList_ofList]
  refine ⟨trim_trim _, fun c hc => ?_⟩
  rcases mem_join (mem_of_mem_trim hc) with rfl | ⟨s, hs, hcs⟩
  · rfl
  · exact h s hs c hcs

theorem WellKept.start {c : Config} (h : c.WellKept) : (Reader.start c).WellKept where
  config := h
  current := (by decide : OneLine topLevel.toList)
  pending p hp := by cases hp

theorem WellKept.commit {r : Reader} (h : r.WellKept) : r.commit.config.WellKept := by
  cases hp : r.pending with
  | none => simpa only [Reader.commit, hp] using h.config
  | some p =>
    obtain ⟨hkey, hsegments⟩ := h.pending p hp
    simpa only [Reader.commit, hp] using h.config.append h.current hkey (isKept_value hsegments)

/-- A line of any kind leaves the reader as well-kept as it was. -/
theorem WellKept.step {r s : Reader} {raw : List Char} (h : r.WellKept) (hraw : OneLine raw)
    (hs : Step r raw s) : s.WellKept := by
  have htrim : OneLine (trim raw) := fun c hc => hraw c (mem_of_mem_trim hc)
  have hkey {key value : List Char} (hk : IsProperty (trim raw) key value) :
      IsKey (String.ofList (trim key)).toList := by
    rw [String.toList_ofList]
    exact isKey_of_isProperty hk hraw
  have hnone {p : Pending} {P : Prop} (hp : r.pending = none) (e : r.pending = some p) : P := by
    rw [hp] at e
    cases e
  cases hs with
  | idle => exact h
  | @header name hp hh =>
    have hname : OneLine (String.ofList name).toList := by
      intro c hc
      rw [String.toList_ofList] at hc
      refine htrim c ?_
      rw [hh.2]
      exact List.mem_cons_of_mem _ (List.mem_append_left _ hc)
    have hne : String.ofList name ≠ topLevel := fun e => hh.1 (String.ofList_eq_empty_iff.1 e)
    exact ⟨h.config.openSection hne hname, hname, fun p e => hnone hp e⟩
  | @clears key value hp hk hv =>
    exact ⟨h.config.reset h.current (hkey hk), h.current, fun p e => hnone hp e⟩
  | @whole key value hp hk hv hc =>
    have hvalue : IsKept (String.ofList (trim value)).toList := by
      rw [String.toList_ofList]
      exact ⟨trim_trim value, oneLine_value_of_isProperty hk hraw⟩
    exact ⟨h.config.append h.current (hkey hk) hvalue, h.current, fun p e => hnone hp e⟩
  | @opens key value hp hk hv hc =>
    refine ⟨h.config, h.current, fun p e => ?_⟩
    obtain rfl := Option.some.inj e
    refine ⟨hkey hk, fun s hs => ?_⟩
    obtain rfl := List.mem_singleton.1 hs
    exact oneLine_segment (oneLine_value_of_isProperty hk hraw)
  | @goesOn p hp hc =>
    refine ⟨h.config, h.current, fun q e => ?_⟩
    obtain rfl := Option.some.inj e
    obtain ⟨hkey, hsegments⟩ := h.pending p hp
    refine ⟨hkey, fun s hs => ?_⟩
    rcases List.mem_append.1 hs with hs | hs
    · exact hsegments s hs
    · obtain rfl := List.mem_singleton.1 hs
      exact oneLine_segment htrim
  | @ends p hp hc =>
    obtain ⟨hkey, hsegments⟩ := h.pending p hp
    have hall : ∀ s ∈ p.segments ++ [trim raw], OneLine s := by
      intro s hs
      rcases List.mem_append.1 hs with hs | hs
      · exact hsegments s hs
      · obtain rfl := List.mem_singleton.1 hs
        exact htrim
    exact ⟨h.config.append h.current hkey (isKept_value hall), h.current, fun q e => by cases e⟩

theorem Reads.wellKept {c : Config} {ls : List (List Char)} {r : Reader} (h : Reads c ls r)
    (hls : ∀ l ∈ ls, OneLine l) (hc : c.WellKept) : r.WellKept := by
  induction h with
  | start => exact .start hc
  | snoc _ hs ih =>
    rw [List.forall_mem_append, List.forall_mem_singleton] at hls
    exact (ih hls.1).step hls.2 hs

end Reader

namespace Config

open Line Reader UnitFile

variable {c : Config}

/-- A text leaves a well-kept config well-kept, also when it is rejected. -/
theorem WellKept.overlay (h : c.WellKept) (text : String) : (c.overlay text).1.WellKept := by
  have hends : ∀ l ∈ lines text, OneLine l := fun l hl => not_isLineEnd_of_mem_lines hl
  rw [overlay_eq_run]
  rcases reads_or_malformed c (lines text) with ⟨r, hr⟩ | ⟨pre, line, post, r, e, hr, hp, hm⟩
  · rw [hr.run_eq]
    exact (hr.wellKept hends h).commit
  · rw [e] at hends ⊢
    rw [hr.run_malformed hp hm]
    exact (hr.wellKept (fun l hl => hends l (List.mem_append_left _ hl)) h).config

theorem Reached.wellKept (h : Reached c) : c.WellKept := by
  induction h with
  | empty => exact .empty
  | overlay _ text ih => exact ih.overlay text

/-- Lines that are read to the end make a text that leaves what they leave. -/
theorem Reached.ofLines {ls : List (List Char)} {r : Reader} (h : Reached c) (hr : Reads c ls r)
    (hls : ∀ l ∈ ls, OneLine l) : Reached r.commit.config := by
  have htext := h.overlay (Config.ofLines ls)
  rwa [overlay_ofLines c hls, hr.run_eq] at htext

theorem setSection_openSection {s : String} {d : Section}
    (hd : (c.sections.find? s).getD .empty = d) : c.openSection s = c.setSection s d := by
  rw [openSection, Dict.alter_eq_insert, hd, setSection]

theorem alterKey_openSection (s key : String) (f : Option (List String) → List String) :
    (c.openSection s).alterKey s key f = c.alterKey s key f := by
  have hopen := setSection_openSection (c := c) (s := s) rfl
  rw [hopen, alterKey_eq (by rw [find?_setSection_self, Option.getD_some]), setSection_setSection,
    alterKey_eq rfl]

/-- A section is opened by its header, the top level by nothing. -/
theorem exists_reads_section (c : Config) {s : String} (hs : OneLine s.toList) :
    ∃ ls d, (∀ l ∈ ls, OneLine l) ∧ Reads c ls ⟨d, s, none⟩ ∧
      ∀ key f, d.alterKey s key f = c.alterKey s key f := by
  by_cases htop : s = topLevel
  · subst htop
    exact ⟨[], c, fun l hl => absurd hl List.not_mem_nil, .start, fun _ _ => rfl⟩
  · refine ⟨[headerLine s], c.openSection s, ?_, Reads.start.snoc (step_header htop),
      alterKey_openSection s⟩
    exact List.forall_mem_singleton.2 (oneLine_headerLine hs)

/-- A value is written with a continuation behind it, so that it may be empty or end in a
backslash. -/
def continuedValue (value : String) : SplitValue := ⟨value ++ " ", [], ""⟩

theorem wellSplit_continuedValue (value : String) : (continuedValue value).WellSplit where
  first := by
    have hblank : (value.toList ++ [' ']).getLast? = some ' ' := List.getLast?_concat
    have hodd := endsOdd_append hblank (by decide) []
    rw [List.append_nil] at hodd
    simpa [continuedValue] using hodd.not.2 (by decide)
  inner s hs := absurd hs List.not_mem_nil
  last := (by decide : ¬ EndsOdd (trim "".toList))

theorem value_continuedValue {value : String} (h : IsKept value.toList) :
    (continuedValue value).value = value := by
  have hfirst : trim (value ++ " ").toList = value.toList := by
    rw [String.toList_append]
    exact (trim_concat_blank value.toList rfl).trans h.1
  have hjoined : join ' ' (continuedValue value).segments = value.toList ++ [' '] := by
    rw [SplitValue.segments, continuedValue, hfirst]
    rfl
  rw [SplitValue.value, hjoined, trim_concat_blank _ rfl, h.1, String.ofList_toList]

namespace Reached

theorem openSection (h : Reached c) {name : String} (hne : name ≠ topLevel)
    (hname : OneLine name.toList) : Reached (c.openSection name) :=
  h.ofLines (Reads.start.snoc (step_header hne))
    (List.forall_mem_singleton.2 (oneLine_headerLine hname))

theorem reset (h : Reached c) {name key : String} (hname : OneLine name.toList)
    (hkey : IsKey key.toList) : Reached (c.reset name key) := by
  obtain ⟨ls, d, hls, hr, hd⟩ := exists_reads_section c hname
  have hline : OneLine (assignmentLine key "") := oneLine_assignmentLine hkey.one_line (by decide)
  have hreset := h.ofLines (hr.snoc (step_clear hkey))
    (List.forall_mem_append.2 ⟨hls, List.forall_mem_singleton.2 hline⟩)
  have hsame : d.reset name key = c.reset name key := hd key _
  exact hsame ▸ hreset

theorem append (h : Reached c) {name key value : String} (hname : OneLine name.toList)
    (hkey : IsKey key.toList) (hvalue : IsKept value.toList) :
    Reached (c.append name key value) := by
  obtain ⟨ls, d, hls, hr, hd⟩ := exists_reads_section c hname
  have hsplit := hr.splitValue rfl hkey (wellSplit_continuedValue value)
  rw [value_continuedValue hvalue] at hsplit
  have hfirst : OneLine (assignmentLine key (value ++ " " ++ "\\")) := by
    refine oneLine_assignmentLine hkey.one_line fun ch hch => ?_
    simp only [String.toList_append, List.mem_append] at hch
    rcases hch with (hch | hch) | hch
    · exact hvalue.2 ch hch
    · exact List.mem_singleton.1 hch ▸ rfl
    · exact List.mem_singleton.1 hch ▸ rfl
  have hlines : ∀ l ∈ (continuedValue value).lines key, OneLine l := by
    intro l hl
    rcases List.mem_append.1 hl with hl | hl
    · obtain rfl := List.mem_singleton.1 hl
      exact hfirst
    · obtain rfl := List.mem_singleton.1 hl
      exact fun ch hch => absurd hch List.not_mem_nil
  have happend := h.ofLines hsplit (List.forall_mem_append.2 ⟨hls, hlines⟩)
  have hsame : d.append name key value = c.append name key value := hd key _
  exact hsame ▸ happend

theorem alterKey (h : Reached c) {name key : String} (hname : OneLine name.toList)
    (hkey : IsKey key.toList) {values : List String} (hvalues : ∀ v ∈ values, IsKept v.toList) :
    Reached (c.alterKey name key fun _ => values) := by
  induction values using List.reverseRecOn with
  | nil => exact h.reset hname hkey
  | append_singleton values value ih =>
    rw [List.forall_mem_append, List.forall_mem_singleton] at hvalues
    have hmore := (ih hvalues.1).append hname hkey hvalues.2
    rw [alterKey_eq rfl, Config.append,
      alterKey_eq (by rw [find?_setSection_self, Option.getD_some]), setSection_setSection,
      Dict.insert_insert, Dict.find?_insert, if_pos rfl] at hmore
    rw [alterKey_eq rfl]
    exact hmore

/-- A section is added key by key. The first key opens the section at the top level. -/
theorem setSection (h : Reached c) {name : String} (hname : OneLine name.toList)
    (hnew : c.sections.find? name = none) {d : Section}
    (hd : ∀ key values, d.find? key = some values →
      IsKey key.toList ∧ ∀ v ∈ values, IsKept v.toList)
    (hne : d = .empty → name ≠ topLevel) : Reached (c.setSection name d) := by
  have hnone : (c.sections.find? name).getD .empty = .empty := by rw [hnew, Option.getD_none]
  induction d using Dict.induction_insert with
  | empty => exact setSection_openSection hnone ▸ h.openSection (hne rfl) hname
  | insert d key values hkey ih =>
    obtain ⟨hk, hvalues⟩ := hd key values (by rw [Dict.find?_insert, if_pos rfl])
    by_cases hempty : d = .empty
    · subst hempty
      have hfirst := h.alterKey hname hk hvalues
      rwa [alterKey_eq hnone] at hfirst
    · have hbefore : Reached (c.setSection name d) := by
        refine ih (fun k vs hold => hd k vs ?_) fun e => absurd e hempty
        have hkne : k ≠ key := by
          rintro rfl
          rw [hkey] at hold
          cases hold
        rw [Dict.find?_insert, if_neg hkne, hold]
      have hmore := hbefore.alterKey hname hk hvalues
      rwa [alterKey_eq (by rw [find?_setSection_self, Option.getD_some]),
        setSection_setSection] at hmore

end Reached

theorem values?_setSection (c : Config) (s : String) (d : Section) (n k : String) :
    (c.setSection s d).values? n k = if n = s then d.find? k else c.values? n k := by
  rw [values?, find?_setSection]
  split
  · rfl
  · rfl

theorem mem_sectionNames_setSection (c : Config) (s : String) (d : Section) (n : String) :
    n ∈ (c.setSection s d).sectionNames ↔ n = s ∨ n ∈ c.sectionNames := by
  rw [sectionNames, Dict.mem_keys_iff, find?_setSection, sectionNames, Dict.mem_keys_iff]
  split <;> simp_all

namespace WellKept

/-- Without one of its sections a config is well-kept still. -/
theorem of_setSection {s : String} {d : Section} (h : (c.setSection s d).WellKept)
    (hnew : c.sections.find? s = none) : c.WellKept := by
  have hno : s ∉ c.sectionNames := by
    rw [sectionNames, Dict.mem_keys_iff, hnew]
    exact Bool.false_ne_true
  have hvalues {n k : String} (hn : n ≠ s) : (c.setSection s d).values? n k = c.values? n k := by
    rw [values?_setSection, if_neg hn]
  have hne {n k : String} (hn : c.values? n k ≠ none) : n ≠ s := by
    rintro rfl
    exact hn (by simp [values?, hnew])
  refine ⟨fun n hn => ?_, fun htop => ?_, fun n k vs hv => ?_, fun n k v hv => ?_⟩
  · exact h.names n ((c.mem_sectionNames_setSection s d n).2 (.inr hn))
  · obtain ⟨k, vs, hv⟩ := h.top_level ((c.mem_sectionNames_setSection s d _).2 (.inr htop))
    rw [hvalues fun e : topLevel = s => hno (e ▸ htop)] at hv
    exact ⟨k, vs, hv⟩
  · have hn : n ≠ s := hne (by rw [hv]; exact Option.some_ne_none vs)
    exact h.keys n k vs ((hvalues hn).trans hv)
  · have hsome : c.values? n k ≠ none := fun hnone => by simp [HasValue, hnone] at hv
    have hn : n ≠ s := hne hsome
    refine h.values n k v ?_
    rwa [HasValue, hvalues hn]

/-- Section by section, every config that is well-kept can be left by texts. -/
theorem reached (h : c.WellKept) : Reached c := by
  obtain ⟨sections⟩ := c
  induction sections using Dict.induction_insert with
  | empty => exact .empty
  | insert sections s d hnew ih =>
    have hsection : (Config.setSection ⟨sections⟩ s d).WellKept := h
    have hmem : s ∈ (Config.setSection ⟨sections⟩ s d).sectionNames :=
      (mem_sectionNames_setSection _ s d s).2 (.inl rfl)
    have hvalues (k : String) : (Config.setSection ⟨sections⟩ s d).values? s k = d.find? k := by
      rw [values?_setSection, if_pos rfl]
    have hrest : Reached ⟨sections⟩ := ih (hsection.of_setSection hnew)
    refine hrest.setSection (hsection.names s hmem) hnew (fun k vs hk => ?_) ?_
    · rw [← hvalues] at hk
      refine ⟨hsection.keys s k vs hk, fun v hv => hsection.values s k v ?_⟩
      rwa [HasValue, hk]
    · rintro rfl rfl
      obtain ⟨k, vs, hv⟩ := hsection.top_level hmem
      rw [hvalues, Dict.find?_empty] at hv
      cases hv

end WellKept

/-- The configs that texts leave, read one on top of the other and rejected or not, are those whose
sections, keys and values are what a line has room for. -/
theorem reached_iff_wellKept (c : Config) : Reached c ↔ c.WellKept :=
  ⟨Reached.wellKept, WellKept.reached⟩

end Config

end ServiceUnits
