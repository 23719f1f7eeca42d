import Mathlib.Tactic.MkIffOfInductiveProp
import ServiceUnits.Proofs.Config.Overlay

namespace ServiceUnits

open Text

/-- Keys with their values, in the order in which they are written. -/
abbrev Assignments := List (String × List String)

structure UnitFile where
  top : Assignments
  sections : List (String × Assignments)

namespace UnitFile

open Config Line

def assignmentLine (key value : String) : List Char := key.toList ++ '=' :: value.toList

/-- A line for each value; a key without values is cleared. -/
def keyLines (key : String) (values : List String) : List (List Char) :=
  if values = [] then [assignmentLine key ""] else values.map (assignmentLine key)

def linesOf (es : Assignments) : List (List Char) := es.flatMap fun e => keyLines e.1 e.2

def headerLine (name : String) : List Char := '[' :: (name.toList ++ [']'])

def sectionLines (s : String × Assignments) : List (List Char) := headerLine s.1 :: linesOf s.2

def lines (f : UnitFile) : List (List Char) := linesOf f.top ++ f.sections.flatMap sectionLines

/-- The lines of the file, each with a line feed at its end. -/
def text (f : UnitFile) : String := .ofList (f.lines.flatMap (· ++ ['\n']))

/-- The sections of the file with their names. Without keys there is no section before the first
header. -/
def parts (f : UnitFile) : List (String × Assignments) :=
  (if f.top = [] then [] else [(topLevel, f.top)]) ++ f.sections

def config (f : UnitFile) : Config := ⟨.ofList (f.parts.map fun s => (s.1, .ofList s.2))⟩

/-- The text has no line ends in it. -/
def OneLine (s : List Char) : Prop := ∀ c ∈ s, isLineEnd c = false

/-- A text that can be read as a key. -/
@[mk_iff] structure IsKey (key : List Char) : Prop where
  ne_nil : key ≠ []
  trimmed : trim key = key
  not_mem : '=' ∉ key
  one_line : OneLine key
  not_comment : ¬ IsComment key

/-- A text that can be read as a value that is complete. -/
@[mk_iff] structure IsValue (value : List Char) : Prop where
  ne_nil : value ≠ []
  trimmed : trim value = value
  one_line : OneLine value
  complete : ¬ EndsOdd value

/-- The line looks like a header. -/
def IsBracketed (line : List Char) : Prop := line.head? = some '[' ∧ line.getLast? = some ']'

@[mk_iff] structure WritableKeys (es : Assignments) : Prop where
  nodup : (es.map (·.1)).Nodup
  keys : ∀ e ∈ es, IsKey e.1.toList
  values : ∀ e ∈ es, ∀ value ∈ e.2, IsValue value.toList
  not_bracketed : ∀ e ∈ es, ∀ value ∈ e.2, ¬ IsBracketed (assignmentLine e.1 value)

@[mk_iff] structure Writable (f : UnitFile) : Prop where
  top : WritableKeys f.top
  nodup : (f.sections.map (·.1)).Nodup
  names : ∀ s ∈ f.sections, s.1 ≠ "" ∧ OneLine s.1.toList
  sections : ∀ s ∈ f.sections, WritableKeys s.2

instance : DecidablePred OneLine := fun s => List.decidableBAll (isLineEnd · = false) s

instance : DecidablePred IsKey := fun _ => decidable_of_iff _ (isKey_iff _).symm

instance : DecidablePred IsValue := fun _ => decidable_of_iff _ (isValue_iff _).symm

instance : DecidablePred IsBracketed := fun _ => inferInstanceAs (Decidable (_ ∧ _))

instance : DecidablePred WritableKeys := fun _ => decidable_of_iff _ (writableKeys_iff _).symm

instance : DecidablePred Writable := fun _ => decidable_of_iff _ (writable_iff _).symm

theorem WritableKeys.tail {e : String × List String} {es : Assignments}
    (h : WritableKeys (e :: es)) : WritableKeys es where
  nodup := (List.nodup_cons.1 h.nodup).2
  keys := fun x hx => h.keys x (List.mem_cons_of_mem e hx)
  values := fun x hx => h.values x (List.mem_cons_of_mem e hx)
  not_bracketed := fun x hx => h.not_bracketed x (List.mem_cons_of_mem e hx)

theorem WritableKeys.head_ne {e x : String × List String} {es : Assignments}
    (h : WritableKeys (e :: es)) (hx : x ∈ es) : x.1 ≠ e.1 := fun he =>
  (List.nodup_cons.1 h.nodup).1 (List.mem_map.2 ⟨x, hx, he⟩)

theorem isHeader_headerLine {name : String} (h : name ≠ "") :
    IsHeader (trim (headerLine name)) name.toList := by
  have htrim : trim (headerLine name) = headerLine name := by
    refine trim_eq_self_iff.2 ⟨fun c hc => ?_, fun c hc => ?_⟩
    · obtain rfl : '[' = c := by simpa [headerLine] using hc
      rfl
    · have hlast : (headerLine name).getLast? = some ']' := by
        rw [headerLine, ← List.cons_append, List.getLast?_concat]
      obtain rfl := Option.some.inj (hlast.symm.trans hc)
      rfl
  exact ⟨by simpa using h, htrim⟩

/-- A key and a value that ends in no blank are read from the line that they are written on. -/
theorem isProperty_assignmentLine {key value : String} (hk : IsKey key.toList)
    (hv : ∀ c, value.toList.getLast? = some c → isBlank c = false)
    (hb : ¬ IsBracketed (assignmentLine key value)) :
    IsProperty (trim (assignmentLine key value)) key.toList value.toList := by
  obtain ⟨k, ks, hks⟩ := List.exists_cons_of_ne_nil hk.ne_nil
  have hhead : (assignmentLine key value).head? = key.toList.head? := by
    rw [assignmentLine, hks]
    rfl
  have htrim : trim (assignmentLine key value) = assignmentLine key value := by
    refine trim_eq_self_iff.2 ⟨fun c hc => ?_, fun c hc => ?_⟩
    · exact (trim_eq_self_iff.1 hk.trimmed).1 c (hhead ▸ hc)
    · rw [assignmentLine, List.getLast?_append, List.getLast?_cons] at hc
      cases hlast : value.toList.getLast? with
      | none =>
        obtain rfl : '=' = c := by simpa [hlast] using hc
        rfl
      | some d =>
        obtain rfl : d = c := by simpa [hlast] using hc
        exact hv d hlast
  rw [htrim]
  refine ⟨?_, ?_, hk.ne_nil, hk.not_mem, rfl⟩
  · rw [IsComment, hhead]
    exact hk.not_comment
  · intro name hn
    refine hb ⟨by rw [hn.2]; rfl, ?_⟩
    rw [hn.2, ← List.cons_append, List.getLast?_concat]

theorem not_isBracketed_empty (key : String) : ¬ IsBracketed (assignmentLine key "") := by
  intro h
  have hlast : (assignmentLine key "").getLast? = some '=' := by
    rw [assignmentLine]
    exact List.getLast?_concat
  exact absurd (hlast.symm.trans h.2) (by decide)

end UnitFile

namespace Reader

open Config Line UnitFile

variable {c : Config} {s : String}

theorem step_header {name : String} (hn : name ≠ "") :
    Step ⟨c, s, none⟩ (headerLine name) ⟨c.openSection name, name, none⟩ := by
  have hstep := Step.header (r := ⟨c, s, none⟩) rfl (isHeader_headerLine hn)
  simpa only [String.ofList_toList] using hstep

theorem step_clear {key : String} (hk : IsKey key.toList) :
    Step ⟨c, s, none⟩ (assignmentLine key "") ⟨c.reset s key, s, none⟩ := by
  have hproperty : IsProperty (trim (assignmentLine key "")) key.toList "".toList :=
    isProperty_assignmentLine hk (fun c hc => by cases hc) (not_isBracketed_empty key)
  have hstep := Step.clears (r := ⟨c, s, none⟩) rfl hproperty rfl
  simpa only [hk.trimmed, String.ofList_toList] using hstep

theorem run_header {name : String} (hn : name ≠ "") (rest : List (List Char)) :
    (⟨c, s, none⟩ : Reader).run (headerLine name :: rest) =
      (⟨c.openSection name, name, none⟩ : Reader).run rest := (step_header hn).run_cons rest

theorem run_clear {key : String} (hk : IsKey key.toList) (rest : List (List Char)) :
    (⟨c, s, none⟩ : Reader).run (assignmentLine key "" :: rest) =
      (⟨c.reset s key, s, none⟩ : Reader).run rest := (step_clear hk).run_cons rest

/-- A line with a complete value adds it to the values of the key. -/
theorem step_value {key value : String} (hk : IsKey key.toList)
    (ht : trim value.toList = value.toList) (hne : value.toList ≠ [])
    (hodd : ¬ EndsOdd value.toList) (hb : ¬ IsBracketed (assignmentLine key value)) :
    Step ⟨c, s, none⟩ (assignmentLine key value) ⟨c.append s key value, s, none⟩ := by
  have hproperty := isProperty_assignmentLine hk (trim_eq_self_iff.1 ht).2 hb
  have hstep := Step.whole (r := ⟨c, s, none⟩) rfl hproperty (by rwa [ht]) (by rwa [ht])
  simpa only [hk.trimmed, ht, String.ofList_toList] using hstep

theorem run_value {key value : String} (hk : IsKey key.toList) (hv : IsValue value.toList)
    (hb : ¬ IsBracketed (assignmentLine key value)) (rest : List (List Char)) :
    (⟨c, s, none⟩ : Reader).run (assignmentLine key value :: rest) =
      (⟨c.append s key value, s, none⟩ : Reader).run rest :=
  (step_value hk hv.trimmed hv.ne_nil hv.complete hb).run_cons rest

theorem run_values {key : String} (hk : IsKey key.toList) {values : List String}
    (hv : ∀ value ∈ values, IsValue value.toList)
    (hb : ∀ value ∈ values, ¬ IsBracketed (assignmentLine key value)) (rest : List (List Char)) :
    (⟨c, s, none⟩ : Reader).run (values.map (assignmentLine key) ++ rest) =
      (⟨values.foldl (·.append s key ·) c, s, none⟩ : Reader).run rest := by
  induction values generalizing c with
  | nil => rfl
  | cons value values ih =>
    rw [List.forall_mem_cons] at hv hb
    rw [List.map_cons, List.cons_append, run_value hk hv.1 hb.1, ih hv.2 hb.2, List.foldl_cons]

end Reader

namespace Config

/-- The config with a section in place of the one of that name. -/
def setSection (c : Config) (s : String) (d : Section) : Config := ⟨c.sections.insert s d⟩

theorem find?_setSection (c : Config) (s : String) (d : Section) (n : String) :
    (c.setSection s d).sections.find? n = if n = s then some d else c.sections.find? n :=
  c.sections.find?_insert s d n

theorem find?_setSection_self (c : Config) (s : String) (d : Section) :
    (c.setSection s d).sections.find? s = some d := by
  rw [find?_setSection, if_pos rfl]

theorem setSection_setSection (c : Config) (s : String) (d e : Section) :
    (c.setSection s d).setSection s e = c.setSection s e :=
  congrArg Config.mk (c.sections.insert_insert s d e)

theorem setSection_of_find? {c : Config} {s : String} {d : Section}
    (h : c.sections.find? s = some d) : c.setSection s d = c :=
  congrArg Config.mk (Dict.insert_of_find? h)

/-- In the section that it belongs to, an altered key is an inserted one. -/
theorem alterKey_eq {c : Config} {s key : String} {d : Section}
    (hd : (c.sections.find? s).getD .empty = d) (f : Option (List String) → List String) :
    c.alterKey s key f = c.setSection s (d.insert key (f (d.find? key))) := by
  rw [alterKey, Dict.alter_eq_insert, hd, Dict.alter_eq_insert, setSection]

theorem foldl_append_eq {c : Config} {s key : String} {d : Section} {old : List String}
    (hd : c.sections.find? s = some d) (hold : d.find? key = some old) (values : List String) :
    values.foldl (·.append s key ·) c = c.setSection s (d.insert key (old ++ values)) := by
  induction values generalizing c d old with
  | nil =>
    rw [List.append_nil, Dict.insert_of_find? hold, setSection_of_find? hd, List.foldl_nil]
  | cons value values ih =>
    have happend : c.append s key value = c.setSection s (d.insert key (old ++ [value])) := by
      rw [append, alterKey_eq (by rw [hd, Option.getD_some]), hold, Option.getD_some]
    have hold' : (d.insert key (old ++ [value])).find? key = some (old ++ [value]) := by
      rw [Dict.find?_insert, if_pos rfl]
    rw [List.foldl_cons, happend, ih (c.find?_setSection_self s _) hold', setSection_setSection,
      Dict.insert_insert, List.append_assoc, List.singleton_append]

end Config

namespace Reader

open Config Line UnitFile

variable {c : Config} {s : String}

/-- A key that is new in the open section has the values that were written, in their order. -/
theorem run_keyLines {d : Section} (hd : (c.sections.find? s).getD .empty = d)
    {e : String × List String} {es : Assignments} (hes : WritableKeys (e :: es))
    (hnew : d.find? e.1 = none) (rest : List (List Char)) :
    (⟨c, s, none⟩ : Reader).run (keyLines e.1 e.2 ++ rest) =
      (⟨c.setSection s (d.insert e.1 e.2), s, none⟩ : Reader).run rest := by
  obtain ⟨key, values⟩ := e
  have hk : IsKey key.toList := hes.keys _ List.mem_cons_self
  have hv : ∀ value ∈ values, IsValue value.toList := hes.values _ List.mem_cons_self
  have hb : ∀ value ∈ values, ¬ IsBracketed (assignmentLine key value) :=
    hes.not_bracketed _ List.mem_cons_self
  cases values with
  | nil => rw [keyLines, if_pos rfl, List.singleton_append, run_clear hk, reset, alterKey_eq hd]
  | cons value values =>
    have hfirst : c.append s key value = c.setSection s (d.insert key [value]) := by
      rw [append, alterKey_eq hd, hnew]
      rfl
    have hold : (d.insert key [value]).find? key = some [value] := by
      rw [Dict.find?_insert, if_pos rfl]
    rw [keyLines, if_neg (List.cons_ne_nil _ _), run_values hk hv hb, List.foldl_cons, hfirst,
      foldl_append_eq (c.find?_setSection_self s _) hold, setSection_setSection,
      Dict.insert_insert, List.singleton_append]

theorem run_linesOf {d : Section} (hd : c.sections.find? s = some d) {es : Assignments}
    (hes : WritableKeys es) (hnew : ∀ e ∈ es, d.find? e.1 = none) (rest : List (List Char)) :
    (⟨c, s, none⟩ : Reader).run (linesOf es ++ rest) =
      (⟨c.setSection s (es.foldl (fun d e => d.insert e.1 e.2) d), s, none⟩ : Reader).run rest := by
  induction es generalizing c d with
  | nil =>
    rw [List.foldl_nil, setSection_of_find? hd]
    rfl
  | cons e es ih =>
    have hfirst := run_keyLines (by rw [hd, Option.getD_some]) hes (hnew e List.mem_cons_self)
      (linesOf es ++ rest)
    have hnew' : ∀ x ∈ es, (d.insert e.1 e.2).find? x.1 = none := by
      intro x hx
      rw [Dict.find?_insert, if_neg (hes.head_ne hx), hnew x (List.mem_cons_of_mem e hx)]
    rw [linesOf, List.flatMap_cons, List.append_assoc, ← linesOf, hfirst,
      ih (c.find?_setSection_self s _) hes.tail hnew', setSection_setSection, List.foldl_cons]

/-- The keys before the first header make a section if there are any. -/
theorem run_top {es : Assignments} (hes : WritableKeys es) (rest : List (List Char)) :
    (start empty).run (linesOf es ++ rest) =
      (start (if es = [] then empty else empty.setSection topLevel (.ofList es))).run rest := by
  cases es with
  | nil => rfl
  | cons e es =>
    have hfirst := run_keyLines (c := empty) (s := topLevel) (d := .empty) rfl hes rfl
      (linesOf es ++ rest)
    have hnew : ∀ x ∈ es, (Dict.empty.insert e.1 e.2).find? x.1 = none := by
      intro x hx
      rw [Dict.find?_insert, if_neg (hes.head_ne hx), Dict.find?_empty]
    rw [linesOf, List.flatMap_cons, List.append_assoc, ← linesOf, start, hfirst,
      run_linesOf (empty.find?_setSection_self topLevel _) hes.tail hnew, setSection_setSection,
      if_neg (List.cons_ne_nil _ _)]
    rfl

/-- A section that is new has the keys that were written. -/
theorem run_sectionLines {part : String × Assignments} (hname : part.1 ≠ "")
    (hkeys : WritableKeys part.2) (hnew : c.sections.find? part.1 = none)
    (rest : List (List Char)) :
    (⟨c, s, none⟩ : Reader).run (sectionLines part ++ rest) =
      (⟨c.setSection part.1 (.ofList part.2), part.1, none⟩ : Reader).run rest := by
  have hopen : c.openSection part.1 = c.setSection part.1 .empty := by
    rw [openSection, Dict.alter_eq_insert, hnew, Option.getD_none, setSection]
  rw [sectionLines, List.cons_append, run_header hname, hopen,
    run_linesOf (c.find?_setSection_self part.1 _) hkeys fun e _ => Dict.find?_empty e.1,
    setSection_setSection]
  rfl

theorem run_sections {parts : List (String × Assignments)} (hnodup : (parts.map (·.1)).Nodup)
    (hnames : ∀ part ∈ parts, part.1 ≠ "") (hkeys : ∀ part ∈ parts, WritableKeys part.2)
    (hnew : ∀ part ∈ parts, c.sections.find? part.1 = none) :
    ∃ current, ∀ rest, (⟨c, s, none⟩ : Reader).run (parts.flatMap sectionLines ++ rest) =
      (⟨parts.foldl (fun c part => c.setSection part.1 (.ofList part.2)) c, current, none⟩ :
        Reader).run rest := by
  induction parts generalizing c s with
  | nil => exact ⟨s, fun rest => rfl⟩
  | cons part parts ih =>
    rw [List.map_cons, List.nodup_cons] at hnodup
    rw [List.forall_mem_cons] at hnames hkeys hnew
    have hnew' : ∀ x ∈ parts,
        (c.setSection part.1 (.ofList part.2)).sections.find? x.1 = none := by
      intro x hx
      have hne : x.1 ≠ part.1 := fun he => hnodup.1 (List.mem_map.2 ⟨x, hx, he⟩)
      rw [find?_setSection, if_neg hne, hnew.2 x hx]
    obtain ⟨current, hrun⟩ := ih (s := part.1) hnodup.2 hnames.2 hkeys.2 hnew'
    refine ⟨current, fun rest => ?_⟩
    rw [List.flatMap_cons, List.append_assoc, run_sectionLines hnames.1 hkeys.1 hnew.1, hrun,
      List.foldl_cons]

end Reader

namespace UnitFile

open Config Line Reader

theorem config_eq (f : UnitFile) :
    f.config = f.sections.foldl (fun c part => c.setSection part.1 (.ofList part.2))
      (if f.top = [] then empty else empty.setSection topLevel (.ofList f.top)) := by
  have hfold (parts : List (String × Assignments)) (c : Config) :
      parts.foldl (fun c part => c.setSection part.1 (.ofList part.2)) c =
        ⟨(parts.map fun s => (s.1, Dict.ofList s.2)).foldl (fun d e => d.insert e.1 e.2)
          c.sections⟩ := by
    induction parts generalizing c with
    | nil => rfl
    | cons part parts ih => rw [List.foldl_cons, ih]; rfl
  rw [hfold, config, parts]
  by_cases htop : f.top = []
  · simp [htop, Dict.ofList, empty]
  · simp [htop, Dict.ofList, empty, setSection]

theorem oneLine_assignmentLine {key value : String} (hkey : OneLine key.toList)
    (hvalue : OneLine value.toList) : OneLine (assignmentLine key value) := by
  intro c hc
  rcases List.mem_append.1 hc with hc | hc
  · exact hkey c hc
  · rcases List.mem_cons.1 hc with rfl | hc
    · rfl
    · exact hvalue c hc

theorem oneLine_headerLine {name : String} (h : OneLine name.toList) :
    OneLine (headerLine name) := by
  intro c hc
  rcases List.mem_cons.1 hc with rfl | hc
  · rfl
  · rcases List.mem_append.1 hc with hc | hc
    · exact h c hc
    · obtain rfl := List.mem_singleton.1 hc
      rfl

theorem oneLine_of_mem_linesOf {es : Assignments} (hes : WritableKeys es) {line : List Char}
    (hl : line ∈ linesOf es) : OneLine line := by
  obtain ⟨e, he, hl⟩ := List.mem_flatMap.1 hl
  have hkey : OneLine e.1.toList := (hes.keys e he).one_line
  rw [keyLines] at hl
  split at hl
  · obtain rfl := List.mem_singleton.1 hl
    exact oneLine_assignmentLine hkey (by decide)
  · obtain ⟨value, hvalue, rfl⟩ := List.mem_map.1 hl
    exact oneLine_assignmentLine hkey (hes.values e he value hvalue).one_line

theorem Writable.oneLine {f : UnitFile} (h : f.Writable) {line : List Char}
    (hl : line ∈ f.lines) : OneLine line := by
  rcases List.mem_append.1 hl with hl | hl
  · exact oneLine_of_mem_linesOf h.top hl
  · obtain ⟨part, hpart, hl⟩ := List.mem_flatMap.1 hl
    rcases List.mem_cons.1 hl with rfl | hl
    · exact oneLine_headerLine (h.names part hpart).2
    · exact oneLine_of_mem_linesOf (h.sections part hpart) hl

/-- After its lines the config of the file has been read, and no value is left to be completed. -/
theorem Writable.run_lines {f : UnitFile} (h : f.Writable) :
    ∃ current, ∀ rest, (start empty).run (f.lines ++ rest) =
      (⟨f.config, current, none⟩ : Reader).run rest := by
  have hnames : ∀ part ∈ f.sections, part.1 ≠ "" := fun part hpart => (h.names part hpart).1
  have hnew : ∀ part ∈ f.sections, (if f.top = [] then empty
      else empty.setSection topLevel (.ofList f.top)).sections.find? part.1 = none := by
    intro part hpart
    have hne : part.1 ≠ topLevel := hnames part hpart
    split
    · rfl
    · rw [find?_setSection, if_neg hne]
      rfl
  obtain ⟨current, hrun⟩ := run_sections (s := topLevel) h.nodup hnames h.sections hnew
  refine ⟨current, fun rest => ?_⟩
  rw [lines, List.append_assoc, run_top h.top, start, hrun, config_eq]

theorem Writable.nodup_parts {f : UnitFile} (h : f.Writable) : (f.parts.map (·.1)).Nodup := by
  unfold parts
  split
  · exact h.nodup
  · refine List.nodup_cons.2 ⟨fun hmem => ?_, h.nodup⟩
    obtain ⟨part, hpart, hname⟩ := List.mem_map.1 hmem
    exact (h.names part hpart).1 hname

theorem Writable.keys_of_mem_parts {f : UnitFile} (h : f.Writable) {part : String × Assignments}
    (hpart : part ∈ f.parts) : WritableKeys part.2 := by
  rcases List.mem_append.1 hpart with hpart | hpart
  · split at hpart
    · simp at hpart
    · obtain rfl := List.mem_singleton.1 hpart
      exact h.top
  · exact h.sections part hpart

/-- The config of a file has the sections of the file. -/
theorem Writable.find?_config {f : UnitFile} (h : f.Writable) {name : String} {d : Section} :
    f.config.sections.find? name = some d ↔ ∃ es, (name, es) ∈ f.parts ∧ .ofList es = d := by
  have hnodup : ((f.parts.map fun s => (s.1, Dict.ofList s.2)).map (·.1)).Nodup := by
    simpa [List.map_map, Function.comp_def] using h.nodup_parts
  rw [config, Dict.find?_ofList hnodup, List.mem_map]
  constructor
  · intro hmem
    obtain ⟨⟨n, es⟩, hpart, heq⟩ := hmem
    obtain ⟨rfl, rfl⟩ := Prod.mk.inj heq
    exact ⟨es, hpart, rfl⟩
  · intro hmem
    obtain ⟨es, hpart, rfl⟩ := hmem
    exact ⟨(name, es), hpart, rfl⟩

/-- A file that can be written is read back from its text, with or without the last line feed. The
config has the sections of the file, each with its keys and their values in the order that they were
written in, and nothing else. -/
theorem read_text {f : UnitFile} (h : f.Writable) :
    read f.text = .ok f.config ∧ read (ofLines f.lines) = .ok f.config ∧
      (∀ name, name ∈ f.config.sectionNames ↔ name ∈ f.parts.map (·.1)) ∧
      ∀ name key values, f.config.values? name key = some values ↔
        ∃ es, (name, es) ∈ f.parts ∧ (key, values) ∈ es := by
  obtain ⟨current, hrun⟩ := h.run_lines
  have hends : ∀ l ∈ f.lines, OneLine l := fun l hl => h.oneLine hl
  refine ⟨?_, ?_, ?_, ?_⟩
  · have hlines : Config.lines f.text = f.lines ++ [[]] := by
      rw [Config.lines, text, String.toList_ofList, pieces_flatMap (by decide) hends]
    rw [read_eq_ok_iff, overlay_eq_run, hlines, hrun]
    rfl
  · have hwhole := hrun []
    rw [List.append_nil] at hwhole
    rw [read_eq_ok_iff, overlay_ofLines empty hends, hwhole]
    rfl
  · intro name
    rw [sectionNames, Dict.mem_keys_iff, Option.isSome_iff_exists, List.mem_map]
    constructor
    · intro hname
      obtain ⟨d, hd⟩ := hname
      obtain ⟨es, hpart, -⟩ := h.find?_config.1 hd
      exact ⟨(name, es), hpart, rfl⟩
    · intro hname
      obtain ⟨⟨n, es⟩, hpart, rfl⟩ := hname
      exact ⟨_, h.find?_config.2 ⟨es, hpart, rfl⟩⟩
  · intro name key values
    rw [values?, Option.bind_eq_some_iff]
    constructor
    · intro hvalues
      obtain ⟨d, hd, hkey⟩ := hvalues
      obtain ⟨es, hpart, rfl⟩ := h.find?_config.1 hd
      exact ⟨es, hpart, (Dict.find?_ofList (h.keys_of_mem_parts hpart).nodup).1 hkey⟩
    · intro hvalues
      obtain ⟨es, hpart, hkey⟩ := hvalues
      refine ⟨_, h.find?_config.2 ⟨es, hpart, rfl⟩, ?_⟩
      exact (Dict.find?_ofList (h.keys_of_mem_parts hpart).nodup).2 hkey

/-- A section with brackets and blanks in its name, a key without values, an empty section, and
values with signs that mean something elsewhere on a line. -/
def oddities : UnitFile where
  top := [("Title", ["x=[y]", "#z"])]
  sections := [(" [S] ", [("K", []), ("[Path", ["C:\\\\", "a  ; b"])]), ("Unit", [])]

theorem oddities_read_back :
    oddities.Writable ∧ read oddities.text = .ok oddities.config ∧
      oddities.config.values? " [S] " "[Path" = some ["C:\\\\", "a  ; b"] := by
  have hw : oddities.Writable := by decide +kernel
  obtain ⟨hread, -, -, hvalues⟩ := read_text hw
  exact ⟨hw, hread, (hvalues _ _ _).2 ⟨_, List.mem_cons_of_mem _ List.mem_cons_self, by decide⟩⟩

end UnitFile
end ServiceUnits
