import ServiceUnits.Proofs.Report.Quoting
import ServiceUnits.Proofs.Session.Batch

namespace ServiceUnits

namespace Dot

structure Arrow where
  source : String
  target : String
  label : String
deriving DecidableEq

inductive Token where
  | word (w : String)
  | quoted (s : String)
  | arrow
  | sign (c : Char)
deriving DecidableEq

def isLetter (c : Char) : Bool := c.isAlpha || c = '_'

def signs : List Char := ['\x7b', '\x7d', '[', ']', '=', ';']

def tokens (text : List Char) : Option (List Token) :=
  match text with
  | [] => some []
  | '-' :: '>' :: cs => (tokens cs).map (.arrow :: ·)
  | '"' :: cs =>
    match _ : quoted cs with
    | none => none
    | some (s, rest) => (tokens rest).map (.quoted (.ofList s) :: ·)
  | c :: cs =>
    if c.isWhitespace then tokens cs
    else if c ∈ signs then (tokens cs).map (.sign c :: ·)
    else if isLetter c then
      (tokens (cs.dropWhile isLetter)).map (.word (.ofList (c :: cs.takeWhile isLetter)) :: ·)
    else none
termination_by text.length
decreasing_by
  · simp only [List.length_cons]
    omega
  · obtain ⟨written, hw⟩ := exists_append_of_quoted ‹quoted cs = _›
    simp only [hw, List.length_cons, List.length_append]
    omega
  · simp
  · simp
  · have := (List.dropWhile_suffix isLetter (l := cs)).length_le
    simp only [List.length_cons]
    omega

def Arrow.tokens (a : Arrow) : List Token :=
  [.quoted a.source, .arrow, .quoted a.target, .sign '[', .word "label", .sign '=',
    .quoted a.label, .sign ']', .sign ';']

/-- The edges up to the closing brace, with which the text ends. -/
def arrows? : List Token → Option (List Arrow)
  | [.sign '\x7d'] => some []
  | .quoted source :: .arrow :: .quoted target :: .sign '[' :: .word "label" :: .sign '=' ::
      .quoted label :: .sign ']' :: .sign ';' :: ts =>
    (arrows? ts).map (⟨source, target, label⟩ :: ·)
  | _ => none

def graph? : List Token → Option (List Arrow)
  | .word "digraph" :: .word _ :: .sign '\x7b' :: ts => arrows? ts
  | _ => none

def read? (text : String) : Option (List Arrow) := (tokens text.toList).bind graph?

theorem arrows?_eq_some_iff {ts : List Token} {as : List Arrow} :
    arrows? ts = some as ↔ ts = as.flatMap Arrow.tokens ++ [.sign '\x7d'] := by
  constructor
  · intro h
    induction ts using arrows?.induct generalizing as with
    | case1 =>
      obtain rfl : [] = as := by simpa [arrows?] using h
      rfl
    | case2 source target label ts ih =>
      rw [arrows?, Option.map_eq_some_iff] at h
      obtain ⟨rest, hrest, rfl⟩ := h
      rw [ih hrest]
      simp [Arrow.tokens]
    | case3 ts hend hstatement =>
      rw [arrows?] at h
      · simp at h
      all_goals assumption
  · rintro rfl
    induction as with
    | nil => rfl
    | cons a as ih =>
      rw [List.flatMap_cons, List.append_assoc]
      simp [Arrow.tokens, arrows?, ih]

theorem graph?_eq_some_iff {ts : List Token} {as : List Arrow} :
    graph? ts = some as ↔ ∃ name, ts = .word "digraph" :: .word name :: .sign '\x7b' ::
      (as.flatMap Arrow.tokens ++ [.sign '\x7d']) := by
  constructor
  · intro h
    unfold graph? at h
    split at h
    · rename_i name ts
      exact ⟨name, by rw [arrows?_eq_some_iff.1 h]⟩
    · simp at h
  · rintro ⟨name, rfl⟩
    exact arrows?_eq_some_iff.2 rfl

theorem read?_eq_some_iff {text : String} {as : List Arrow} :
    read? text = some as ↔ ∃ name, tokens text.toList = some (.word "digraph" :: .word name ::
      .sign '\x7b' :: (as.flatMap Arrow.tokens ++ [.sign '\x7d'])) := by
  rw [read?, Option.bind_eq_some_iff]
  simp only [graph?_eq_some_iff]
  constructor
  · rintro ⟨ts, hts, name, rfl⟩
    exact ⟨name, hts⟩
  · rintro ⟨name, hts⟩
    exact ⟨_, hts, name, rfl⟩

section Tokens

variable {c : Char} {cs : List Char} {s w : String} {ts : List Token}

theorem map_cons_eq_some_iff {t : Token} {o : Option (List Token)} :
    o.map (t :: ·) = some (t :: ts) ↔ o = some ts := by
  simp

theorem tokens_blank (hc : c.isWhitespace = true) : tokens (c :: cs) = tokens cs := by
  rw [tokens, if_pos hc]
  · rintro ds rfl
    simp at hc
  · rintro rfl
    simp at hc

theorem tokens_space : tokens (' ' :: cs) = tokens cs := tokens_blank rfl

theorem tokens_lineFeed : tokens ('\n' :: cs) = tokens cs := tokens_blank rfl

theorem tokens_sign_iff (hc : c ∈ signs) :
    tokens (c :: cs) = some (.sign c :: ts) ↔ tokens cs = some ts := by
  have hnone : signs.all (!·.isWhitespace) = true := by decide
  have hblank : ¬ c.isWhitespace = true := by simpa using List.all_eq_true.1 hnone c hc
  rw [tokens, if_neg hblank, if_pos hc, map_cons_eq_some_iff]
  · rintro ds rfl
    exact absurd hc (by decide)
  · rintro rfl
    exact absurd hc (by decide)

theorem tokens_arrow_iff :
    tokens ('-' :: '>' :: cs) = some (.arrow :: ts) ↔ tokens cs = some ts := by
  rw [tokens, map_cons_eq_some_iff]

theorem tokens_word (hw : w ≠ "") (hl : w.toList.all isLetter = true)
    (hcs : ∀ c ∈ cs.head?, isLetter c = false) :
    tokens (w.toList ++ cs) = (tokens cs).map (.word w :: ·) := by
  obtain ⟨c, letters, hc⟩ := List.exists_cons_of_ne_nil (mt String.toList_eq_nil_iff.1 hw)
  rw [List.all_eq_true, hc] at hl
  have hletters : ∀ d ∈ letters, isLetter d = true := fun d hd => hl d (by simp [hd])
  have hfirst : isLetter c = true := hl c (by simp)
  have hrest : cs.takeWhile isLetter = [] ∧ cs.dropWhile isLetter = cs := by
    cases cs with
    | nil => simp
    | cons d ds => simp [hcs d rfl]
  have hblank : ¬ c.isWhitespace = true := by
    intro h
    simp only [Char.isWhitespace, Bool.or_eq_true, decide_eq_true_eq] at h
    obtain ((rfl | rfl) | rfl) | rfl := h <;> exact absurd hfirst (by decide)
  have hsign : c ∉ signs := fun h => by
    have hnone : signs.all (!isLetter ·) = true := by decide
    have hc := List.all_eq_true.1 hnone c h
    simp [hfirst] at hc
  rw [hc, List.cons_append, tokens, if_neg hblank, if_neg hsign, if_pos hfirst,
    List.takeWhile_append_of_pos hletters, List.dropWhile_append_of_pos hletters, hrest.1, hrest.2,
    List.append_nil, ← hc, String.ofList_toList]
  · rintro ds rfl
    exact absurd hfirst (by decide)
  · rintro rfl
    exact absurd hfirst (by decide)

theorem tokens_quoted_iff :
    tokens ('"' :: (s.toList ++ '"' :: cs)) = some (.quoted s :: ts) ↔
      Plain s.toList ∧ tokens cs = some ts := by
  constructor
  · intro h
    rw [tokens] at h
    split at h
    · simp at h
    · rename_i string rest hread
      obtain ⟨others, hothers, he⟩ := Option.map_eq_some_iff.1 h
      obtain ⟨hs, rfl⟩ := List.cons.inj he
      have hstring : string = s.toList := by
        rw [← Token.quoted.inj hs, String.toList_ofList]
      rw [hstring] at hread
      obtain ⟨hplain, rfl⟩ := quoted_append_eq_some_iff.1 hread
      exact ⟨hplain, hothers⟩
  · rintro ⟨hplain, hts⟩
    have hread : quoted (s.toList ++ '"' :: cs) = some (s.toList, cs) :=
      quoted_append_eq_some_iff.2 ⟨hplain, rfl⟩
    rw [tokens]
    split
    · rename_i hnone
      simp [hnone] at hread
    · rename_i string rest hsome
      obtain ⟨rfl, rfl⟩ := Prod.mk.inj (Option.some.inj (hsome.symm.trans hread))
      rw [hts, String.ofList_toList]
      rfl

end Tokens

/-- The statement of an edge. -/
def Arrow.written (a : Arrow) : String := Report.statement a.source a.target a.label

theorem Arrow.toList_written (a : Arrow) (cs : List Char) :
    a.written.toList ++ cs =
      '"' :: (a.source.toList ++ '"' :: ' ' :: '-' :: '>' :: ' ' ::
        '"' :: (a.target.toList ++ '"' :: ' ' :: '[' :: ("label".toList ++ '=' ::
          '"' :: (a.label.toList ++ '"' :: ']' :: ';' :: cs)))) := by
  simp [written, Report.statement]

theorem tokens_written_iff {a : Arrow} {cs : List Char} {ts : List Token} :
    tokens (a.written.toList ++ cs) = some (a.tokens ++ ts) ↔
      Plain a.source.toList ∧ Plain a.target.toList ∧ Plain a.label.toList ∧
        tokens cs = some ts := by
  have hword : ∀ cs, tokens ("label".toList ++ '=' :: cs) =
      (tokens ('=' :: cs)).map (.word "label" :: ·) := fun cs =>
    tokens_word (by decide) (by decide) (by simp [isLetter])
  rw [a.toList_written, Arrow.tokens]
  simp only [List.cons_append, List.nil_append]
  rw [tokens_quoted_iff, tokens_space, tokens_arrow_iff, tokens_space, tokens_quoted_iff,
    tokens_space, tokens_sign_iff (by decide), hword, map_cons_eq_some_iff,
    tokens_sign_iff (by decide), tokens_quoted_iff, tokens_sign_iff (by decide),
    tokens_sign_iff (by decide)]

theorem plain_intercalate {sep : String} {xs : List String} (hsep : Plain sep.toList)
    (hxs : ∀ x ∈ xs, Plain x.toList) : Plain (sep.intercalate xs).toList := by
  induction xs with
  | nil => exact plain_of_not_mem (by simp) (by simp)
  | cons x xs ih =>
    have hx := hxs x (by simp)
    have hrest := ih fun y hy => hxs y (by simp [hy])
    cases xs with
    | nil => simpa using hx
    | cons y ys =>
      rw [String.intercalate_cons_cons, String.toList_append, String.toList_append]
      exact (hx.append hsep).append hrest

/-- The label of an edge needs no escaping. -/
theorem plain_text (e : Edge) : Plain e.text.toList := by
  unfold Edge.text
  split
  · exact plain_of_not_mem (by decide) (by decide)
  · refine plain_intercalate (plain_of_not_mem (by decide) (by decide)) fun x hx => ?_
    obtain ⟨effect, -, rfl⟩ := List.mem_map.1 hx
    cases effect <;> exact plain_of_not_mem (by decide) (by decide)

end Dot

namespace Report

open Dot

/-- The edges of a unit in the order of their statements. -/
def arrows (h : Handover) : List Arrow :=
  match h.aliases with
  | [] => []
  | id :: _ =>
    (h.outgoing.entries.map fun e => ⟨id, e.1, e.2.text⟩) ++
      h.incoming.entries.map fun e => ⟨e.1, id, e.2.text⟩

theorem statements_eq (h : Handover) : statements h = (arrows h).map Arrow.written := by
  unfold statements arrows
  cases h.aliases with
  | nil => rfl
  | cons id others => simp [Arrow.written, Function.comp_def]

theorem plain_label {h : Handover} {a : Arrow} (ha : a ∈ arrows h) : Plain a.label.toList := by
  unfold arrows at ha
  cases hids : h.aliases with
  | nil => simp [hids] at ha
  | cons id others =>
    rw [hids, List.mem_append] at ha
    obtain ha | ha := ha
    · obtain ⟨e, -, rfl⟩ := List.mem_map.1 ha
      exact plain_text e.2
    · obtain ⟨e, -, rfl⟩ := List.mem_map.1 ha
      exact plain_text e.2

theorem toList_unlines_cons (x : String) (xs : List String) :
    (unlines (x :: xs)).toList = x.toList ++ '\n' :: (unlines xs).toList := by
  have hx : unlines [x] = x ++ "\n" := by simp [unlines]
  rw [← List.singleton_append, unlines_append, hx]
  simp

theorem toList_digraph (hs : List Handover) :
    (digraph hs).toList = "digraph".toList ++ ' ' :: ("units".toList ++ ' ' :: '\x7b' :: '\n' ::
      ((unlines ((hs.flatMap arrows).map fun a => "    " ++ a.written)).toList ++
        ['\x7d', '\n'])) := by
  have hlines : (hs.flatMap statements).map ("    " ++ ·) =
      (hs.flatMap arrows).map fun a => "    " ++ a.written := by
    simp only [statements_eq, List.map_flatMap, List.map_map, Function.comp_def]
  have hend : (unlines ["\x7d"]).toList = ['\x7d', '\n'] := by simp [unlines]
  rw [digraph, hlines, List.append_assoc, List.singleton_append, toList_unlines_cons,
    unlines_append, String.toList_append, hend]
  simp

/-- The statements of some edges are read as these edges exactly if all names are plain. -/
theorem tokens_unlines_iff {as : List Arrow} {cs : List Char} {ts : List Token} :
    tokens ((unlines (as.map fun a => "    " ++ a.written)).toList ++ cs) =
        some (as.flatMap Arrow.tokens ++ ts) ↔
      (∀ a ∈ as, Plain a.source.toList ∧ Plain a.target.toList ∧ Plain a.label.toList) ∧
        tokens cs = some ts := by
  induction as with
  | nil => simp [unlines]
  | cons a as ih =>
    have hindent : ∀ cs, tokens ("    ".toList ++ cs) = tokens cs := fun cs => by
      simp [tokens_space]
    rw [List.map_cons, List.flatMap_cons, toList_unlines_cons, String.toList_append]
    simp only [List.append_assoc, List.cons_append]
    rw [hindent, tokens_written_iff, tokens_lineFeed, ih]
    simp only [List.forall_mem_cons, and_assoc]

theorem tokens_digraph_iff {hs : List Handover} {name : String} :
    tokens (digraph hs).toList = some (.word "digraph" :: .word name :: .sign '\x7b' ::
        ((hs.flatMap arrows).flatMap Arrow.tokens ++ [.sign '\x7d'])) ↔
      name = "units" ∧ ∀ a ∈ hs.flatMap arrows,
        Plain a.source.toList ∧ Plain a.target.toList ∧ Plain a.label.toList := by
  have hword : ∀ w : String, w ≠ "" → w.toList.all isLetter = true → ∀ cs,
      tokens (w.toList ++ ' ' :: cs) = (tokens cs).map (.word w :: ·) := fun w hw hl cs => by
    rw [tokens_word hw hl (by simp [isLetter]), tokens_space]
  have hend : tokens ['\x7d', '\n'] = some [.sign '\x7d'] := by
    rw [tokens_sign_iff (by decide), tokens_lineFeed, tokens]
  have hbody : tokens ('\x7b' :: '\n' ::
        ((unlines ((hs.flatMap arrows).map fun a => "    " ++ a.written)).toList ++
          ['\x7d', '\n'])) =
        some (.sign '\x7b' :: ((hs.flatMap arrows).flatMap Arrow.tokens ++ [.sign '\x7d'])) ↔
      ∀ a ∈ hs.flatMap arrows,
        Plain a.source.toList ∧ Plain a.target.toList ∧ Plain a.label.toList := by
    rw [tokens_sign_iff (by decide), tokens_lineFeed, tokens_unlines_iff, and_iff_left hend]
  rw [toList_digraph, hword "digraph" (by decide) (by decide),
    hword "units" (by decide) (by decide), map_cons_eq_some_iff, ← hbody]
  constructor
  · intro h
    obtain ⟨ts, hts, he⟩ := Option.map_eq_some_iff.1 h
    obtain ⟨hname, rfl⟩ := List.cons.inj he
    exact ⟨(Token.word.inj hname).symm, hts⟩
  · rintro ⟨rfl, h⟩
    exact map_cons_eq_some_iff.2 h

/-- The graph of some units is read as their edges, in their order, exactly if all names in it are
plain. A label always is. -/
theorem digraph_read_back_iff (hs : List Handover) :
    read? (digraph hs) = some (hs.flatMap arrows) ↔
      ∀ h ∈ hs, ∀ a ∈ arrows h, Plain a.source.toList ∧ Plain a.target.toList := by
  rw [read?_eq_some_iff]
  simp only [tokens_digraph_iff, exists_eq_left, List.mem_flatMap, forall_exists_index, and_imp]
  constructor
  · intro hplain h hh a ha
    obtain ⟨hsource, htarget, -⟩ := hplain a h hh ha
    exact ⟨hsource, htarget⟩
  · intro hplain a h hh ha
    obtain ⟨hsource, htarget⟩ := hplain h hh a ha
    exact ⟨hsource, htarget, plain_label ha⟩

/-- A directory with a unit that asks for a peer with a quote in its name. -/
def quoting : Resolver where
  fs := NodeTable.fileSystem
    { nodes := [(Path.components ⟨"/u/a.service"⟩, .file "[Unit]\nAfter=x\"y\n".toUTF8)]
      listings := [] }
  lookup := ⟨["/u"]⟩
  table := .standard

/-- The peer is read as what precedes the quote, and no graph is read. -/
theorem quoting_not_read_back :
    ∃ u, quoting.resolve "a" = .ok u ∧
      arrows u.handover = [⟨"a.service", "x\"y", "After"⟩, ⟨"x\"y", "a.service", "Before"⟩] ∧
      (∃ ts, tokens (digraph [u.handover]).toList = some (.word "digraph" :: .word "units" ::
        .sign '\x7b' :: .quoted "a.service" :: .arrow :: .quoted "x" :: ts)) ∧
      read? (digraph [u.handover]) = none := by
  have harrows : (quoting.resolve "a").toOption.map (fun u => arrows u.handover) =
      some [⟨"a.service", "x\"y", "After"⟩, ⟨"x\"y", "a.service", "Before"⟩] := by
    decide +kernel
  obtain ⟨u, hu, harrows⟩ := Resolver.exists_eq_ok harrows
  have htext : (digraph [u.handover]).toList = ("digraph units \x7b\n" ++
      "    \"a.service\" -> \"x\"y\" [label=\"After\"];\n" ++
      "    \"x\"y\" -> \"a.service\" [label=\"Before\"];\n\x7d\n").toList := by
    rw [toList_digraph, List.flatMap_singleton, harrows]
    rfl
  have htokens : tokens (digraph [u.handover]).toList = some [.word "digraph", .word "units",
      .sign '\x7b', .quoted "a.service", .arrow, .quoted "x", .word "y", .quoted " [label=",
      .word "After", .quoted "];\n    ", .word "x", .quoted "y", .arrow, .quoted "a.service",
      .sign '[', .word "label", .sign '=', .quoted "Before", .sign ']', .sign ';',
      .sign '\x7d'] := by
    rw [htext]
    decide +kernel
  refine ⟨u, hu, harrows, ⟨_, htokens⟩, ?_⟩
  rw [read?, htokens]
  rfl

end Report
end ServiceUnits
