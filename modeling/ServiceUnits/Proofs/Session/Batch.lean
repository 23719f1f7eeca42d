import Mathlib.Data.List.Forall2
import ServiceUnits.FileSystem.NodeTable
import ServiceUnits.Proofs.Resolver.Stages
import ServiceUnits.Session.Batch

namespace ServiceUnits

namespace Resolver

def Fails (r : Resolver) (name : String) : Prop := ∃ e, r.resolve name = .error e

/-- The calls to the scheduler while some units are loaded in order. -/
inductive Calls (r : Resolver) : List String → List Handover → Prop
  | nil : Calls r [] []
  | loaded {name : String} {names : List String} {u : ResolvedUnit} {calls : List Handover}
      (h : r.resolve name = .ok u) (rest : Calls r names calls) :
      Calls r (name :: names) (⟨u.aliases.names, u.delta.outgoing, u.delta.incoming⟩ :: calls)
  | failed {name : String} {names : List String} {calls : List Handover} (h : r.Fails name)
      (rest : Calls r names calls) : Calls r (name :: names) calls

variable {r : Resolver} {name : String} {names before after : List String} {calls : List Handover}

theorem handovers_cons_of_ok {u : ResolvedUnit} (h : r.resolve name = .ok u) :
    r.handovers (name :: names) = u.handover :: r.handovers names :=
  List.filterMap_cons_some (by rw [h]; rfl)

theorem handovers_cons_of_fails (h : r.Fails name) :
    r.handovers (name :: names) = r.handovers names := by
  obtain ⟨e, he⟩ := h
  exact List.filterMap_cons_none (by rw [he]; rfl)

theorem not_fails_iff : ¬ r.Fails name ↔ ∃ u, r.resolve name = .ok u := by
  unfold Fails
  cases r.resolve name <;> simp

theorem handovers_append :
    r.handovers (before ++ after) = r.handovers before ++ r.handovers after :=
  List.filterMap_append

/-- There is one sequence of calls for some units. -/
theorem calls_iff : r.Calls names calls ↔ calls = r.handovers names := by
  constructor
  · intro h
    induction h with
    | nil => rfl
    | loaded h _ ih => rw [handovers_cons_of_ok h, ← ih]; rfl
    | failed h _ ih => rw [handovers_cons_of_fails h, ih]
  · rintro rfl
    induction names with
    | nil => exact .nil
    | cons name names ih =>
      cases h : r.resolve name with
      | ok u =>
        rw [handovers_cons_of_ok h]
        exact .loaded h ih
      | error e =>
        rw [handovers_cons_of_fails ⟨e, h⟩]
        exact .failed ⟨e, h⟩ ih

theorem handovers_of_fails (h : r.Fails name) :
    r.handovers (before ++ name :: after) = r.handovers (before ++ after) := by
  rw [handovers_append, handovers_append, handovers_cons_of_fails h]

end Resolver

namespace Report

theorem unlines_append (xs ys : List String) : unlines (xs ++ ys) = unlines xs ++ unlines ys := by
  have hcons : ∀ x xs, unlines (x :: xs) = x ++ "\n" ++ unlines xs := fun x xs => by
    cases xs with
    | nil => simp [unlines]
    | cons y ys => simp [unlines, String.intercalate_cons_cons]
  induction xs with
  | nil => simp [unlines]
  | cons x xs ih => rw [List.cons_append, hcons, hcons, ih, ← String.append_assoc]

theorem foldl_text (hs : List Handover) (printed : String) :
    hs.foldl Scheduler.text.loadUnit printed = printed ++ text hs := by
  induction hs generalizing printed with
  | nil => simp [text, unlines]
  | cons h hs ih =>
    rw [List.foldl_cons, ih, text, text, List.flatMap_cons, unlines_append, ← String.append_assoc]
    rfl

theorem foldl_dot (hs : List Handover) (lines : List String) :
    hs.foldl Scheduler.dot.loadUnit lines = lines ++ hs.flatMap statements := by
  induction hs generalizing lines with
  | nil => simp
  | cons h hs ih =>
    rw [List.foldl_cons, ih, List.flatMap_cons, ← List.append_assoc]
    rfl

/-- The edges of a map, in ascending order of the peers. -/
structure InOrder (edges : Dict Edge) (es : List (String × Edge)) : Prop where
  ascending : es.Pairwise (·.1 < ·.1)
  mem_iff : ∀ peer e, (peer, e) ∈ es ↔ edges.find? peer = some e

theorem inOrder_iff {edges : Dict Edge} {es : List (String × Edge)} :
    InOrder edges es ↔ es = edges.entries := by
  constructor
  · intro h
    have hd : (⟨es, h.ascending⟩ : Dict Edge) = edges := by
      refine Dict.ext_find? fun peer => Option.ext fun e => ?_
      rw [← h.mem_iff]
      exact (@Dict.mem_entries_iff _ ⟨es, h.ascending⟩ (peer, e)).symm
    exact congrArg Dict.entries hd
  · rintro rfl
    exact ⟨edges.sorted, fun _ _ => Dict.mem_entries_iff⟩

/-- The lines of a unit in the graph: one for each edge from it, then one for each edge to it. -/
inductive EdgeLines : Handover → List String → Prop
  | nameless (outgoing incoming : Dict Edge) : EdgeLines ⟨[], outgoing, incoming⟩ []
  | named {id : String} {others : List String} {outgoing incoming : Dict Edge}
      {outs ins : List (String × Edge)} (ho : InOrder outgoing outs) (hi : InOrder incoming ins) :
      EdgeLines ⟨id :: others, outgoing, incoming⟩
        (outs.map (fun e => statement id e.1 e.2.text) ++
          ins.map fun e => statement e.1 id e.2.text)

/-- A unit has one sequence of lines. -/
theorem edgeLines_iff {h : Handover} {lines : List String} :
    EdgeLines h lines ↔ lines = statements h := by
  constructor
  · rintro (_ | ⟨ho, hi⟩)
    · rfl
    · rw [inOrder_iff.1 ho, inOrder_iff.1 hi]
      rfl
  · rintro rfl
    obtain ⟨_ | ⟨id, others⟩, outgoing, incoming⟩ := h
    · exact .nameless outgoing incoming
    · exact .named (inOrder_iff.2 rfl) (inOrder_iff.2 rfl)

end Report

namespace Batch

open Resolver

variable {σ : Type} {s : Scheduler σ} {r : Resolver} {b : Batch σ} {name : String}

theorem load_of_ok {u : ResolvedUnit} (h : r.resolve name = .ok u) :
    load s r b name = ⟨s.loadUnit b.state u.handover, b.failed⟩ := by
  rw [load, h]

theorem load_of_fails (h : r.Fails name) : load s r b name = ⟨b.state, true⟩ := by
  obtain ⟨e, he⟩ := h
  rw [load, he]

theorem state_foldl {names : List String} {calls : List Handover} (h : r.Calls names calls) :
    (names.foldl (load s r) b).state = calls.foldl s.loadUnit b.state := by
  induction h generalizing b with
  | nil => rfl
  | loaded h _ ih => rw [List.foldl_cons, load_of_ok h, ih]; rfl
  | failed h _ ih => rw [List.foldl_cons, load_of_fails h, ih]

theorem failed_foldl {names : List String} :
    (names.foldl (load s r) b).failed = true ↔ b.failed = true ∨ ∃ name ∈ names, r.Fails name := by
  induction names generalizing b with
  | nil => simp
  | cons name names ih =>
    -- The flag of one step is what the rest starts with, so the induction is for every start.
    rw [List.foldl_cons, ih]
    simp only [List.mem_cons, exists_eq_or_imp, ← or_assoc]
    refine or_congr_left ?_
    cases h : r.resolve name with
    | ok u =>
      have hn : ¬ r.Fails name := not_fails_iff.2 ⟨u, h⟩
      simp [load_of_ok h, hn]
    | error e =>
      have hf : r.Fails name := ⟨e, h⟩
      simp [load_of_fails hf, hf]

theorem state_run {names : List String} {start : σ} :
    (run s r start names).state = (r.handovers names).foldl s.loadUnit start :=
  state_foldl (calls_iff.2 rfl)

theorem failed_run {names : List String} {start : σ} :
    (run s r start names).failed = true ↔ ∃ name ∈ names, r.Fails name := by
  simp [run, failed_foldl]

end Batch

namespace Session

open Resolver

/-- The settings are valid, and with the options they make this resolver. -/
structure Makes (o : Options) (loaded : Except Error Settings) (r : Resolver) : Prop where
  lookup : lookup o (effective loaded).1 = r.lookup
  table : (effective loaded).1.table = .ok r.table

variable {o : Options} {loaded : Except Error Settings} {opened : Except SystemError Unit}
  {time : String} {r : Resolver}

/-- Where nothing that is read changes, all units meet the same file system. -/
theorem along_eq_map (r : Resolver) (text : List Event → String) (log : String)
    (names : List String) :
    (⟨fun _ => r.fs, text⟩ : Growth).along r.lookup r.table log names =
      names.map fun name => ⟨name, r⟩ := by
  induction names generalizing log with
  | nil => rfl
  | cons name names ih => rw [Growth.along, Growth.met_eq (fun _ => rfl), ih, List.map_cons]

/-- What is told of a unit. -/
def told (o : Options) (loaded : Except Error Settings) (opened : Except SystemError Unit)
    (r : Resolver) (name : String) : List Notice :=
  (loadNotices ⟨name, r⟩).filter
    (onConsole (.ofName (levelName o (effective loaded).1)) (sink (effective loaded).1 opened).1)

/-- What is told before the first unit is loaded. -/
def toldFirst (o : Options) (loaded : Except Error Settings) (opened : Except SystemError Unit) :
    List Notice :=
  levelNotices (levelName o (effective loaded).1) ++ (sink (effective loaded).1 opened).2 ++
    ((firstEvents (effective loaded).2 (lookup o (effective loaded).1)).map .logged).filter
      (onConsole (.ofName (levelName o (effective loaded).1)) (sink (effective loaded).1 opened).1)

theorem notices_run (h : Makes o loaded r) :
    (run o loaded opened time fun _ => r.fs).notices =
      toldFirst o loaded opened ++ (units o).flatMap (told o loaded opened r) := by
  simp only [run, h.table, h.lookup, along_eq_map, List.flatMap_map, List.filter_append,
    List.filter_flatMap, toldFirst, List.append_assoc]
  rfl

theorem output_run (h : Makes o loaded r) :
    (run o loaded opened time fun _ => r.fs).output = report o (r.handovers (units o)) := by
  simp only [run, h.table, h.lookup, along_eq_map, List.filterMap_map]
  rfl

theorem exit_run (h : Makes o loaded r) {σ : Type} (s : Scheduler σ) (start : σ) :
    (run o loaded opened time fun _ => r.fs).exit =
      if (Batch.run s r start (units o)).failed then 1 else 0 := by
  have hall : ((units o).all fun name => loads ⟨name, r⟩) =
      !(Batch.run s r start (units o)).failed := by
    rw [Bool.eq_iff_iff, List.all_eq_true, Bool.not_eq_true', ← Bool.not_eq_true, Batch.failed_run]
    simp only [not_exists, not_and, loads, not_fails_iff]
    refine forall₂_congr fun name _ => ?_
    cases r.resolve name <;> simp [Except.toBool]
  simp only [run, h.table, h.lookup, along_eq_map, List.all_map, Function.comp_def, hall]
  cases (Batch.run s r start (units o)).failed <;> rfl

/-- A session is a loop over its units, with the scheduler that its report needs. -/
theorem run_eq_batch (h : Makes o loaded r) :
    let outcome := run o loaded opened time fun _ => r.fs
    outcome.output =
      (if o.dot then Report.unlines (["digraph units \x7b"] ++
        (Batch.run .dot r [] (units o)).state.map ("    " ++ ·) ++ ["\x7d"])
      else (Batch.run .text r "" (units o)).state) ∧
    outcome.exit = if (Batch.run .dot r [] (units o)).failed then 1 else 0 := by
  refine ⟨?_, exit_run h .dot []⟩
  rw [output_run h, Batch.state_run, Batch.state_run, Report.foldl_dot, Report.foldl_text, report,
    List.nil_append, String.empty_append]
  rfl

theorem exit_eq_one_iff (h : Makes o loaded r) :
    (run o loaded opened time fun _ => r.fs).exit = 1 ↔ ∃ name ∈ units o, r.Fails name := by
  rw [(run_eq_batch h).2, ← @Batch.failed_run _ .dot r (units o) []]
  split <;> simp_all

theorem exit_eq_zero_iff (h : Makes o loaded r) :
    (run o loaded opened time fun _ => r.fs).exit = 0 ↔
      ∀ name ∈ units o, ∃ u, r.resolve name = .ok u := by
  have hzero : (run o loaded opened time fun _ => r.fs).exit = 0 ↔
      ¬ (run o loaded opened time fun _ => r.fs).exit = 1 := by
    rw [(run_eq_batch h).2]
    split <;> simp
  simp only [hzero, exit_eq_one_iff h, not_exists, not_and, not_fails_iff]

/-- Both sessions report the same, and in one place more is told in the second. -/
structure TellsMore (a b : Outcome) (more : List Notice) : Prop where
  output : b.output = a.output
  notices : ∃ before after, a.notices = before ++ after ∧ b.notices = before ++ more ++ after

/-- A unit that fails adds what is told of it, and nothing else. -/
theorem tellsMore_of_fails (h : Makes o loaded r) {before after : List String} {name : String}
    (ho : units o = before ++ name :: after) (hf : r.Fails name) (hne : before ++ after ≠ []) :
    TellsMore (run { o with units := before ++ after } loaded opened time fun _ => r.fs)
      (run o loaded opened time fun _ => r.fs) (told o loaded opened r name) := by
  have hothers : Makes { o with units := before ++ after } loaded r := ⟨h.lookup, h.table⟩
  have hunits : units { o with units := before ++ after } = before ++ after := if_neg hne
  have hcalls : r.handovers (units o) = r.handovers (before ++ after) := by
    rw [ho, handovers_of_fails hf]
  have hfewer : (run { o with units := before ++ after } loaded opened time fun _ => r.fs).notices =
      toldFirst o loaded opened ++ (before ++ after).flatMap (told o loaded opened r) := by
    rw [notices_run hothers, hunits]
    rfl
  constructor
  · rw [output_run h, output_run hothers, hunits, hcalls]
    rfl
  · refine ⟨toldFirst o loaded opened ++ before.flatMap (told o loaded opened r),
      after.flatMap (told o loaded opened r), ?_, ?_⟩
    · rw [hfewer, List.flatMap_append, List.append_assoc]
    · rw [notices_run h, ho]
      simp only [List.flatMap_append, List.flatMap_cons, List.append_assoc]

theorem exists_edgeLines (h : Makes o loaded r) (hdot : o.dot = true) :
    ∃ bodies, List.Forall₂ Report.EdgeLines (r.handovers (units o)) bodies ∧
      (run o loaded opened time fun _ => r.fs).output = Report.unlines
        (["digraph units \x7b"] ++ bodies.flatten.map ("    " ++ ·) ++ ["\x7d"]) := by
  generalize hcalls : r.handovers (units o) = calls
  have hlines : List.Forall₂ Report.EdgeLines calls (calls.map Report.statements) := by
    rw [List.forall₂_map_right_iff, List.forall₂_same]
    intro call _
    exact Report.edgeLines_iff.2 rfl
  refine ⟨calls.map Report.statements, hlines, ?_⟩
  rw [output_run h, hcalls, report, if_pos hdot, ← List.flatMap_def]
  rfl

/-- The scheduler is called once for each unit that resolves, in their order, and a unit that fails
changes neither the calls nor what else is told. A session reports what such a loop leaves in one of
two schedulers. It ends with 1 exactly if a unit fails, and its graph has the edges of all calls,
those of each call in ascending order of the peers. -/
theorem batch_isolates_failures (r : Resolver) (names : List String) :
    ∃ calls : List Handover,
      (∀ other, r.Calls names other ↔ other = calls) ∧
      (∀ (σ : Type) (s : Scheduler σ) (start : σ),
        (Batch.run s r start names).state = calls.foldl s.loadUnit start) ∧
      (∀ before name after, names = before ++ name :: after → r.Fails name →
        r.Calls (before ++ after) calls) ∧
      ∀ (o : Options) (loaded : Except Error Settings) (opened : Except SystemError Unit)
        (time : String), units o = names → Makes o loaded r →
        let session := fun o => run o loaded opened time fun _ => r.fs
        (session o).output =
          (if o.dot then Report.unlines (["digraph units \x7b"] ++
            (Batch.run .dot r [] names).state.map ("    " ++ ·) ++ ["\x7d"])
          else (Batch.run .text r "" names).state) ∧
        ((session o).exit = 1 ↔ ∃ name ∈ names, r.Fails name) ∧
        ((session o).exit = 0 ↔ ∀ name ∈ names, ∃ u, r.resolve name = .ok u) ∧
        (∀ before name after, names = before ++ name :: after → r.Fails name →
          before ++ after ≠ [] → TellsMore (session { o with units := before ++ after })
            (session o) (told o loaded opened r name)) ∧
        (o.dot = true → ∃ bodies, List.Forall₂ Report.EdgeLines calls bodies ∧
          (session o).output = Report.unlines
            (["digraph units \x7b"] ++ bodies.flatten.map ("    " ++ ·) ++ ["\x7d"])) := by
  have hless : ∀ before name after, names = before ++ name :: after → r.Fails name →
      r.Calls (before ++ after) (r.handovers names) := by
    intro before name after hnames hf
    rw [calls_iff, hnames, handovers_of_fails hf]
  refine ⟨r.handovers names, fun _ => calls_iff, fun _ _ _ => Batch.state_run, hless, ?_⟩
  intro o loaded opened time ho h session
  subst ho
  refine ⟨(run_eq_batch h).1, exit_eq_one_iff h, exit_eq_zero_iff h, ?_, exists_edgeLines h⟩
  intro before name after hnames hf hne
  exact tellsMore_of_fails h hnames hf hne

/-- A directory with one unit. -/
def solitary : Resolver where
  fs := NodeTable.fileSystem
    { nodes := [(Path.components ⟨"/u/a.service"⟩, .file "[Unit]\nAfter=c b\n".toUTF8)]
      listings := [] }
  lookup := ⟨["/u"]⟩
  table := .standard

/-- The second unit is handed over, twice, and the first one only makes the session end with 1. -/
theorem solitary_isolates :
    let session := fun names => run ⟨none, ["/u"], none, true, names⟩ (.ok .standard) (.ok ()) ""
      fun _ => solitary.fs
    solitary.Fails "x" ∧
    (∃ u, solitary.resolve "a" = .ok u ∧
      ∀ calls, solitary.Calls ["x", "a", "a"] calls ↔ calls = [u.handover, u.handover]) ∧
    (∃ calls, solitary.Calls ["x", "a", "a"] calls ∧ solitary.Calls ["a", "a"] calls ∧
      ∃ bodies, List.Forall₂ Report.EdgeLines calls bodies) ∧
    (session ["x", "a", "a"]).exit = 1 ∧
    (session ["x", "a", "a"]).output = (session ["a", "a"]).output ∧
    (session ["a"]).output = Report.unlines ["digraph units \x7b",
      "    \"a.service\" -> \"b\" [label=\"After\"];",
      "    \"a.service\" -> \"c\" [label=\"After\"];",
      "    \"b\" -> \"a.service\" [label=\"Before\"];",
      "    \"c\" -> \"a.service\" [label=\"Before\"];", "\x7d"] := by
  intro session
  have hfails : solitary.Fails "x" := ⟨.noUnit "x.service", by decide +kernel⟩
  have hnames : (solitary.resolve "a").toOption.map (·.aliases.names) = some ["a.service"] := by
    decide +kernel
  obtain ⟨u, hu, -⟩ := exists_eq_ok hnames
  obtain ⟨calls, hcalls, -, hless, hsession⟩ := batch_isolates_failures solitary ["x", "a", "a"]
  obtain ⟨-, hone, -, hmore, hdot⟩ := hsession ⟨none, ["/u"], none, true, ["x", "a", "a"]⟩
    (.ok .standard) (.ok ()) "" rfl ⟨by decide +kernel, rfl⟩
  obtain ⟨bodies, hbodies, -⟩ := hdot rfl
  have htwice : calls = [u.handover, u.handover] :=
    ((hcalls _).1 (.failed hfails (.loaded hu (.loaded hu .nil)))).symm
  refine ⟨hfails, ⟨u, hu, fun other => htwice ▸ hcalls other⟩,
    ⟨calls, (hcalls _).2 rfl, hless [] "x" ["a", "a"] rfl hfails, bodies, hbodies⟩,
    hone.2 ⟨"x", by simp, hfails⟩, ?_, by decide +kernel⟩
  exact (hmore [] "x" ["a", "a"] rfl hfails (by simp)).output

end Session
end ServiceUnits
