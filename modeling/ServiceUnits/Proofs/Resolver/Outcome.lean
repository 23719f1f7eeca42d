import ServiceUnits.FileSystem.NodeTable
import ServiceUnits.Proofs.Config.Overlay
import ServiceUnits.Proofs.Dropin.Overlays
import ServiceUnits.Proofs.Resolver.Inquiry
import ServiceUnits.Proofs.Resolver.Located
import ServiceUnits.Proofs.Resolver.Stages

namespace ServiceUnits

theorem Config.read_eq_error_iff {text : String} {e : Error} :
    Config.read text = .error e ↔ ∃ line, Config.RejectedFor text line ∧ e = .badLine line := by
  rw [← Config.overlay_eq_error_iff Config.empty, Config.read]
  generalize Config.empty.overlay text = overlaid
  obtain ⟨c, _ | _⟩ := overlaid <;> simp

namespace Resolver

/-- The name is located, and its fragment can be read. -/
structure HasFragment (r : Resolver) (name : String) (a : AliasSet) (bytes : ByteArray) : Prop where
  admissible : Admissible name
  located : locate r.fs r.lookup name = .ok a
  read : r.fs.read a.fragment = .ok bytes

/-- The ways in which resolving a name ends. Dependency directories are in none of the failures. -/
inductive Ends (r : Resolver) (name : String) : Except Error ResolvedUnit → Prop
  | path (h : '/' ∈ name.toList) : Ends r name (.error (.notFileName name))
  | template (hs : '/' ∉ name.toList) (h : Name.isFileName (· = .template) name = true) :
      Ends r name (.error (.template name))
  | notLocated {e : Error} (hn : Admissible name) (h : locate r.fs r.lookup name = .error e) :
      Ends r name (.error e)
  | unreadable {a : AliasSet} {e : Error} (hn : Admissible name)
      (ha : locate r.fs r.lookup name = .ok a) (h : r.fs.read a.fragment = .error e) :
      Ends r name (.error e)
  | badFragment {a : AliasSet} {bytes : ByteArray} {line : String} (h : HasFragment r name a bytes)
      (hl : Config.RejectedFor (Text.decodeLossy bytes) line) : Ends r name (.error (.badLine line))
  | badOverlay {a : AliasSet} {bytes : ByteArray} {fragment : Config} {line : String}
      (h : HasFragment r name a bytes) (hf : Config.read (Text.decodeLossy bytes) = .ok fragment)
      (hl : Dropin.FirstRejected r.fs (Dropin.overlayDirs r.lookup a) line) :
      Ends r name (.error (.badLine line))
  | resolved {a : AliasSet} {bytes : ByteArray} {fragment config : Config}
      (h : HasFragment r name a bytes) (hf : Config.read (Text.decodeLossy bytes) = .ok fragment)
      (ho : ∀ overlay p, Dropin.Selected r.fs (Dropin.overlayDirs r.lookup a) overlay p →
        ∀ line, ¬ Dropin.IsRejected r.fs p line)
      (hc : (Dropin.apply r.fs r.lookup r.table a fragment).1 = config) :
      Ends r name (.ok ⟨a, config, .ofConfig config⟩)

variable {r : Resolver} {name text : String}

theorem resolve_eq_of_hasFragment {a : AliasSet} {bytes : ByteArray}
    (h : HasFragment r (Name.canonical text) a bytes) : r.resolve text = (do
      let fragment ← Config.read (Text.decodeLossy bytes)
      let (config, result) := Dropin.apply r.fs r.lookup r.table a fragment
      result
      return ⟨a, config, .ofConfig config⟩) := by
  rw [resolve, checkName_eq_ok_iff.2 h.admissible, h.located]
  change (r.fs.read a.fragment >>= _) = _
  rw [h.read]
  rfl

theorem resolve_eq_of_fragment {a : AliasSet} {bytes : ByteArray} {fragment : Config}
    (h : HasFragment r (Name.canonical text) a bytes)
    (hf : Config.read (Text.decodeLossy bytes) = .ok fragment) :
    r.resolve text = (do
      (Dropin.apply r.fs r.lookup r.table a fragment).2
      return ⟨a, (Dropin.apply r.fs r.lookup r.table a fragment).1,
        .ofConfig (Dropin.apply r.fs r.lookup r.table a fragment).1⟩) := by
  rw [resolve_eq_of_hasFragment h, hf]
  rfl

theorem Ends.resolve_eq {x : Except Error ResolvedUnit} (h : Ends r (Name.canonical text) x) :
    r.resolve text = x := by
  cases h with
  | path h => simp [resolve, checkName, h, bind, Except.bind]
  | template hs h => simp [resolve, checkName, hs, h, bind, Except.bind]
  | notLocated hn h =>
    rw [resolve, checkName_eq_ok_iff.2 hn, h]
    rfl
  | unreadable hn ha h =>
    rw [resolve, checkName_eq_ok_iff.2 hn, ha]
    change (r.fs.read _ >>= _) = _
    rw [h]
    rfl
  | badFragment h hl =>
    rw [resolve_eq_of_hasFragment h, Config.read_eq_error_iff.2 ⟨_, hl, rfl⟩]
    rfl
  | badOverlay h hf hl =>
    rw [resolve_eq_of_fragment h hf, Dropin.apply_snd,
      Dropin.applyOverlays_selected_eq_error_iff.2 ⟨_, hl, rfl⟩]
    rfl
  | resolved h hf ho hc =>
    rw [resolve_eq_of_fragment h hf, Dropin.apply_snd,
      Dropin.applyOverlays_selected_eq_ok_iff.2 ho, hc]
    rfl

theorem exists_ends (r : Resolver) (name : String) : ∃ x, Ends r name x := by
  -- Each stage either is at fault or leaves what the next one starts with.
  by_cases hs : '/' ∈ name.toList
  · exact ⟨_, .path hs⟩
  cases ht : Name.isFileName (· = .template) name with
  | true => exact ⟨_, .template hs ht⟩
  | false =>
    have hn : Admissible name := ⟨hs, ht⟩
    cases ha : locate r.fs r.lookup name with
    | error e => exact ⟨_, .notLocated hn ha⟩
    | ok a =>
      cases hb : r.fs.read a.fragment with
      | error e => exact ⟨_, .unreadable hn ha hb⟩
      | ok bytes =>
        have h : HasFragment r name a bytes := ⟨hn, ha, hb⟩
        cases hf : Config.read (Text.decodeLossy bytes) with
        | error e =>
          obtain ⟨line, hl, -⟩ := Config.read_eq_error_iff.1 hf
          exact ⟨_, .badFragment h hl⟩
        | ok fragment =>
          cases ho : (Dropin.applyOverlays r.fs
              (Dropin.selectedOverlays r.fs r.lookup a) fragment).2 with
          | error e =>
            obtain ⟨line, hl, -⟩ := Dropin.applyOverlays_selected_eq_error_iff.1 ho
            exact ⟨_, .badOverlay h hf hl⟩
          | ok _ =>
            exact ⟨_, .resolved h hf (Dropin.applyOverlays_selected_eq_ok_iff.1 ho) rfl⟩

theorem resolve_eq_iff {x : Except Error ResolvedUnit} :
    r.resolve text = x ↔ Ends r (Name.canonical text) x := by
  constructor
  · intro h
    obtain ⟨y, hy⟩ := exists_ends r (Name.canonical text)
    rwa [← h, hy.resolve_eq]
  · exact Ends.resolve_eq

/-- A resolver with the same chains and files, to which the overlays of a unit are listed alike.
What is listed elsewhere may differ, and so may the table of suffixes. -/
structure SameOverlays (r s : Resolver) (name : String) : Prop where
  lookup : s.lookup = r.lookup
  chain : ∀ p, s.fs.chain p = r.fs.chain p
  read : ∀ p, s.fs.read p = r.fs.read p
  listed : ∀ a, locate r.fs r.lookup name = .ok a → ∀ dir ∈ Dropin.overlayDirs r.lookup a,
    ∀ entry, Dropin.isOverlayName entry = true →
      (Dropin.Listed s.fs dir entry ↔ Dropin.Listed r.fs dir entry)

namespace SameOverlays

variable {s : Resolver} {a : AliasSet}

theorem locate_eq (h : SameOverlays r s name) :
    locate s.fs s.lookup name = locate r.fs r.lookup name := by
  rw [h.lookup]
  exact locate_congr (fun n dir => by simp only [chainIn?, h.chain]) r.lookup name

theorem symm (h : SameOverlays r s name) : SameOverlays s r name where
  lookup := h.lookup.symm
  chain p := (h.chain p).symm
  read p := (h.read p).symm
  listed a ha dir hdir entry hentry := by
    rw [h.locate_eq] at ha
    rw [h.lookup] at hdir
    exact (h.listed a ha dir hdir entry hentry).symm

theorem isRejected_iff (h : SameOverlays r s name) {p : Path} {line : String} :
    Dropin.IsRejected s.fs p line ↔ Dropin.IsRejected r.fs p line := by
  simp only [Dropin.IsRejected, h.read]

theorem selected_of_selected (h : SameOverlays r s name) (ha : locate r.fs r.lookup name = .ok a)
    {overlay : String} {p : Path}
    (hs : Dropin.Selected r.fs (Dropin.overlayDirs r.lookup a) overlay p) :
    Dropin.Selected s.fs (Dropin.overlayDirs s.lookup a) overlay p := by
  obtain ⟨hname, before, dir, after, hdirs, hin, hbefore, hp⟩ := hs
  have hlisted : ∀ d ∈ before ++ dir :: after,
      (Dropin.Listed s.fs d overlay ↔ Dropin.Listed r.fs d overlay) :=
    fun d hd => h.listed a ha d (hdirs ▸ hd) overlay hname
  rw [h.lookup]
  refine ⟨hname, before, dir, after, hdirs, (hlisted dir (by simp)).2 hin, ?_, hp⟩
  intro d hd hl
  exact hbefore d hd ((hlisted d (List.mem_append_left _ hd)).1 hl)

theorem selected_iff (h : SameOverlays r s name) (ha : locate r.fs r.lookup name = .ok a)
    {overlay : String} {p : Path} :
    Dropin.Selected s.fs (Dropin.overlayDirs s.lookup a) overlay p ↔
      Dropin.Selected r.fs (Dropin.overlayDirs r.lookup a) overlay p :=
  ⟨h.symm.selected_of_selected (h.locate_eq.trans ha), h.selected_of_selected ha⟩

theorem hasFragment (h : SameOverlays r s name) {bytes : ByteArray}
    (hf : HasFragment r name a bytes) : HasFragment s name a bytes :=
  ⟨hf.admissible, h.locate_eq.trans hf.located, (h.read _).trans hf.read⟩

theorem error (h : SameOverlays r s name) {e : Error} (he : Ends r name (.error e)) :
    Ends s name (.error e) := by
  cases he with
  | path hs => exact .path hs
  | template hs ht => exact .template hs ht
  | notLocated hn hl => exact .notLocated hn (h.locate_eq.trans hl)
  | unreadable hn ha hb => exact .unreadable hn (h.locate_eq.trans ha) ((h.read _).trans hb)
  | badFragment hf hl => exact .badFragment (h.hasFragment hf) hl
  | badOverlay hf hread hl =>
    refine .badOverlay (h.hasFragment hf) hread ?_
    simpa only [Dropin.FirstRejected, h.selected_iff hf.located, h.isRejected_iff] using hl

end SameOverlays

/-- The result is that of the first stage at fault. A name that may not be resolved is refused
without a question to the file system. A failure is never one of a dependency directory, of a
directory that cannot be listed or of an overlay that cannot be read. -/
theorem resolve_outcome (r : Resolver) (text : String) :
    let name := Name.canonical text
    let inquiry := Inquiry.resolve r.lookup r.table text
    (∀ x, r.resolve text = x ↔ Ends r name x) ∧
    inquiry.result r.fs = r.resolve text ∧
    (¬ Admissible name → inquiry.questions r.fs = []) ∧
    ∀ s : Resolver, SameOverlays r s name →
      ∀ e, s.resolve text = .error e ↔ r.resolve text = .error e := by
  intro name inquiry
  refine ⟨fun _ => resolve_eq_iff, Inquiry.result_resolve r.fs r.lookup r.table text, ?_, ?_⟩
  · intro hn
    have herror : ∃ e, checkName name = .error e := by
      unfold checkName
      split
      · exact ⟨_, rfl⟩
      · rename_i hs
        split
        · exact ⟨_, rfl⟩
        · rename_i ht
          exact absurd ⟨hs, Bool.eq_false_iff.2 ht⟩ hn
    obtain ⟨e, he⟩ := herror
    exact Inquiry.questions_resolve_of_checkName he
  · intro s h e
    rw [resolve_eq_iff, resolve_eq_iff]
    exact ⟨h.symm.error, h.error⟩

/-- A unit with three overlays. The first may not be read and the others are malformed. -/
def rejecting (dependencies : Listing) : Resolver where
  fs := NodeTable.fileSystem
    { nodes := [(Path.components ⟨"/a/x.service"⟩, .file .empty),
        (Path.components ⟨"/a/x.service.d/1.conf"⟩, .unreadable),
        (Path.components ⟨"/a/x.service.d/2.conf"⟩, .file "[Unit]\nWants=y\noops\n".toUTF8),
        (Path.components ⟨"/a/x.service.d/3.conf"⟩, .file "later".toUTF8)]
      listings := [(Path.components ⟨"/a/x.service.d"⟩, .names ["3.conf", "2.conf", "1.conf"]),
        (Path.components ⟨"/a/x.service.wants"⟩, dependencies)] }
  lookup := ⟨["/a"]⟩
  table := .standard

/-- What is listed as dependencies is none of the unit's overlays. -/
theorem sameOverlays_rejecting (l : Listing) :
    SameOverlays (rejecting .denied) (rejecting l) "x.service" where
  lookup := rfl
  chain _ := rfl
  read _ := rfl
  listed a ha dir hdir entry _ := by
    have hdirs : (locate (rejecting .denied).fs (rejecting .denied).lookup "x.service").toOption.map
        (Dropin.overlayDirs (rejecting .denied).lookup) = some [⟨"/a/x.service.d"⟩] := by
      decide +kernel
    rw [ha] at hdirs
    rw [Option.some.inj hdirs, List.mem_singleton] at hdir
    subst hdir
    exact Iff.rfl

/-- The second overlay is the one that is reported, whatever the dependencies are. A template of the
unit is refused at once. -/
theorem rejecting_reports_second :
    Ends (rejecting .denied) "x.service" (.error (.badLine "oops")) ∧
    ¬ Admissible "x@.service" ∧
    (Inquiry.resolve (rejecting .denied).lookup .standard "x@").questions
      (rejecting .denied).fs = [] ∧
    SameOverlays (rejecting .denied) (rejecting (.names ["y@.service", "not a unit"]))
      "x.service" ∧
    (rejecting (.names ["y@.service", "not a unit"])).resolve "x" = .error (.badLine "oops") := by
  have hx : Name.canonical "x" = "x.service" := by decide +kernel
  have ht : Name.canonical "x@" = "x@.service" := by decide +kernel
  obtain ⟨hends, -, -, hother⟩ := resolve_outcome (rejecting .denied) "x"
  obtain ⟨-, -, hquestions, -⟩ := resolve_outcome (rejecting .denied) "x@"
  rw [hx] at hends hother
  rw [ht] at hquestions
  have herror : (rejecting .denied).resolve "x" = .error (.badLine "oops") := by decide +kernel
  have htemplate : ¬ Admissible "x@.service" := by
    intro h
    exact absurd h.not_template (by decide +kernel)
  have hsame := sameOverlays_rejecting (.names ["y@.service", "not a unit"])
  exact ⟨(hends _).1 herror, htemplate, hquestions htemplate, hsame, (hother _ hsame _).2 herror⟩

end Resolver
end ServiceUnits
