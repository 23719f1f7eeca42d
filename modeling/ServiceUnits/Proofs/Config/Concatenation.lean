import ServiceUnits.Proofs.Config.Malformed

namespace ServiceUnits

open Text

namespace Config

open Line

/-- A blank line or a comment. -/
def IsPassedOver (line : List Char) : Prop := trim line = [] ∨ IsComment (trim line)

/-- One of the lines is a header, outside a value. -/
def HasHeader (ls : List (List Char)) : Prop :=
  ∃ pre line post, ls = pre ++ line :: post ∧ ¬ InValue pre ∧ ∃ name, IsHeader (trim line) name

/-- The first line that is not passed over is a header, if there is such a line. -/
inductive BeginsWithHeader : List (List Char) → Prop
  | nothing : BeginsWithHeader []
  | passed {line : List Char} {ls : List (List Char)} (h : IsPassedOver line)
      (rest : BeginsWithHeader ls) : BeginsWithHeader (line :: ls)
  | header {line name : List Char} {ls : List (List Char)} (h : IsHeader (trim line) name) :
      BeginsWithHeader (line :: ls)

instance : DecidablePred IsPassedOver := fun _ => inferInstanceAs (Decidable (_ ∨ _))

theorem HasHeader.concat {ls : List (List Char)} (h : HasHeader ls) (line : List Char) :
    HasHeader (ls ++ [line]) := exists_split_concat.2 (.inl h)

/-- Without a header the section stays that of the top level. -/
theorem OpenSection.eq_topLevel {ls : List (List Char)} {s : String} (h : OpenSection ls s)
    (hno : ¬ HasHeader ls) : s = topLevel := by
  induction h with
  | top => rfl
  | @header ls line name hv h => exact absurd ⟨ls, line, [], rfl, hv, name, h⟩ hno
  | @kept ls line s _ _ ih => exact ih fun hls => hno (hls.concat line)

end Config

namespace Reader

open Config Line

/-- Lines that begin with a header are read alike whichever section is open before them. -/
theorem run_of_beginsWithHeader {ls : List (List Char)} (h : BeginsWithHeader ls) (c : Config)
    (s t : String) : (⟨c, s, none⟩ : Reader).run ls = (⟨c, t, none⟩ : Reader).run ls := by
  induction h with
  | nothing => rfl
  | passed hline _ ih => rw [(Step.idle rfl hline).run_cons, (Step.idle rfl hline).run_cons, ih]
  | header hname => rw [(Step.header rfl hname).run_cons, (Step.header rfl hname).run_cons]

end Reader

namespace Config

open Line Reader

/-- A text behind another that leaves no value open is read as if it were read for itself on top of
the config after the first, if the first has no header or the second begins with one. What stops the
reading of the first stops the reading of both. -/
theorem overlay_append (c : Config) {t₁ t₂ : String} (hvalue : ¬ InValue (lines t₁))
    (hsection : ¬ HasHeader (lines t₁) ∨ BeginsWithHeader (lines t₂)) :
    c.overlay (t₁ ++ "\n" ++ t₂) =
      match c.overlay t₁ with
      | (d, .ok ()) => d.overlay t₂
      | (d, .error e) => (d, .error e) := by
  rw [overlay_eq_run, lines_append]
  rcases reads_or_stops c (lines t₁) with ⟨r, hr⟩ | ⟨d, e, hstops⟩
  · have hfirst : c.overlay t₁ = (r.commit.config, .ok ()) := hr.run_eq
    have hpending : r.pending = none := hr.pending_eq_none_iff.2 hvalue
    obtain ⟨d, s, pending⟩ := r
    obtain rfl : pending = none := hpending
    have hopen : OpenSection (lines t₁) s := hr.place.2
    rw [hr.run_append, hfirst]
    change (⟨d, s, none⟩ : Reader).run (lines t₂) = d.overlay t₂
    rcases hsection with hno | hbegins
    · rw [hopen.eq_topLevel hno]
      rfl
    · exact run_of_beginsWithHeader hbegins d s topLevel
  · have hfirst : c.overlay t₁ = (d, .error e) := by
      have h := hstops []
      rwa [List.append_nil] at h
    rw [hstops, hfirst]

/-- A fragment that ends in a section. -/
def fragmentText : String := "[Unit]\nWants=a"

/-- An overlay with a header behind a comment and a blank line, and with a malformed line. -/
def overlayText : String := "# more\n\n[Service]\nType=x\noops\nUser=y"

/-- What stands before the malformed line is kept, section by section, and the line is rejected. -/
theorem fragment_with_overlay : empty.overlay (fragmentText ++ "\n" ++ overlayText) =
      (empty.overlay fragmentText).1.overlay overlayText ∧
    empty.overlay (fragmentText ++ "\n" ++ overlayText) =
      (⟨.ofList [("Service", .ofList [("Type", ["x"])]), ("Unit", .ofList [("Wants", ["a"])])]⟩,
        .error (.badLine "oops")) := by
  have hvalue : ¬ InValue (lines fragmentText) := by
    have hlines : lines fragmentText = ["[Unit]".toList] ++ ["Wants=a".toList] := by decide +kernel
    rw [hlines, inValue_concat]
    exact fun h => absurd h.1 (by decide)
  have hbegins : BeginsWithHeader (lines overlayText) := by
    have hlines : lines overlayText = "# more".toList :: [] :: "[Service]".toList ::
        ["Type=x".toList, "oops".toList, "User=y".toList] := by decide +kernel
    have hheader : IsHeader (trim "[Service]".toList) "Service".toList := ⟨by decide, by decide⟩
    rw [hlines]
    exact .passed (by decide) (.passed (by decide) (.header hheader))
  have hfirst : empty.overlay fragmentText = ((empty.overlay fragmentText).1, .ok ()) :=
    Prod.ext rfl (by decide +kernel)
  have happend := overlay_append empty hvalue (.inr hbegins)
  rw [hfirst] at happend
  exact ⟨happend, happend.trans (by decide +kernel)⟩

end Config

end ServiceUnits
