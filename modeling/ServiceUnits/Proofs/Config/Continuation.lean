import ServiceUnits.Proofs.Config.Assignment
import ServiceUnits.Proofs.Config.Writing

namespace ServiceUnits

open Text

/-- A value in several lines: the first, more that go on, and the last. -/
structure SplitValue where
  first : String
  inner : List String
  last : String

namespace SplitValue

open Config Line UnitFile

/-- The lines with a backslash at the end of each but the last, the first behind its key. -/
def lines (v : SplitValue) (key : String) : List (List Char) :=
  [assignmentLine key (v.first ++ "\\")] ++ v.inner.map (fun s => (s ++ "\\").toList) ++
    [v.last.toList]

def segments (v : SplitValue) : List (List Char) :=
  [trim v.first.toList] ++ v.inner.map (trim ·.toList) ++ [trim v.last.toList]

/-- The segments with one space between two of them, trimmed as a whole. -/
def value (v : SplitValue) : String := .ofList (trim (join ' ' v.segments))

/-- The backslash after a line stands for itself, and the last line ends the value. -/
structure WellSplit (v : SplitValue) : Prop where
  first : ¬ EndsOdd v.first.toList
  inner : ∀ s ∈ v.inner, ¬ EndsOdd s.toList
  last : ¬ EndsOdd (trim v.last.toList)

theorem isBlank_getLast_backslash {s : List Char} {c : Char} (h : (s ++ ['\\']).getLast? = some c) :
    isBlank c = false := by
  obtain rfl : '\\' = c := by simpa using h
  rfl

theorem trim_backslash (s : List Char) : trim (s ++ ['\\']) = trimStart s ++ ['\\'] := by
  have hstart : trimStart (s ++ ['\\']) = trimStart s ++ ['\\'] := by
    rw [trimStart, List.dropWhile_append, ← trimStart]
    split
    · rename_i h
      rw [List.isEmpty_iff.1 h]
      rfl
    · rfl
  rw [trim, hstart]
  exact trimEnd_eq_self fun _ hc => isBlank_getLast_backslash hc

/-- The segment of a line with a backslash is what stands before it, trimmed. -/
theorem segment_backslash (s : List Char) : trimEnd (trim (s ++ ['\\'])).dropLast = trim s := by
  rw [trim_backslash, List.dropLast_concat, trim]

theorem endsOdd_trim_backslash {s : List Char} (h : ¬ EndsOdd s) : EndsOdd (trim (s ++ ['\\'])) :=
  (endsOdd_trim fun _ hc => isBlank_getLast_backslash hc).2 (endsOdd_concat.2 h)

theorem toList_backslash (s : String) : (s ++ "\\").toList = s.toList ++ ['\\'] := by simp

end SplitValue

namespace Reader

open Config Line UnitFile SplitValue

variable {c : Config} {ls : List (List Char)} {r : Reader} {key : String}

/-- The lines up to the last are not the end of the value, whatever they look like behind the key,
and each of them is a segment. -/
theorem Reads.splitLines (hr : Reads c ls r) (hp : r.pending = none) (hk : IsKey key.toList)
    {first : String} (hf : ¬ EndsOdd first.toList) {inner : List String}
    (h : ∀ s ∈ inner, ¬ EndsOdd s.toList) :
    Reads c (ls ++ assignmentLine key (first ++ "\\") :: inner.map fun s => (s ++ "\\").toList)
      { r with pending := some ⟨key, trim first.toList :: inner.map (trim ·.toList)⟩ } := by
  have hproperty : IsProperty (trim (assignmentLine key (first ++ "\\"))) key.toList
      (first ++ "\\").toList := by
    refine isProperty_assignmentLine hk (fun ch hch => ?_) fun hb => ?_
    · rw [toList_backslash] at hch
      exact isBlank_getLast_backslash hch
    · have hlast : (assignmentLine key (first ++ "\\")).getLast? = some '\\' := by
        rw [assignmentLine, toList_backslash, ← List.cons_append, ← List.append_assoc,
          List.getLast?_concat]
      exact absurd (hlast.symm.trans hb.2) (by decide)
  have hparts : valueParts (trim (first ++ "\\").toList) (inner.map fun s => (s ++ "\\").toList) =
      (first :: inner).map fun s => trim (s.toList ++ ['\\']) := by
    simp [valueParts]
  have hodd : ∀ s ∈ first :: inner, EndsOdd (trim (s.toList ++ ['\\'])) := by
    rw [List.forall_mem_cons]
    exact ⟨endsOdd_trim_backslash hf, fun s hs => endsOdd_trim_backslash (h s hs)⟩
  have hread := hr.unfinished hp hproperty (by simp [trim_backslash])
    (by rw [hparts, List.forall_mem_map]; exact hodd)
  have hsegments : ((first :: inner).map fun s => trim (s.toList ++ ['\\'])).map segmentOf =
      (first :: inner).map (trim ·.toList) := by
    rw [List.map_map]
    refine List.map_congr_left fun s hs => ?_
    exact (segmentOf_of_endsOdd (hodd s hs)).trans (segment_backslash s.toList)
  rwa [hparts, hsegments, hk.trimmed, String.ofList_toList] at hread

/-- After the lines of a value the key has it, and all else is as before. -/
theorem Reads.splitValue (hr : Reads c ls r) (hp : r.pending = none) (hk : IsKey key.toList)
    {v : SplitValue} (hv : v.WellSplit) :
    Reads c (ls ++ v.lines key) ⟨r.config.append r.current key v.value, r.current, none⟩ := by
  have hall := (hr.splitLines hp hk hv.first hv.inner).snoc (.ends rfl hv.last)
  rw [SplitValue.lines, List.singleton_append, ← List.append_assoc]
  exact hall

theorem Reads.value (hr : Reads c ls r) (hp : r.pending = none) (hk : IsKey key.toList)
    {v : SplitValue} (hne : v.value ≠ "") (hodd : ¬ EndsOdd v.value.toList)
    (hb : ¬ IsBracketed (assignmentLine key v.value)) :
    Reads c (ls ++ [assignmentLine key v.value])
      ⟨r.config.append r.current key v.value, r.current, none⟩ := by
  have htrim : trim v.value.toList = v.value.toList := by
    rw [SplitValue.value, String.toList_ofList, trim_trim]
  obtain ⟨config, current, pending⟩ := r
  obtain rfl : pending = none := hp
  exact hr.snoc (step_value hk htrim (by simpa using hne) hodd hb)

end Reader

namespace Config

open Line Reader UnitFile SplitValue

/-- A value in several lines is read as its segments joined in one line, whatever stands before the
lines, unless it is a value itself, and whatever stands after them. In the lines no other section is
opened, no key is cleared and nothing is malformed, whatever they look like. -/
theorem overlay_splitValue (c : Config) {before after : List (List Char)}
    (hbefore : ¬ InValue before) {key : String} (hk : IsKey key.toList) {v : SplitValue}
    (hv : v.WellSplit) (hne : v.value ≠ "") (hodd : ¬ EndsOdd v.value.toList)
    (hb : ¬ IsBracketed (assignmentLine key v.value)) :
    (∀ t u, lines t = before ++ v.lines key ++ after →
      lines u = before ++ [assignmentLine key v.value] ++ after → c.overlay t = c.overlay u) ∧
    ∀ r, Reads c before r → Reads c (before ++ v.lines key)
      ⟨r.config.append r.current key v.value, r.current, none⟩ := by
  have hsplit {r : Reader} (hr : Reads c before r) :=
    hr.splitValue (hr.pending_eq_none_iff.2 hbefore) hk hv
  have hwhole {r : Reader} (hr : Reads c before r) :=
    hr.value (hr.pending_eq_none_iff.2 hbefore) hk hne hodd hb
  refine ⟨fun t u ht hu => ?_, fun r hr => hsplit hr⟩
  rw [overlay_eq_run, overlay_eq_run, ht, hu]
  rcases reads_or_stops c before with ⟨r, hr⟩ | ⟨d, e, hstops⟩
  · rw [(hsplit hr).run_append, (hwhole hr).run_append]
  · rw [List.append_assoc, List.append_assoc, hstops, hstops]

/-- Its lines look like a header, a blank line, a comment and an assignment that clears. -/
def disguised : SplitValue where
  first := " c"
  inner := ["[Service]", "", "#", "Wants="]
  last := "  d"

def disguisedText : String :=
  "[Unit]\nWants=b\nWants= c\\\n[Service]\\\n\\\n#\\\nWants=\\\n  d\nAfter=e"

/-- They are one value of the key, between the one before it and the key behind it. -/
theorem disguised_joined : disguised.WellSplit ∧ disguised.value = "c [Service]  # Wants= d" ∧
    empty.overlay disguisedText =
      empty.overlay "[Unit]\nWants=b\nWants=c [Service]  # Wants= d\nAfter=e" ∧
    empty.overlay disguisedText = (⟨.ofList [("Unit",
      .ofList [("After", ["e"]), ("Wants", ["b", "c [Service]  # Wants= d"])])]⟩, .ok ()) := by
  have hbefore : ¬ InValue (["[Unit]".toList] ++ ["Wants=b".toList]) := by
    rw [inValue_concat]
    exact fun h => absurd h.1 (by decide)
  have hkey : IsKey "Wants".toList := by decide
  have hsplit : disguised.WellSplit := ⟨by decide, by decide, by decide⟩
  have hjoined := (@overlay_splitValue empty _ ["After=e".toList] hbefore _ hkey _ hsplit
    (by decide) (by decide) (by decide)).1
  have hsame := hjoined disguisedText "[Unit]\nWants=b\nWants=c [Service]  # Wants= d\nAfter=e"
    (by decide +kernel) (by decide +kernel)
  exact ⟨hsplit, by decide, hsame, hsame.trans (by decide +kernel)⟩

end Config

end ServiceUnits
