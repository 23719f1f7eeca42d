import Mathlib.Data.List.DropRight
import Mathlib.Data.List.Induction
import ServiceUnits.Path.Raw
import ServiceUnits.Proofs.Path.Names
import ServiceUnits.Proofs.Text.Encoding

namespace ServiceUnits.RawPath

open Text

/-- The steps that a path names, as bytes. Two dots are one of them. -/
def names (bs : Bytes) : List Bytes := (piecesOf bs).filter fun step => !isIdle step

theorem slash_iff (b : UInt8) : isSlash b = true ↔ b = slash := decide_eq_true_iff

theorem dropIdleEnd_eq (ps : List Bytes) : dropIdleEnd ps = ps.rdropWhile isIdle := rfl

theorem filter_dropIdleEnd (ps : List Bytes) :
    (dropIdleEnd ps).filter (fun step => !isIdle step) = ps.filter fun step => !isIdle step := by
  induction ps using List.reverseRecOn with
  | nil => rfl
  | append_singleton ps p ih =>
    rw [dropIdleEnd_eq] at ih ⊢
    cases hp : isIdle p with
    | true =>
      rw [List.rdropWhile_concat_pos _ _ _ hp, List.filter_append, ih]
      simp [hp]
    | false => rw [List.rdropWhile_concat_neg _ _ _ (by simp [hp])]

theorem isPrefix_dropIdleEnd (ps : List Bytes) : dropIdleEnd ps <+: ps :=
  List.rdropWhile_prefix isIdle ps

theorem init?_eq_some {ps qs : List Bytes} (h : init? ps = some qs) :
    qs <+: ps ∧ qs.filter (fun step => !isIdle step) =
      (ps.filter fun step => !isIdle step).dropLast := by
  rw [init?] at h
  split at h
  · cases h
  · rename_i hne
    obtain rfl := Option.some.inj h
    have hlast : isIdle ((dropIdleEnd ps).getLast hne) = false :=
      Bool.eq_false_iff.2 (List.rdropWhile_last_not isIdle ps hne)
    have hsplit := List.dropLast_concat_getLast hne
    have hpre : (dropIdleEnd ps).dropLast <+: ps :=
      (List.dropLast_prefix _).trans (isPrefix_dropIdleEnd ps)
    refine ⟨(isPrefix_dropIdleEnd _).trans hpre, ?_⟩
    rw [filter_dropIdleEnd, ← filter_dropIdleEnd ps, ← hsplit, List.filter_append]
    simp [hlast]

theorem init?_eq_none {ps : List Bytes} (h : init? ps = none) :
    ps.filter (fun step => !isIdle step) = [] := by
  rw [init?] at h
  split at h
  · rename_i hnil
    rw [← filter_dropIdleEnd, hnil]
    rfl
  · cases h

theorem names_of_pieces {bs : Bytes} {ps : List Bytes} (h : piecesOf bs = ps) :
    names bs = ps.filter fun step => !isIdle step := by rw [names, h]

theorem not_isAbsolute_of_pieces {bs : Bytes} (h : ∀ rest, piecesOf bs ≠ [] :: rest) :
    bs.head? ≠ some slash := by
  intro hhead
  obtain ⟨-, rest, hrest⟩ := (head?_eq_sep_iff slash_iff).1 hhead
  exact h rest hrest

/-- A path that is a text is shown as this text. -/
@[simp]
theorem text_ofText (s : String) : (ofText s).text = s := lossy_utf8 s

/-- What no slash is in. -/
def NoSlash (step : Bytes) : Prop := ∀ b ∈ step, isSlash b = false

theorem names_join {ps : List Bytes} (h : ∀ p ∈ ps, NoSlash p) :
    names (Text.join slash ps) = ps.filter fun step => !isIdle step := by
  rw [names, piecesOf, filter_pieces_join ((slash_iff _).2 rfl) rfl h]

theorem names_slash_join {ps : List Bytes} (h : ∀ p ∈ ps, NoSlash p) :
    names (slash :: Text.join slash ps) = ps.filter fun step => !isIdle step := by
  rw [names, piecesOf, pieces, if_pos ((slash_iff _).2 rfl),
    ← filter_pieces_join ((slash_iff _).2 rfl) rfl h]
  rfl

/-- The forms of the directory of a path, by the first piece of the path. -/
inductive IsDirectoryOf (p : RawPath) : RawPath → Prop
  | root {rest ps : List Bytes} (hps : piecesOf p.bytes = [] :: rest) (hne : p.bytes ≠ [])
      (h : init? rest = some ps) : IsDirectoryOf p ⟨slash :: Text.join slash ps⟩
  | here {rest : List Bytes} (hps : piecesOf p.bytes = [dot] :: rest) (h : init? rest = none) :
      IsDirectoryOf p ⟨[]⟩
  /-- The dot that the path starts with is kept if more than the dot is left. -/
  | dotted {rest ps : List Bytes} (hps : piecesOf p.bytes = [dot] :: rest)
      (h : init? rest = some ps) : IsDirectoryOf p ⟨Text.join slash ([dot] :: ps)⟩
  | named {first : Bytes} {rest ps : List Bytes} (hps : piecesOf p.bytes = first :: rest)
      (hempty : first ≠ []) (hdot : first ≠ [dot]) (h : init? (first :: rest) = some ps) :
      IsDirectoryOf p ⟨Text.join slash ps⟩

theorem isDirectoryOf_of_parent? {p dir : RawPath} (h : p.parent? = some dir) :
    IsDirectoryOf p dir := by
  rw [parent?] at h
  split at h
  · cases h
  · rename_i first rest hps
    split at h
    · rename_i hfirst
      subst hfirst
      split at h
      · cases h
      · rename_i hne
        obtain ⟨ps, hinit, rfl⟩ := Option.map_eq_some_iff.1 h
        exact .root hps hne hinit
    · rename_i hempty
      split at h
      · rename_i hdot
        subst hdot
        split at h
        · rename_i hinit
          exact Option.some.inj h ▸ .here hps hinit
        · rename_i ps hinit
          exact Option.some.inj h ▸ .dotted hps hinit
      · rename_i hdot
        obtain ⟨ps, hinit, rfl⟩ := Option.map_eq_some_iff.1 h
        exact .named hps hempty hdot hinit

/-- The directory of a path names all steps of the path but the last, from the same start. -/
theorem parent?_spec {p dir : RawPath} (h : p.parent? = some dir) :
    names dir.bytes = (names p.bytes).dropLast ∧
      (dir.bytes.head? = some slash ↔ p.bytes.head? = some slash) := by
  have hstep : ∀ q ∈ piecesOf p.bytes, NoSlash q := fun q hq => not_sep_of_mem_pieces hq
  have hrel {first : Bytes} {rest : List Bytes} (hps : piecesOf p.bytes = first :: rest)
      (hfirst : first ≠ []) : p.bytes.head? ≠ some slash :=
    not_isAbsolute_of_pieces fun more hmore => hfirst (List.cons.inj (hps.symm.trans hmore)).1
  cases isDirectoryOf_of_parent? h with
  | @root rest ps hps hne hinit =>
    obtain ⟨hpre, hnames⟩ := init?_eq_some hinit
    have hin : ∀ q ∈ ps, NoSlash q :=
      fun q hq => hstep q (hps ▸ List.mem_cons_of_mem _ (hpre.subset hq))
    refine ⟨?_, iff_of_true rfl ((head?_eq_sep_iff slash_iff).2 ⟨hne, rest, hps⟩)⟩
    rw [names_slash_join hin, names_of_pieces hps, hnames]
    rfl
  | here hps hinit =>
    refine ⟨?_, iff_of_false (by simp) (hrel hps (by simp))⟩
    rw [names_of_pieces hps, List.filter_cons_of_neg (by decide), init?_eq_none hinit]
    rfl
  | @dotted rest ps hps hinit =>
    obtain ⟨hpre, hnames⟩ := init?_eq_some hinit
    have hin : ∀ q ∈ [dot] :: ps, NoSlash q := by
      intro q hq
      refine hstep q (hps ▸ ?_)
      exact (List.mem_cons.1 hq).elim (fun h => h ▸ List.mem_cons_self)
        fun h => List.mem_cons_of_mem _ (hpre.subset h)
    refine ⟨?_, iff_of_false (head?_join_ne slash_iff hin (by simp)) (hrel hps (by simp))⟩
    rw [names_join hin, names_of_pieces hps, List.filter_cons_of_neg (by decide),
      List.filter_cons_of_neg (by decide), hnames]
  | @named first rest ps hps hempty hdot hinit =>
    obtain ⟨hpre, hnames⟩ := init?_eq_some hinit
    have hin : ∀ q ∈ ps, NoSlash q := fun q hq => hstep q (hps ▸ hpre.subset hq)
    refine ⟨by rw [names_join hin, hnames, names, hps], ?_⟩
    refine iff_of_false (head?_join_ne slash_iff hin ?_) (hrel hps hempty)
    rintro more rfl
    obtain ⟨tail, htail⟩ := hpre
    exact hempty (List.cons.inj htail).1.symm

/-- Only the empty path and the root are in no directory. -/
theorem parent?_eq_none {p : RawPath} (h : p.parent? = none) :
    p.bytes = [] ∨ p.bytes.head? = some slash ∧ names p.bytes = [] := by
  rw [parent?] at h
  split at h
  · rename_i hps
    exact absurd hps (pieces_ne_nil _ _)
  · rename_i first rest hps
    split at h
    · rename_i hfirst
      subst hfirst
      split at h
      · rename_i hempty
        exact .inl hempty
      · rename_i hne
        refine .inr ⟨(head?_eq_sep_iff slash_iff).2 ⟨hne, rest, hps⟩, ?_⟩
        rw [names_of_pieces hps, List.filter_cons_of_neg (by decide)]
        exact init?_eq_none (Option.map_eq_none_iff.1 h)
    · rename_i hempty
      split at h
      · split at h <;> cases h
      -- Another first piece is a step itself.
      · rename_i hdot
        exfalso
        have hnames := init?_eq_none (Option.map_eq_none_iff.1 h)
        have hidle : isIdle first = false := by simp [isIdle, hempty, hdot]
        rw [List.filter_cons_of_pos (by simp [hidle])] at hnames
        cases hnames

/-- Bytes that a text is written in. -/
def IsText (bs : Bytes) : Prop := ∃ cs, encode cs = bs

/-- The text that is shown of a text loses nothing. -/
theorem utf8_text {p : RawPath} (h : IsText p.bytes) : utf8 p.text = p.bytes := by
  obtain ⟨cs, hcs⟩ := h
  have hutf8 : utf8 (.ofList cs) = p.bytes := by rw [utf8, String.toList_ofList, hcs]
  rw [text, ← hutf8, lossy_utf8]

theorem IsText.append {as bs : Bytes} (ha : IsText as) (hb : IsText bs) : IsText (as ++ bs) := by
  obtain ⟨cs, rfl⟩ := ha
  obtain ⟨ds, rfl⟩ := hb
  exact ⟨cs ++ ds, encode_append cs ds⟩

theorem isText_slash : IsText [slash] := ⟨['/'], by decide⟩

theorem isText_join {ps : List Bytes} (h : ∀ p ∈ ps, IsText p) : IsText (Text.join slash ps) := by
  induction ps with
  | nil => exact ⟨[], rfl⟩
  | cons p ps ih =>
    have hp := h p List.mem_cons_self
    cases ps with
    | nil => simpa [Text.join, List.intercalate] using hp
    | cons q qs =>
      rw [join_cons_cons, ← List.singleton_append]
      exact hp.append (isText_slash.append (ih fun r hr => h r (List.mem_cons_of_mem p hr)))

/-- No character but the slash has the byte of the slash in it. -/
theorem piecesOf_encode (cs : List Char) :
    piecesOf (encode cs) = (pieces Path.slash cs).map encode := by
  induction cs with
  | nil => rfl
  | cons c cs ih =>
    obtain ⟨p, ps, hp⟩ := List.exists_cons_of_ne_nil (pieces_ne_nil Path.slash cs)
    rw [hp, List.map_cons] at ih
    rw [encode_cons, pieces]
    split
    · rename_i hc
      obtain rfl := (Path.slash_iff c).1 hc
      rw [hp, List.map_cons, List.map_cons, ← ih]
      rfl
    · rename_i hc
      have hstep : NoSlash (String.utf8EncodeChar c) := by
        intro b hb
        refine Bool.eq_false_iff.2 fun hslash => ?_
        obtain rfl := (slash_iff b).1 hslash
        exact not_mem_utf8EncodeChar (by decide) (fun heq => hc ((Path.slash_iff c).2 heq)) hb
      rw [piecesOf, pieces_append_of_forall hstep ih, hp, List.map_cons, encode_cons]

theorem encode_eq_dot {cs : List Char} : encode cs = [dot] ↔ cs = ['.'] :=
  ⟨fun h => encode_injective h, fun h => h ▸ rfl⟩

theorem encode_eq_up {cs : List Char} : encode cs = up ↔ cs = ['.', '.'] :=
  ⟨fun h => encode_injective h, fun h => h ▸ rfl⟩

theorem isIdle_encode (cs : List Char) : isIdle (encode cs) = Path.isIdle cs := by
  have hnil : encode cs = [] ↔ cs = [] := ⟨fun h => encode_injective h, fun h => h ▸ rfl⟩
  rw [isIdle, Path.isIdle, decide_eq_decide.2 hnil, decide_eq_decide.2 encode_eq_dot]

/-- The steps that a text names are the steps of its bytes. -/
theorem names_utf8 (s : String) : names (utf8 s) = (Path.names s).map encode := by
  rw [names, utf8, piecesOf_encode, List.filter_map, Path.names]
  refine congrArg _ (List.filter_congr fun cs _ => ?_)
  rw [Function.comp_apply, isIdle_encode]

theorem head?_utf8 (s : String) : (utf8 s).head? = some slash ↔ s.toList.head? = some '/' := by
  rw [utf8]
  cases s.toList with
  | nil => exact iff_of_false (by simp [encode]) (by simp)
  | cons c cs =>
    by_cases hc : c = '/'
    · subst hc
      exact iff_of_true rfl rfl
    · obtain ⟨b, rest, hbytes, -⟩ := exists_takeChar c []
      have hb : b ≠ slash := by
        rintro rfl
        exact not_mem_utf8EncodeChar (by decide) hc (hbytes ▸ List.mem_cons_self)
      exact iff_of_false (by simp [encode_cons, hbytes, hb]) (by simp [hc])

/-- The directory of a text is a text. -/
theorem isText_parent? {s : String} {dir : RawPath} (h : (ofText s).parent? = some dir) :
    IsText dir.bytes := by
  have htext : ∀ q ∈ piecesOf (utf8 s), IsText q := by
    intro q hq
    rw [utf8, piecesOf_encode] at hq
    obtain ⟨cs, -, rfl⟩ := List.mem_map.1 hq
    exact ⟨cs, rfl⟩
  cases isDirectoryOf_of_parent? h with
  | root hps _ hinit =>
    refine isText_slash.append (isText_join fun q hq => htext q (hps ▸ ?_))
    exact List.mem_cons_of_mem _ ((init?_eq_some hinit).1.subset hq)
  | here => exact ⟨[], rfl⟩
  | dotted hps hinit =>
    refine isText_join fun q hq => htext q (hps ▸ ?_)
    exact (List.mem_cons.1 hq).elim (fun h => h ▸ List.mem_cons_self)
      fun h => List.mem_cons_of_mem _ ((init?_eq_some hinit).1.subset h)
  | named hps _ _ hinit =>
    exact isText_join fun q hq => htext q (hps ▸ (init?_eq_some hinit).1.subset hq)

end ServiceUnits.RawPath
