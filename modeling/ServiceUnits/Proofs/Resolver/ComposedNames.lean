import ServiceUnits.Proofs.Dropin.Dependencies
import ServiceUnits.Proofs.Name.Canonical
import ServiceUnits.Proofs.Name.Grammar
import ServiceUnits.Proofs.Resolver.Aliases

namespace ServiceUnits

open Name

variable {fs : FileSystem} {lookup : Lookup} {text name param unit : String} {dir : Path}
  {c : Chain} {a : AliasSet}

/-- What a directory adds is a file name of some form unless it is too long. -/
theorem Dropin.isFileName_of_mem_dependencies
    (h : unit ∈ dependencies fs (parameter? a) dir) :
    isFileName (fun _ => true) unit = true ↔ unit.utf8ByteSize ≤ maxBytes := by
  obtain ⟨entry, -, hentry⟩ := mem_dependencies.1 h
  obtain ⟨n, hn, -⟩ := Option.map_eq_some_iff.1 hentry
  rw [dependency?_of_parse? hn] at hentry
  obtain ⟨m, hm, htext⟩ := entryUnit_eq_text a.id? hn
  obtain rfl : m.text = unit := htext.symm.trans (Option.some.inj hentry)
  simpa using hm.isFileName_text fun _ => true

/-- What an instance gets from the templates in a chain are instances unless they are too long. -/
theorem AliasSet.isFileName_of_mem_ofTemplate (hp : parameterOf? name = some param)
    (h : unit ∈ (ofTemplate name param c).names) (hne : unit ≠ name) :
    isFileName (· = .instantiated) unit = true ↔ unit.utf8ByteSize ≤ maxBytes := by
  rcases mem_names_ofTemplate.1 h with rfl | ⟨other, -, n, hn, hinst⟩
  · exact absurd rfl hne
  · obtain ⟨-, rfl⟩ := instantiate?_eq_some_iff.1 hinst
    obtain ⟨hparam, hpart⟩ := parameterOf?_spec hp
    have hwell := (parse?_spec hn).2.1.withParam hpart
    have hform : form { n with param := some param } = .instantiated :=
      form_eq_instantiated_iff.2 ⟨param, rfl, hparam⟩
    simpa [hform] using hwell.isFileName_text (· = .instantiated)

/-- For a unit that has been located, every name that a dependency directory adds is a file name,
and every other name that the unit gets from its template is that of an instance, if and only if it
has no more than 255 bytes. -/
theorem composed_isFileName_iff (h : locate fs lookup text = .ok a) :
    (∀ dir, ∀ unit ∈ Dropin.dependencies fs (Dropin.parameter? a) dir,
      (isFileName (fun _ => true) unit = true ↔ unit.utf8ByteSize ≤ 255)) ∧
    (Nowhere fs lookup (canonical text) → ∀ unit ∈ a.names, unit ≠ canonical text →
      (isFileName (· = .instantiated) unit = true ↔ unit.utf8ByteSize ≤ 255)) := by
  refine ⟨fun dir unit hunit => Dropin.isFileName_of_mem_dependencies hunit, ?_⟩
  intro hn unit hunit hne
  cases locate_eq_ok_iff.1 h with
  | direct hc =>
    rw [firstChain?_eq_none_iff.2 hn] at hc
    cases hc
  | fromTemplate _ _ hp => exact AliasSet.isFileName_of_mem_ofTemplate hp hunit hne

/-- Two templates in a chain, and an entry of a dependency directory that leaves its type out. -/
def terminals : NodeTable where
  nodes := [(Path.components ⟨"/u/getty@.service"⟩, .link "/lib/console@.service"),
    (Path.components ⟨"/lib/console@.service"⟩, .file .empty)]
  listings := [(Path.components ⟨"/u/getty@.service.wants"⟩, .names ["log@"])]

theorem terminals_fileNames : ∃ a, locate terminals.fileSystem ⟨["/u"]⟩ "getty@1" = .ok a ∧
    "log@1.service" ∈ Dropin.dependencies terminals.fileSystem (Dropin.parameter? a)
      ⟨"/u/getty@.service.wants"⟩ ∧ isFileName (fun _ => true) "log@1.service" = true ∧
    "console@1.service" ∈ a.names ∧
      isFileName (· = .instantiated) "console@1.service" = true := by
  have hn : Nowhere terminals.fileSystem ⟨["/u"]⟩ (canonical "getty@1") :=
    firstChain?_eq_none_iff.1 (by decide +kernel)
  have hnames : (locate terminals.fileSystem ⟨["/u"]⟩ "getty@1").toOption.map (·.names) =
      some ["getty@1.service", "console@1.service"] := by decide +kernel
  obtain ⟨a, ha, hnames⟩ := Resolver.exists_eq_ok hnames
  have hparam : Dropin.parameter? a = some "1" := by
    rw [Dropin.parameter?, AliasSet.id?, hnames]
    decide +kernel
  have hadded : "log@1.service" ∈ Dropin.dependencies terminals.fileSystem (Dropin.parameter? a)
      ⟨"/u/getty@.service.wants"⟩ := by
    rw [hparam]
    decide +kernel
  have hmem : "console@1.service" ∈ a.names := by simp [hnames]
  obtain ⟨hunits, haliases⟩ := composed_isFileName_iff ha
  exact ⟨a, ha, hadded, (hunits _ _ hadded).2 (by decide), hmem,
    (haliases hn _ hmem (by decide)).2 (by decide)⟩

/-- A text of `n` letters. -/
def letters : Nat → String
  | 0 => ""
  | n + 1 => "b" ++ letters n

theorem utf8ByteSize_letters (n : Nat) : (letters n).utf8ByteSize = n := by
  induction n with
  | zero => rfl
  | succ n ih =>
    have hone : "b".utf8ByteSize = 1 := by decide
    rw [letters, String.utf8ByteSize_append, ih, hone]
    omega

theorem isSolid_letters (n : Nat) : IsSolid (letters n) := by
  induction n with
  | zero => decide
  | succ n ih =>
    have hone : IsSolid "b" := by decide
    rw [isSolid_iff, isPart] at ih hone ⊢
    rw [letters, String.toList_append, List.all_append, hone, ih]
    rfl

/-- A unit that wants one whose name, without its type, is nearly as long as it may be. -/
def overlong : NodeTable where
  nodes := [(Path.components ⟨"/u/web.service"⟩, .file .empty)]
  listings := [(Path.components ⟨"/u/web.service.wants"⟩, .names [letters 248])]

theorem parse?_letters : parse? (letters 248) = some ⟨letters 248, none, "service", false⟩ := by
  have hsize := utf8ByteSize_letters 248
  apply Spells.parse?
  exact {
    one_le_size := by omega
    size_le := by omega
    text_eq := by simp
    base_ne := by
      rintro (h : letters 248 = "")
      rw [h, String.utf8ByteSize_empty] at hsize
      omega
    type_ne := by decide
    type_of_not_explicit := fun _ => rfl
    base_solid := isSolid_letters 248
    param_solid := by simp
    type_solid := by decide }

/-- The type makes the name of the unit that is wanted too long. -/
theorem overlong_adds_no_fileName : ∃ a, locate overlong.fileSystem ⟨["/u"]⟩ "web" = .ok a ∧
    ∃ unit ∈ Dropin.dependencies overlong.fileSystem (Dropin.parameter? a)
      ⟨"/u/web.service.wants"⟩, isFileName (fun _ => true) unit = false := by
  have hnames : (locate overlong.fileSystem ⟨["/u"]⟩ "web").toOption.map (·.names) =
      some ["web.service"] := by decide +kernel
  obtain ⟨a, ha, hnames⟩ := Resolver.exists_eq_ok hnames
  have hmem : Name.text ⟨letters 248, none, "service", false⟩ ∈
      Dropin.dependencies overlong.fileSystem (Dropin.parameter? a) ⟨"/u/web.service.wants"⟩ := by
    refine Dropin.mem_dependencies.2 ⟨letters 248, (Dropin.mem_entries rfl).2 (by simp), ?_⟩
    rw [Dropin.dependency?_of_parse? parse?_letters, ← canonical_eq_text parse?_letters]
    rfl
  have hsize : (Name.text ⟨letters 248, none, "service", false⟩).utf8ByteSize = 256 := by
    have htype : ".".utf8ByteSize + "service".utf8ByteSize = 8 := by decide
    have htext : Name.text ⟨letters 248, none, "service", false⟩ =
        letters 248 ++ "." ++ "service" := rfl
    rw [htext, String.utf8ByteSize_append, String.utf8ByteSize_append, utf8ByteSize_letters]
    omega
  refine ⟨a, ha, _, hmem, ?_⟩
  rw [Bool.eq_false_iff, Ne, Dropin.isFileName_of_mem_dependencies hmem, hsize]
  decide

end ServiceUnits
