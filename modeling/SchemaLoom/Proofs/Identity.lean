import Mathlib.Data.List.TakeWhile
import Mathlib.Data.String.Basic
import SchemaLoom.Proofs.Location
import SchemaLoom.Reference

/-!
# The text of an identity

Each part of an identity is read up to the first character that it cannot hold, and each separator
is such a character.  So an identity is read from its text exactly if its parts hold the characters
of their kind.

- `Identity.WellNamed`: the scheme, the module and the resource hold the characters of their kind.
- `ReferenceKind.qualified?_eq_some_iff`: the texts of qualified references.
- `Identity.parse?_eq_some_iff`: the texts that an identity is read from.
- `Identity.parse?_text_iff`: an identity is read from its own text exactly if it is well named.
- `Identity.ofChars_text_append`: so is a reference with a fragment.
-/

namespace SchemaLoom

namespace Identity

open ReferenceKind

/-- The parts of an identity that are names hold the characters of their kind. -/
structure WellNamed (id : Identity) : Prop where
  letter : (id.scheme.toList.head?.map isLetter).getD false = true
  scheme : ∀ c ∈ id.scheme.toList, isSchemeChar c = true
  moduleName : id.moduleName.toList ≠ [] ∧ ∀ c ∈ id.moduleName.toList, isNameChar c = true
  resource : id.resource.toList ≠ [] ∧ ∀ c ∈ id.resource.toList, isNameChar c = true

theorem wellNamed_iff (id : Identity) : id.WellNamed ↔
    (id.scheme.toList.head?.map isLetter).getD false = true ∧
      id.scheme.toList.all isSchemeChar = true ∧
      (id.moduleName.toList ≠ [] ∧ id.moduleName.toList.all isNameChar = true) ∧
      id.resource.toList ≠ [] ∧ id.resource.toList.all isNameChar = true := by
  simp only [List.all_eq_true]
  constructor
  · exact fun h => ⟨h.letter, h.scheme, h.moduleName, h.resource⟩
  · exact fun ⟨hl, hs, hm, hr⟩ => ⟨hl, hs, hm, hr⟩

instance (id : Identity) : Decidable id.WellNamed :=
  decidable_of_iff' _ id.wellNamed_iff

/-- The characters of an identity whose version is written with some digits. -/
def chars (id : Identity) (digits : List Char) : List Char :=
  id.scheme.toList ++ ([':', '/', '/'] ++ (id.moduleName.toList ++ (['/'] ++
    (id.resource.toList ++ (['/', 'v'] ++ digits)))))

theorem toList_text (id : Identity) : id.text.toList = id.chars (Nat.toDigits 10 id.version) := by
  simp [text, chars]

end Identity

namespace ReferenceKind

variable {p : Char → Bool} {ps cs rest : List Char} {s : String} {n : Nat} {id : Identity}
variable {fragment : Option String}

/-! ## Runs and separators -/

/-- The longest run of some characters is what a text begins with, if it goes on with another
character or ends. -/
theorem span_eq_iff {run : List Char} : cs.takeWhile p = run ∧ cs.dropWhile p = rest ↔
    cs = run ++ rest ∧ (∀ c ∈ run, p c = true) ∧ ∀ c ∈ rest.head?, p c = false := by
  constructor
  · rintro ⟨rfl, rfl⟩
    refine ⟨List.takeWhile_append_dropWhile.symm, fun c hc => List.mem_takeWhile_imp hc, ?_⟩
    intro c hc
    have hhead := List.head?_dropWhile_not p cs
    rw [Option.mem_def.1 hc] at hhead
    simpa using hhead
  · rintro ⟨rfl, hrun, hrest⟩
    have hstop : rest.takeWhile p = [] ∧ rest.dropWhile p = rest := by
      cases rest with
      | nil => exact ⟨rfl, rfl⟩
      | cons c rest =>
        have hc : ¬ p c = true := Bool.eq_false_iff.1 (hrest c rfl)
        exact ⟨List.takeWhile_cons_of_neg hc, List.dropWhile_cons_of_neg hc⟩
    rw [List.takeWhile_append_of_pos hrun, List.dropWhile_append_of_pos hrun, hstop.1, hstop.2,
      List.append_nil]
    exact ⟨rfl, rfl⟩

theorem run?_eq_some_iff : run? p cs = some (s, rest) ↔ s.toList ≠ [] ∧ cs = s.toList ++ rest ∧
    (∀ c ∈ s.toList, p c = true) ∧ ∀ c ∈ rest.head?, p c = false := by
  rw [← span_eq_iff, run?]
  split
  next hempty =>
    exact ⟨nofun, fun h => absurd (h.2.1.symm.trans (List.isEmpty_iff.1 hempty)) h.1⟩
  next hempty =>
    rw [Option.some_inj, Prod.mk.injEq, String.ofList_eq]
    constructor
    · rintro ⟨hrun, hrest⟩
      exact ⟨fun hnil => hempty (List.isEmpty_iff.2 (hrun.trans hnil)), hrun, hrest⟩
    · exact fun h => h.2

theorem version?_eq_some_iff : version? cs = some (n, rest) ↔ n < Numeral.wordLimit ∧
    ∃ ds, Numeral.IsDecimal ds n ∧ cs = ds ++ rest ∧ ∀ c ∈ rest.head?, c.isDigit = false := by
  have hdigits : ∀ c ∈ cs.takeWhile Char.isDigit, c.isDigit = true :=
    fun c hc => List.mem_takeWhile_imp hc
  rw [version?, Option.map_eq_some_iff]
  constructor
  · rintro ⟨n', hn, ⟨⟩⟩
    obtain ⟨hvalue, hlt⟩ := Option.filter_eq_some_iff.1 hn
    refine ⟨of_decide_eq_true hlt, _, (Numeral.value?_eq_some_iff hdigits).1 hvalue, ?_⟩
    obtain ⟨hcs, -, hrest⟩ := span_eq_iff.1 ⟨rfl, rfl⟩
    exact ⟨hcs, hrest⟩
  · rintro ⟨hlt, ds, hds, hcs, hrest⟩
    obtain ⟨hrun, hdrop⟩ := span_eq_iff.2 ⟨hcs, hds.isDigit, hrest⟩
    refine ⟨n, Option.filter_eq_some_iff.2 ⟨?_, decide_eq_true hlt⟩, by rw [hdrop]⟩
    rw [hrun, Numeral.value?_eq_some_iff hds.isDigit]
    exact hds

/-- A fragment as it is written. -/
def fragmentChars : Option String → List Char
  | none => []
  | some text => '#' :: text.toList

theorem fragment?_eq_some_iff : fragment? cs = some fragment ↔
    cs = fragmentChars fragment ∧ '\n' ∉ cs := by
  unfold fragment?
  split
  next => cases fragment <;> simp [fragmentChars]
  next rest =>
    cases fragment with
    | none => simp [fragmentChars]
    | some text => simp [fragmentChars, String.ofList_eq, and_comm]
  next c rest hc =>
    refine ⟨nofun, ?_⟩
    cases fragment with
    | none => exact fun h => nomatch h.1
    | some text => exact fun h => absurd (List.cons.inj h.1).1 (hc · )

theorem after?_eq_some_iff : after? ps cs = some rest ↔ cs = ps ++ rest := by
  induction ps generalizing cs with
  | nil => exact Option.some_inj
  | cons p ps ih =>
    cases cs with
    | nil => exact ⟨nofun, nofun⟩
    | cons c cs =>
      rw [after?, List.cons_append, List.cons.injEq]
      split
      next hpc => rw [ih, eq_comm, and_iff_right hpc.symm]
      next hpc => exact ⟨nofun, fun h => absurd h.1.symm hpc⟩

/-! ## Qualified references -/

/-- A qualified reference is read part by part. -/
theorem qualified?_eq_some_iff_run? : qualified? cs = some (id, fragment) ↔
    (cs.head?.map isLetter).getD false = true ∧
    ∃ afterScheme, run? isSchemeChar cs = some (id.scheme, afterScheme) ∧
    ∃ atModule, after? [':', '/', '/'] afterScheme = some atModule ∧
    ∃ afterModule, run? isNameChar atModule = some (id.moduleName, afterModule) ∧
    ∃ atResource, after? ['/'] afterModule = some atResource ∧
    ∃ afterResource, run? isNameChar atResource = some (id.resource, afterResource) ∧
    ∃ atVersion, after? ['/', 'v'] afterResource = some atVersion ∧
    ∃ atFragment, version? atVersion = some (id.version, atFragment) ∧
      fragment? atFragment = some fragment := by
  obtain ⟨scheme, moduleName, resource, version⟩ := id
  unfold qualified?
  split
  next hletter =>
    rw [and_iff_right hletter]
    simp only [Option.bind_eq_bind, Option.bind_eq_some_iff, Option.pure_def, Option.some.injEq,
      Prod.exists, Prod.mk.injEq, Identity.mk.injEq]
    constructor
    · rintro ⟨_, r₁, h₁, r₂, h₂, _, r₃, h₃, r₄, h₄, _, r₅, h₅, r₆, h₆, _, r₇, h₇, _, h₈,
        ⟨rfl, rfl, rfl, rfl⟩, rfl⟩
      exact ⟨r₁, h₁, r₂, h₂, r₃, h₃, r₄, h₄, r₅, h₅, r₆, h₆, r₇, h₇, h₈⟩
    · rintro ⟨r₁, h₁, r₂, h₂, r₃, h₃, r₄, h₄, r₅, h₅, r₆, h₆, r₇, h₇, h₈⟩
      exact ⟨_, r₁, h₁, r₂, h₂, _, r₃, h₃, r₄, h₄, _, r₅, h₅, r₆, h₆, _, r₇, h₇, _, h₈,
        ⟨rfl, rfl, rfl, rfl⟩, rfl⟩
  next hletter => exact ⟨nofun, fun h => absurd h.1 hletter⟩

/-- A qualified reference is the text of an identity that is well named, with its version in digits
and then the fragment. -/
theorem qualified?_eq_some_iff : qualified? cs = some (id, fragment) ↔
    id.WellNamed ∧ id.version < Numeral.wordLimit ∧ '\n' ∉ fragmentChars fragment ∧
      ∃ ds, Numeral.IsDecimal ds id.version ∧ cs = id.chars (ds ++ fragmentChars fragment) := by
  simp only [qualified?_eq_some_iff_run?, run?_eq_some_iff, after?_eq_some_iff,
    version?_eq_some_iff, fragment?_eq_some_iff]
  constructor
  · -- read from the end, each part gives the text before it
    rintro ⟨hletter, _, ⟨hne, rfl, hscheme, -⟩, _, rfl, _, ⟨hmne, rfl, hmodule, -⟩, _, rfl,
      _, ⟨hrne, rfl, hresource, -⟩, _, rfl, _, ⟨hv, ds, hds, rfl, -⟩, rfl, hline⟩
    rw [List.head?_append_of_ne_nil _ hne] at hletter
    exact ⟨⟨hletter, hscheme, ⟨hmne, hmodule⟩, ⟨hrne, hresource⟩⟩, hv, hline, ds, hds, rfl⟩
  · rintro ⟨hid, hv, hline, ds, hds, rfl⟩
    have hne : id.scheme.toList ≠ [] := by
      intro hnil
      have hletter := hid.letter
      rw [hnil] at hletter
      cases hletter
    have hletter : ((id.chars (ds ++ fragmentChars fragment)).head?.map isLetter).getD false =
        true := by
      rw [Identity.chars, List.head?_append_of_ne_nil _ hne]
      exact hid.letter
    -- a separator, or the number sign of the fragment, ends each part
    have hend : ∀ c ∈ (fragmentChars fragment).head?, c.isDigit = false := by
      cases fragment with
      | none => exact nofun
      | some text => rintro _ ⟨⟩; rfl
    refine ⟨hletter, _, ⟨hne, rfl, hid.scheme, ?_⟩, _, rfl,
      _, ⟨hid.moduleName.1, rfl, hid.moduleName.2, ?_⟩, _, rfl,
      _, ⟨hid.resource.1, rfl, hid.resource.2, ?_⟩, _, rfl,
      _, ⟨hv, ds, hds, rfl, hend⟩, rfl, hline⟩
    · rintro _ ⟨⟩; rfl
    · rintro _ ⟨⟩; rfl
    · rintro _ ⟨⟩; rfl

/-- What begins with a number sign, or with a dot and a slash, is not qualified. -/
theorem ofChars_eq_qualified_iff :
    ofChars cs = .qualified id fragment ↔ qualified? cs = some (id, fragment) := by
  unfold ofChars
  split
  next => exact ⟨nofun, nofun⟩
  next => exact ⟨nofun, nofun⟩
  next =>
    cases hq : qualified? cs with
    | none => exact ⟨nofun, nofun⟩
    | some found =>
      obtain ⟨id', fragment'⟩ := found
      simp

end ReferenceKind

namespace Identity

open ReferenceKind

variable {id : Identity} {uri : String}

/-- The texts from which an identity is read. -/
theorem parse?_eq_some_iff : parse? uri = some id ↔
    id.WellNamed ∧ id.version < Numeral.wordLimit ∧
      ∃ ds, Numeral.IsDecimal ds id.version ∧ uri.toList = id.chars ds := by
  have hkind : parse? uri = some id ↔ ReferenceKind.qualified? uri.toList = some (id, none) := by
    rw [← ReferenceKind.ofChars_eq_qualified_iff, parse?]
    split <;> simp_all
  rw [hkind, ReferenceKind.qualified?_eq_some_iff]
  simp [ReferenceKind.fragmentChars]

/-- An identity is read from its own text exactly if it is well named. -/
theorem parse?_text_iff (hv : id.version < Numeral.wordLimit) :
    parse? id.text = some id ↔ id.WellNamed := by
  rw [parse?_eq_some_iff]
  constructor
  · exact And.left
  · exact fun hid => ⟨hid, hv, _, .toDigits _, toList_text id⟩

/-- What is written after an identity is written after its version. -/
theorem chars_append (digits cs : List Char) : id.chars digits ++ cs = id.chars (digits ++ cs) := by
  simp [chars]

/-- The text of an identity, with a fragment on one line after it, points to the identity and the
fragment. -/
theorem ofChars_text_append {fragment : Option String} (hid : id.WellNamed)
    (hv : id.version < Numeral.wordLimit) (hline : '\n' ∉ fragmentChars fragment) :
    ofChars (id.text.toList ++ fragmentChars fragment) = .qualified id fragment := by
  rw [ofChars_eq_qualified_iff, qualified?_eq_some_iff, toList_text, chars_append]
  exact ⟨hid, hv, hline, _, .toDigits _, rfl⟩

end Identity

end SchemaLoom
