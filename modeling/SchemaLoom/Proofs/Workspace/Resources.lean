import SchemaLoom.Proofs.Document.Equality
import SchemaLoom.Proofs.Document.Record
import SchemaLoom.Workspace.Config

/-!
# The resources that a configuration lists

An entry of a configuration is read as a resource exactly if it is written as that resource, and the
reader says nothing about the schema that the configuration must satisfy as well.

- `Resource.WrittenAs`: an entry and the resource that it stands for.
- `Resource.read_eq_ok_iff`, `Resource.readAll_eq_ok_iff`: what resources are read from.
- `Resource.version_lt_of_listOf?`: versions fit into 64 bits.
-/

namespace SchemaLoom

/-- A key lists strings, or it is not there and lists none. -/
def Lists (members : Members) (key : String) (ss : List String) : Prop :=
  Members.get? key members = some (.arr (ss.map .str)) ∨
    (Members.get? key members = none ∧ ss = [])

namespace Resource

variable {r : Resource} {rs : List Resource} {e d : Document}

/-- An entry is an object with the name, the version and the lists of a resource.  What else it
holds does not count. -/
def WrittenAs (e : Document) (r : Resource) : Prop :=
  ∃ members, e = .obj members ∧ Members.get? "name" members = some (.str r.name) ∧
    Members.get? "version" members = some (.num (.int r.version)) ∧
    r.version < Numeral.wordLimit ∧ Lists members "openapi" (r.openapi.map Path.text) ∧
    Lists members "asyncapi" (r.asyncapi.map Path.text) ∧ Lists members "if" r.conditions

theorem optional_strings_eq_ok_iff {members : Members} {key expected : String} {ss : List String} :
    Record.optional key (Record.list (Record.string expected)) members = .ok ss ↔
      Lists members key ss := by
  simp [Record.optional_eq_ok_iff, Record.strings_eq_ok_iff, Lists]

theorem read_eq_ok_iff : read e = .ok r ↔ WrittenAs e r := by
  simp only [read, bind_eq_ok_iff, pure_eq_ok_iff, Record.members_eq_ok_iff,
    Record.required_eq_ok_iff, Record.string_eq_ok_iff, Record.word_eq_ok_iff,
    optional_strings_eq_ok_iff]
  constructor
  · rintro ⟨members, he, name, ⟨_, hname, rfl⟩, version, ⟨_, hversion, rfl, hfits⟩, openapi,
      hopenapi, asyncapi, hasyncapi, conditions, hconditions, rfl⟩
    refine ⟨members, he, hname, hversion, hfits, ?_, ?_, hconditions⟩
    · simpa [Function.comp_def] using hopenapi
    · simpa [Function.comp_def] using hasyncapi
  · rintro ⟨members, he, hname, hversion, hfits, hopenapi, hasyncapi, hconditions⟩
    refine ⟨members, he, r.name, ⟨_, hname, rfl⟩, r.version, ⟨_, hversion, rfl, hfits⟩, _, hopenapi,
      _, hasyncapi, _, hconditions, ?_⟩
    simp [Function.comp_def]

theorem readAll_eq_ok_iff : readAll d = .ok rs ↔ ∃ members entries, d = .obj members ∧
    Members.get? "resources" members = some (.arr entries) ∧ List.Forall₂ WrittenAs entries rs := by
  simp only [readAll, bind_eq_ok_iff, Record.members_eq_ok_iff, Record.required_eq_ok_iff,
    Record.list_eq_ok_iff, read_eq_ok_iff]
  constructor
  · rintro ⟨members, hd, _, hresources, entries, rfl, hrs⟩
    exact ⟨members, entries, hd, hresources, hrs⟩
  · rintro ⟨members, entries, hd, hresources, hrs⟩
    exact ⟨members, hd, _, hresources, entries, rfl, hrs⟩

theorem listOf?_eq_ok_iff : listOf? d = .ok rs ↔ validateConfig d = [] ∧ readAll d = .ok rs := by
  unfold listOf?
  split
  next h =>
    rw [mapError_eq_ok_iff, and_iff_right h]
  next h => exact iff_of_false nofun fun hd => h hd.1

/-- The versions of the resources of a configuration fit into 64 bits. -/
theorem version_lt_of_listOf? (h : listOf? d = .ok rs) :
    ∀ r ∈ rs, r.version < Numeral.wordLimit := by
  intro r hr
  obtain ⟨_, _, -, -, hrs⟩ := readAll_eq_ok_iff.1 (listOf?_eq_ok_iff.1 h).2
  obtain ⟨e, -, members, -, -, -, hfits, -⟩ := exists_mem_of_forall₂ hrs hr
  exact hfits

end Resource

end SchemaLoom
