import SchemaLoom.Proofs.Pointer
import SchemaLoom.Proofs.Registry

/-!
# Looking up what is registered

A reference to a place in a registered document is written as the identity of the document, a number
sign and the pointer of the place.  Looked up, it leads to this place: the identity, the fragment and
each segment are read back as they were written.

- `Registry.lookup_of_kind`: what a look-up finds, by the kind of the reference.
- `Registry.lookup_pointer_of_get?`: a place in a registered document is found by its pointer.
- `lookup_registered`: look-ups in the registry of any workspaces.
-/

namespace SchemaLoom

namespace Registry

variable {r : Registry} {raw : String} {id : Identity} {fragment : Option String} {e : Entry}

/-- A look-up finds the document of the identity, and in it what the fragment points to. -/
theorem lookup_of_kind (h : Reference.kind ⟨raw⟩ = .qualified id fragment) :
    r.lookup raw = (r.get? id).bind fun e =>
      (fragment.map Location.ofPointer).elim (some e.document) (·.resolve e.document) := by
  rw [lookup, h]
  cases fragment <;> rfl

/-- An identity that is not registered is not found. -/
theorem lookup_of_contains_eq_false (h : Reference.kind ⟨raw⟩ = .qualified id fragment)
    (hid : r.contains id = false) : r.lookup raw = none := by
  have hnone : r.get? id = none := by simpa [SortedMap.contains] using hid
  rw [lookup_of_kind h, hnone, Option.bind_none]

/-- A reference that is not qualified by an identity finds nothing. -/
theorem lookup_of_kind_ne (h : ∀ id fragment, Reference.kind ⟨raw⟩ ≠ .qualified id fragment) :
    r.lookup raw = none := by
  unfold lookup
  split
  next id fragment hkind => exact absurd hkind (h id fragment)
  next => rfl

/-- The text of a registered identity finds the whole document. -/
theorem lookup_text_of_get? (h : r.get? id = some e) (hid : id.WellNamed)
    (hv : id.version < Numeral.wordLimit) : r.lookup id.text = some e.document := by
  rw [lookup_of_parse? ((Identity.parse?_text_iff hv).2 hid), h]
  rfl

/-- The text of a registered identity, with the pointer of a location as its fragment, finds what
the location leads to. -/
theorem lookup_pointer_of_get? (h : r.get? id = some e) (hid : id.WellNamed)
    (hv : id.version < Numeral.wordLimit) {loc : Location}
    (hloc : ∀ s ∈ loc.segments, '\n' ∉ s.toList) :
    r.lookup (id.text ++ "#" ++ loc.toPointer) = loc.resolve e.document := by
  have hline : '\n' ∉ ReferenceKind.fragmentChars (some loc.toPointer) := by
    rw [ReferenceKind.fragmentChars, List.mem_cons, not_or]
    exact ⟨by decide, Location.line_feed_not_mem_toPointer hloc⟩
  have hkind : Reference.kind ⟨id.text ++ "#" ++ loc.toPointer⟩ =
      .qualified id (some loc.toPointer) := by
    have hchars := Identity.ofChars_text_append hid hv hline
    rw [Reference.kind]
    simpa [ReferenceKind.fragmentChars] using hchars
  rw [lookup_of_kind hkind, h, Option.bind_some, Option.map_some, Option.elim_some,
    Location.ofPointer_toPointer]

end Registry

/-! ## Registries of workspaces -/

theorem Stated.version_lt {id : Identity} {d : Document} (h : Stated id d) :
    id.version < Numeral.wordLimit := by
  obtain ⟨text, -, hread | ⟨-, hv⟩⟩ := h
  · exact (Identity.parse?_eq_some_iff.1 hread).2.1
  · exact hv

theorem stated_register (fs : FileSystem Id) (scheme : String) (dirs : List Path) :
    (register fs scheme dirs).run.AllStated := by
  rw [run_register]
  refine Registered.stated_ofReadings fun w hw => ?_
  obtain ⟨dir, -, rfl⟩ := List.mem_map.1 hw
  exact bounded_readWorkspace fs scheme dir

/-- A reference to a place in a registered document, whose identity is well named, finds what is at
this place, and nothing if there is no such place.  Without a place it finds the whole document.  A
reference to any other document, or one that is not qualified by an identity, finds nothing. -/
theorem lookup_registered (fs : FileSystem Id) (scheme : String) (dirs : List Path) :
    let registry := (register fs scheme dirs).run.registry
    (∀ p ∈ registry.entries, p.1.WellNamed →
      registry.lookup p.1.text = some p.2.document ∧
      ∀ loc : Location, (∀ s ∈ loc.segments, '\n' ∉ s.toList) →
        registry.lookup (p.1.text ++ "#" ++ loc.toPointer) = loc.resolve p.2.document) ∧
    (∀ raw id fragment, Reference.kind ⟨raw⟩ = .qualified id fragment →
      registry.contains id = false → registry.lookup raw = none) ∧
    ∀ raw, (∀ id fragment, Reference.kind ⟨raw⟩ ≠ .qualified id fragment) →
      registry.lookup raw = none := by
  intro registry
  refine ⟨?_, fun raw id fragment => Registry.lookup_of_contains_eq_false,
    fun raw => Registry.lookup_of_kind_ne⟩
  rintro ⟨id, e⟩ hp hid
  have hget : registry.get? id = some e := SortedMap.get?_eq_some_iff.2 hp
  have hv : id.version < Numeral.wordLimit := (stated_register fs scheme dirs id e hget).version_lt
  exact ⟨Registry.lookup_text_of_get? hget hid hv,
    fun loc hloc => Registry.lookup_pointer_of_get? hget hid hv hloc⟩

/-- A workspace of one document, in which a key holds the characters that pointers and references
are divided by. -/
def FileSystem.ofDividers : FileSystem Id :=
  .ofDirectory ⟨"/ws"⟩ [("jsmn-forge.yaml",
    "resources:\n  - name: common\n    version: 0\n    openapi: [x.yaml]\n"),
    ("x.yaml", "paths:\n  /a~b#c: pet\n")]

/-- The key is found by its pointer. -/
theorem lookup_registered_dividers :
    let registry := (register .ofDividers "forge" [⟨"/ws"⟩]).run.registry
    let loc : Location := ⟨["paths", "/a~b#c"]⟩
    ∃ p ∈ registry.entries, p.1 = ⟨"forge", "ws", "common", 0⟩ ∧ p.1.WellNamed ∧
      (∀ s ∈ loc.segments, '\n' ∉ s.toList) ∧
      (loc.resolve p.2.document).bind Document.asString? = some "pet" ∧
      registry.lookup "forge://ws/common/v0#/paths/~1a~0b#c" = loc.resolve p.2.document ∧
      registry.lookup "forge://ws/common/v0" = some p.2.document := by
  intro registry loc
  have hfound : registry.entries.map (fun p =>
      (p.1, (loc.resolve p.2.document).bind Document.asString?)) =
        [(⟨"forge", "ws", "common", 0⟩, some "pet")] := by decide +kernel
  obtain ⟨p, hp, hpair⟩ := List.mem_map.1 (hfound ▸ List.mem_singleton_self _)
  obtain ⟨hid, hpet⟩ := Prod.mk.inj hpair
  have hnamed : p.1.WellNamed := by
    rw [hid]
    decide +kernel
  have hloc : ∀ s ∈ loc.segments, '\n' ∉ s.toList := by decide
  obtain ⟨hdocument, hplace⟩ := (lookup_registered .ofDividers "forge" [⟨"/ws"⟩]).1 p hp hnamed
  have htext : p.1.text = "forge://ws/common/v0" := by
    rw [hid]
    decide +kernel
  have hpointer : p.1.text ++ "#" ++ loc.toPointer = "forge://ws/common/v0#/paths/~1a~0b#c" := by
    rw [htext]
    decide +kernel
  exact ⟨p, hp, hid, hnamed, hloc, hpet, hpointer ▸ hplace loc hloc, htext ▸ hdocument⟩

end SchemaLoom
