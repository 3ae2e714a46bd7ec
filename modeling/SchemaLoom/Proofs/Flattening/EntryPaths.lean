import SchemaLoom.Proofs.Flattening.Entries

/-!
# The keys on the way to a named schema

The grammars have cycles, but no cycle leads to a named schema: each node on the way there is entered
from the one before it alone.  So only the keys of this one way lead to a named schema, and what is
flattened can be told from the keys on its location, without the grammar.

- `OpenApi.isEntryPath`, `JsonSchema.isEntryPath`: the keys on the way to a named schema.
- `Grammar.kind_follow_openApi_iff`, `Grammar.kind_follow_jsonSchema_iff`: no other keys lead to one.
- `flatten_entryPaths`: what is flattened is what is found at the end of such keys.
-/

namespace SchemaLoom

variable {g : Grammar} {node : NodeId} {keys : List String}

/-- Whether keys lead to a named schema in an OpenAPI document. -/
def OpenApi.isEntryPath : List String → Bool
  | ["components", "schemas", _] => true
  | _ => false

/-- Whether keys lead to a named schema in a document that is a schema. -/
def JsonSchema.isEntryPath : List String → Bool
  | ["$defs", _] => true
  | ["definitions", _] => true
  | _ => false

theorem OpenApi.isEntryPath_iff :
    isEntryPath keys = true ↔ ∃ name, keys = ["components", "schemas", name] := by
  unfold isEntryPath
  split
  next name => exact ⟨fun _ => ⟨name, rfl⟩, fun _ => rfl⟩
  next hne => exact ⟨nofun, fun ⟨name, hkeys⟩ => absurd hkeys (hne name)⟩

theorem JsonSchema.isEntryPath_iff :
    isEntryPath keys = true ↔ ∃ name, keys = ["$defs", name] ∨ keys = ["definitions", name] := by
  unfold isEntryPath
  split
  next name => exact ⟨fun _ => ⟨name, .inl rfl⟩, fun _ => rfl⟩
  next name => exact ⟨fun _ => ⟨name, .inr rfl⟩, fun _ => rfl⟩
  next hdefs hdefinitions =>
    refine ⟨nofun, fun ⟨name, hkeys⟩ => ?_⟩
    exact hkeys.elim (fun h => absurd h (hdefs name)) fun h => absurd h (hdefinitions name)

namespace Grammar

/-- Only one node of a grammar is for named schemas. -/
theorem kind_eq_schemaEnter_iff (hkind : g.kind JsonSchema.schemaEnter = .schemaEnter)
    (hnodes : ∀ n ∈ g.nodes.zipIdx, n.1.kind = .schemaEnter → ⟨n.2⟩ = JsonSchema.schemaEnter) :
    g.kind node = .schemaEnter ↔ node = JsonSchema.schemaEnter := by
  constructor
  · intro h
    rw [kind] at h
    rcases Gateways.node_cases g node with hdata | hmem
    · rw [hdata] at h
      cases h
    · exact hnodes _ hmem h
  · rintro rfl
    exact hkind

/-- The way to the named schemas of the components. -/
theorem route_openApi : Grammar.openApi.Route [[none], [some "schemas"], [some "components"]]
    JsonSchema.schemaEnter := by
  have hroot : Grammar.openApi.Route [] OpenApi.root := .root (by decide) (by decide +kernel)
  have hcomponents : Grammar.openApi.EnteredFrom OpenApi.components OpenApi.root
      [some "components"] :=
    ⟨fun key h => by rw [admits_some_iff.1 h]; rfl, by decide +kernel⟩
  have hschemas : Grammar.openApi.EnteredFrom JsonSchema.mapSchemaEnter OpenApi.components
      [some "schemas"] :=
    ⟨fun key h => by rw [admits_some_iff.1 h]; rfl, by decide +kernel⟩
  have hschema : Grammar.openApi.EnteredFrom JsonSchema.schemaEnter JsonSchema.mapSchemaEnter
      [none] := ⟨fun _ _ => rfl, by decide +kernel⟩
  exact ((hroot.step (by decide) (by decide) hcomponents).step (by decide) (by decide)
    hschemas).step (by decide) (by decide) hschema

/-- The way to the named schemas of the definitions.  Only at the root are these named: below it the
same keywords lead to schemas without names. -/
theorem route_jsonSchema : Grammar.jsonSchema.Route [[none], [some "$defs", some "definitions"]]
    JsonSchema.schemaEnter := by
  have hroot : Grammar.jsonSchema.Route [] JsonSchema.root := .root (by decide) (by decide +kernel)
  have hdefinitions : Grammar.jsonSchema.EnteredFrom JsonSchema.mapSchemaEnter JsonSchema.root
      [some "$defs", some "definitions"] := by
    refine ⟨fun key h => ?_, by decide +kernel⟩
    have hkey : key = "$defs" ∨ key = "definitions" := by simpa [Admits] using h
    rcases hkey with rfl | rfl
    · decide
    · decide
  have hschema : Grammar.jsonSchema.EnteredFrom JsonSchema.schemaEnter JsonSchema.mapSchemaEnter
      [none] := ⟨fun _ _ => rfl, by decide +kernel⟩
  exact (hroot.step (by decide) (by decide) hdefinitions).step (by decide) (by decide) hschema

/-- The keys that lead to a named schema of an OpenAPI document, and no others do. -/
theorem kind_follow_openApi_iff (keys : List String) :
    openApi.kind (openApi.follow openApi.entry keys).node = .schemaEnter ↔
      ∃ name, keys = ["components", "schemas", name] := by
  rw [kind_eq_schemaEnter_iff rfl (by decide +kernel), route_openApi.node_follow_iff]
  simp [Admits, List.forall₂_cons_left_iff, List.reverse_eq_iff]

theorem kind_follow_jsonSchema_iff (keys : List String) :
    jsonSchema.kind (jsonSchema.follow jsonSchema.entry keys).node = .schemaEnter ↔
      ∃ name, keys = ["$defs", name] ∨ keys = ["definitions", name] := by
  rw [kind_eq_schemaEnter_iff rfl (by decide +kernel), route_jsonSchema.node_follow_iff]
  simp [Admits, List.forall₂_cons_left_iff, List.reverse_eq_iff]

end Grammar

/-! ## Flattening by keys -/

section

variable {isPath : List String → Bool}
  (hpaths : ∀ keys, g.kind (g.follow g.entry keys).node = .schemaEnter ↔ isPath keys = true)
include hpaths

/-- A step is at a named schema exactly if the keys on its location lead to one. -/
theorem kind_eq_schemaEnter_iff_keysAlong {d : Document} {step : Step} (hd : d.Distinct)
    (hstep : step ∈ walk g [d]) :
    step.kind = .schemaEnter ↔ isPath (d.keysAlong step.location.segments) = true := by
  rw [(found_of_mem_walk hd hstep).2]
  exact hpaths _

/-- What is flattened can be chosen by the keys on its location. -/
theorem flatten_eq_concat_keysAlong {trees : List Document} (h : ∀ d ∈ trees, d.Distinct) :
    flatten g trees = .concat (trees.flatMap fun d =>
      ((walk g [d]).filter fun step => isPath (d.keysAlong step.location.segments)).map
        .ofEntry) := by
  have hentries : ((walk g trees).filter fun step => step.kind == .schemaEnter) =
      trees.flatMap fun d =>
        (walk g [d]).filter fun step => isPath (d.keysAlong step.location.segments) := by
    rw [walk_eq_flatMap, List.filter_flatMap]
    refine List.flatMap_congr fun d hd => ?_
    rw [← walk_singleton]
    refine List.filter_congr fun step hstep => ?_
    rw [Bool.eq_iff_iff, beq_iff_eq]
    exact kind_eq_schemaEnter_iff_keysAlong hpaths (h d hd) hstep
  rw [flatten_eq_concat, hentries, List.map_flatMap]

end

/-- The keys that lead to a named schema are those of the schemas of the components in an OpenAPI
document, and those of the definitions at the root of a document that is a schema, and no others.
So a step is at a named schema exactly if the keys on its location are such keys, and what is found
at these steps is what is flattened. -/
theorem flatten_entryPaths :
    (∀ keys, Grammar.openApi.kind (Grammar.openApi.follow Grammar.openApi.entry keys).node =
      .schemaEnter ↔ ∃ name, keys = ["components", "schemas", name]) ∧
    (∀ keys, Grammar.jsonSchema.kind
        (Grammar.jsonSchema.follow Grammar.jsonSchema.entry keys).node =
      .schemaEnter ↔ ∃ name, keys = ["$defs", name] ∨ keys = ["definitions", name]) ∧
    (∀ d : Document, d.Distinct →
      (∀ step ∈ walk .openApi [d], step.kind = .schemaEnter ↔
        ∃ name, d.keysAlong step.location.segments = ["components", "schemas", name]) ∧
      ∀ step ∈ walk .jsonSchema [d], step.kind = .schemaEnter ↔
        ∃ name, d.keysAlong step.location.segments = ["$defs", name] ∨
          d.keysAlong step.location.segments = ["definitions", name]) ∧
    ∀ trees : List Document, (∀ d ∈ trees, d.Distinct) →
      flatten .openApi trees = .concat (trees.flatMap fun d =>
        ((walk .openApi [d]).filter fun step =>
          OpenApi.isEntryPath (d.keysAlong step.location.segments)).map .ofEntry) ∧
      flatten .jsonSchema trees = .concat (trees.flatMap fun d =>
        ((walk .jsonSchema [d]).filter fun step =>
          JsonSchema.isEntryPath (d.keysAlong step.location.segments)).map .ofEntry) := by
  have hopen := Grammar.kind_follow_openApi_iff
  have hjson := Grammar.kind_follow_jsonSchema_iff
  have hopen' := fun keys => (hopen keys).trans OpenApi.isEntryPath_iff.symm
  have hjson' := fun keys => (hjson keys).trans JsonSchema.isEntryPath_iff.symm
  refine ⟨hopen, hjson, fun d hd => ⟨fun step hstep => ?_, fun step hstep => ?_⟩,
    fun trees h => ⟨flatten_eq_concat_keysAlong hopen' h, flatten_eq_concat_keysAlong hjson' h⟩⟩
  · rw [kind_eq_schemaEnter_iff_keysAlong hopen' hd hstep, OpenApi.isEntryPath_iff]
  · rw [kind_eq_schemaEnter_iff_keysAlong hjson' hd hstep, JsonSchema.isEntryPath_iff]

/-- A document with a schema under the components, and one under the same keys further down. -/
def nestedComponents : Document :=
  .obj [("components", .obj [("schemas", .obj [("pet", .obj [("type", .str "object"),
    ("components", .obj [("schemas", .obj [("inner", .obj [("type", .str "object")])])])])])])]

/-- Only the schema at the root is flattened. -/
theorem flatten_entryPaths_nested :
    (∀ d ∈ [nestedComponents], d.Distinct) ∧
    flatten .openApi [nestedComponents] = .concat [.ofEntry ⟨.obj [("type", .str "object"),
      ("components", .obj [("schemas", .obj [("inner", .obj [("type", .str "object")])])])],
      .schemaEnter, ⟨["components", "schemas", "pet"]⟩⟩] ∧
    flatten .jsonSchema [nestedComponents] = .concat [] := by
  have hd : ∀ d ∈ [nestedComponents], d.Distinct := List.forall_mem_singleton.2 (by decide)
  obtain ⟨hopen, hjson⟩ := flatten_entryPaths.2.2.2 [nestedComponents] hd
  exact ⟨hd, hopen, hjson⟩

end SchemaLoom
