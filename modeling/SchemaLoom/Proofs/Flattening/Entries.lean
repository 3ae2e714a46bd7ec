import SchemaLoom.Proofs.Flattening.Schemas
import SchemaLoom.Proofs.Grammar
import SchemaLoom.Proofs.Walk

/-!
# Flattening normal documents

Documents and their normal forms have the same structs, and errors at the same locations: on the way
to a named schema no array is sorted and no value is rewritten, and below a place that is not on such
a way there is no named schema.

- `entryResults`: what the named schemas among the steps through a document give.
- `entryResults_off_gates`: nothing, at a place that leads to no named schema.
- `entryResults_normalizeAt`: the same for a document and its normal form.
- `outline_flatten`: what flattening gives, from the results of the named schemas.
- `flatten_normalize`: flattening whole documents.
-/

namespace SchemaLoom

variable {g : Grammar} {scheme : Scheme} {t : Transition} {node : NodeId} {loc : Location}
variable {gates : List NodeId} {d : Document}

/-! ## Results of named schemas -/

/-- What a step gives if it is at a named schema. -/
def stepResults (step : Step) : List (Except Location (List Struct)) :=
  if step.kind = .schemaEnter then [located (flattenEntry step)] else []

/-- What the named schemas among some steps give, in their order. -/
def entryResults (steps : List Step) : List (Except Location (List Struct)) :=
  steps.flatMap stepResults

/-- The results below an array are those of its items, after what the array itself gives. -/
theorem entryResults_arr (items : List Document) :
    entryResults (walkAt g node loc (.arr items)) =
      stepResults ⟨.arr items, g.kind node, loc⟩ ++
        items.zipIdx.flatMap fun p => entryResults (walkAt g node (loc.pushIndex p.2) p.1) := by
  rw [walkAt_arr, entryResults, List.flatMap_cons, List.flatMap_assoc]
  rfl

/-- The results below an object are those of its members, after what the object itself gives. -/
theorem entryResults_obj (members : Members) :
    entryResults (walkAt g node loc (.obj members)) =
      stepResults ⟨.obj members, g.kind node, loc⟩ ++
        members.flatMap fun m =>
          entryResults (walkAt g (g.child node m.1).node (loc.push m.1) m.2) := by
  rw [walkAt_obj, entryResults, List.flatMap_cons, List.flatMap_assoc]
  rfl

/-- Anything else has no steps but its own. -/
theorem entryResults_scalar (harr : d.asArray? = none) (hobj : d.asObject? = none) :
    entryResults (walkAt g node loc d) = stepResults ⟨d, g.kind node, loc⟩ := by
  rw [walkAt_scalar harr hobj, entryResults, List.flatMap_singleton]

/-! ## Places off the way to a named schema -/

/-- A place that is no gateway has no named schema below it. -/
theorem Gateways.kind_of_mem_walkAt {step : Step} (hg : Gateways g gates) (hnode : node ∉ gates)
    (h : step ∈ walkAt g node loc d) : step.kind ≠ .schemaEnter := by
  have hhere : g.kind node ≠ .schemaEnter := fun hkind => hnode (hg.of_kind hkind).1
  induction d using Document.induction generalizing node loc with
  | null | bool | num | str =>
    rw [walkAt_scalar rfl rfl] at h
    cases List.mem_singleton.1 h
    exact hhere
  | arr items ih =>
    rcases mem_walkAt_arr.1 h with rfl | ⟨i, x, hx, h⟩
    · exact hhere
    · exact ih x (List.mem_of_getElem? hx) hnode h hhere
  | obj members ih =>
    rcases mem_walkAt_obj.1 h with rfl | ⟨m, hm, h⟩
    · exact hhere
    · have hchild : (g.child node m.1).node ∉ gates := fun h => hnode (hg.of_child h).1
      exact ih m hm hchild h fun hkind => hchild (hg.of_kind hkind).1

theorem entryResults_off_gates (hg : Gateways g gates) (hnode : node ∉ gates) :
    entryResults (walkAt g node loc d) = [] :=
  List.flatMap_eq_nil_iff.2 fun _ h => if_neg (hg.kind_of_mem_walkAt hnode h)

/-! ## Named schemas of normal forms -/

/-- A named schema gives the same before and after a normalization. -/
theorem located_flattenEntry_normalizeAt (hs : g.HoldsSchemas) {kind : Kind}
    (hnode : g.node t.node = .schema .schemaEnter JsonSchema.keywords JsonSchema.schema) :
    located (flattenEntry ⟨normalizeAt g scheme t d, kind, loc⟩) =
      located (flattenEntry ⟨d, kind, loc⟩) := by
  cases d with
  | null | bool | num | str => rw [normalizeAt]
  | arr items => rfl
  | obj members =>
    have hobject : isObjectSchema (.obj (normalizeMembers g scheme t.node members)) =
        isObjectSchema (.obj members) := by
      rw [isObjectSchema, string?_normalizeMembers (by decide)]
      rfl
    rw [normalizeAt]
    unfold flattenEntry
    dsimp only
    by_cases h : isObjectSchema (.obj members) = true
    · rw [if_pos (hobject.trans h), if_pos h]
      exact located_flattenObject_normalizeMembers hs hnode
    · rw [if_neg (mt hobject.symm.trans h), if_neg h]

theorem stepResults_normalizeAt (hs : g.HoldsSchemas) (hg : Gateways g gates) :
    stepResults ⟨normalizeAt g scheme t d, g.kind t.node, loc⟩ =
      stepResults ⟨d, g.kind t.node, loc⟩ := by
  unfold stepResults
  by_cases hkind : g.kind t.node = .schemaEnter
  · rw [if_pos hkind, if_pos hkind, located_flattenEntry_normalizeAt hs (hg.of_kind hkind).2]
  · rw [if_neg hkind, if_neg hkind]

/-- A reference is no schema, whatever it refers to. -/
theorem entryResults_adjustReference :
    entryResults (walkAt g node loc (adjustReference scheme d)) =
      entryResults (walkAt g node loc d) := by
  cases d with
  | str raw =>
    rw [entryResults_scalar rfl rfl, entryResults_scalar rfl rfl]
    rfl
  | null | bool | num | arr | obj => rfl

/-- The named schemas below a place give the same before and after a normalization.  Sets are sorted
only at places that are no gateways, and there is nothing below those. -/
theorem entryResults_normalizeAt (hs : g.HoldsSchemas) (hg : Gateways g gates)
    (ht : t.node ∈ gates → t.behavior.sortKey = none) :
    entryResults (walkAt g t.node loc (normalizeAt g scheme t d)) =
      entryResults (walkAt g t.node loc d) := by
  by_cases hgate : t.node ∈ gates
  case neg => rw [entryResults_off_gates hg hgate, entryResults_off_gates hg hgate]
  induction d using Document.induction generalizing t loc with
  | null | bool | num | str => rw [normalizeAt]
  | arr items ih =>
    have hstep : stepResults ⟨normalizeAt g scheme t (.arr items), g.kind t.node, loc⟩ =
        stepResults ⟨.arr items, g.kind t.node, loc⟩ := stepResults_normalizeAt hs hg
    -- the items keep their places, and so their locations
    rw [normalizeAt_arr] at hstep ⊢
    rw [entryResults_arr, entryResults_arr, hstep, arrange_list (ht hgate), List.zipIdx_map,
      List.flatMap_map]
    refine congrArg _ (List.flatMap_congr fun p hp => ?_)
    exact ih p.1 (List.fst_mem_of_mem_zipIdx hp) ht hgate
  | obj members ih =>
    have hstep : stepResults ⟨normalizeAt g scheme t (.obj members), g.kind t.node, loc⟩ =
        stepResults ⟨.obj members, g.kind t.node, loc⟩ := stepResults_normalizeAt hs hg
    rw [normalizeAt_obj] at hstep ⊢
    rw [entryResults_obj, entryResults_obj, hstep, List.flatMap_map]
    refine congrArg _ (List.flatMap_congr fun m hm => ?_)
    show entryResults (walkAt g (g.child t.node m.1).node (loc.push m.1)
      (normalizeMember g scheme t.node m)) = _
    unfold normalizeMember
    split
    · exact entryResults_adjustReference
    · -- the induction goes on at a gateway, and elsewhere there is nothing to compare
      by_cases hchild : (g.child t.node m.1).node ∈ gates
      · exact ih m hm (fun h => (hg.of_child h).2) hchild
      · rw [entryResults_off_gates hg hchild, entryResults_off_gates hg hchild]

/-! ## Whole documents -/

/-- The structs, and the locations of the errors. -/
def Flattened.outline (f : Flattened) : List Struct × List Location :=
  (f.structs, f.errors.map FlattenError.location)

/-- The structs and the locations of the errors among results. -/
def outlineOf (results : List (Except Location (List Struct))) : List Struct × List Location :=
  (results.flatMap fun r => r.toOption.getD [],
    results.flatMap fun
      | .error loc => [loc]
      | .ok _ => [])

theorem entryResults_eq_map (steps : List Step) :
    entryResults steps = (steps.filter fun step => step.kind == .schemaEnter).map
      fun step => located (flattenEntry step) := by
  induction steps with
  | nil => rfl
  | cons step steps ih =>
    rw [entryResults, List.flatMap_cons, ← entryResults, ih, List.filter_cons, stepResults]
    by_cases h : step.kind = .schemaEnter
    · rw [if_pos h, if_pos (beq_iff_eq.2 h)]
      rfl
    · rw [if_neg h, if_neg (mt beq_iff_eq.1 h)]
      rfl

/-- Several results as one, in their order. -/
def Flattened.concat (parts : List Flattened) : Flattened :=
  ⟨parts.flatMap Flattened.structs, parts.flatMap Flattened.errors⟩

/-- What flattening gives is what the named schemas give. -/
theorem flatten_eq_concat (trees : List Document) : flatten g trees =
    .concat (((walk g trees).filter fun step => step.kind == .schemaEnter).map .ofEntry) := by
  have hfold : ∀ (steps : List Step) (acc : Flattened),
      steps.foldl (fun acc step => acc.append (.ofEntry step)) acc =
        acc.append (.concat (steps.map .ofEntry)) := by
    intro steps
    induction steps with
    | nil => simp [Flattened.concat, Flattened.append]
    | cons step steps ih =>
      intro acc
      rw [List.foldl_cons, ih]
      simp [Flattened.concat, Flattened.append]
  rw [flatten, hfold]
  rfl

theorem outline_concat (steps : List Step) :
    (Flattened.concat (steps.map .ofEntry)).outline =
      outlineOf (steps.map fun step => located (flattenEntry step)) := by
  unfold Flattened.outline Flattened.concat outlineOf
  rw [List.flatMap_map, List.flatMap_map, List.flatMap_map, List.flatMap_map, List.map_flatMap]
  refine Prod.ext (List.flatMap_congr fun step _ => ?_) (List.flatMap_congr fun step _ => ?_)
  all_goals
    unfold Flattened.ofEntry
    cases flattenEntry step <;> rfl

/-- The structs, and the locations of the errors, are those of the named schemas. -/
theorem outline_flatten (trees : List Document) :
    (flatten g trees).outline = outlineOf (entryResults (walk g trees)) := by
  rw [flatten_eq_concat, outline_concat, entryResults_eq_map]

theorem outline_flatten_normalize (hs : g.HoldsSchemas) (hg : Gateways g gates)
    (trees : List Document) :
    (flatten g (trees.map (normalize g scheme))).outline = (flatten g trees).outline := by
  have hwalk : entryResults (walk g (trees.map (normalize g scheme))) =
      entryResults (walk g trees) := by
    unfold entryResults
    rw [walk_eq_flatMap, walk_eq_flatMap, List.flatMap_map, List.flatMap_assoc, List.flatMap_assoc]
    refine List.flatMap_congr fun d _ => ?_
    exact entryResults_normalizeAt (t := g.entry) hs hg fun _ => rfl
  rw [outline_flatten, outline_flatten, hwalk]

/-- Documents and their normal forms have the same structs, and errors at the same locations, for
schemas in OpenAPI documents and for documents that are schemas. -/
theorem flatten_normalize (scheme : Scheme) (trees : List Document) :
    (flatten .openApi (trees.map (normalize .openApi scheme))).outline =
        (flatten .openApi trees).outline ∧
      (flatten .jsonSchema (trees.map (normalize .jsonSchema scheme))).outline =
        (flatten .jsonSchema trees).outline :=
  ⟨outline_flatten_normalize ⟨rfl, rfl⟩ .openApi trees,
    outline_flatten_normalize ⟨rfl, rfl⟩ .jsonSchema trees⟩

end SchemaLoom
