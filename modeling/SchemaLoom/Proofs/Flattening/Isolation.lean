import SchemaLoom.Proofs.Flattening.Places

/-!
# Entries apart from each other

What one named schema gives, structs or an error, does not depend on any other.  Another value in its
place changes what is at this place and below it, and nothing else.

- `Flattened.ofSteps`: what the named object schemas among some steps give.
- `outside_walkAt_setAt`: outside of a named schema, the steps through a document give the same
  whatever the value of the schema is.
- `flatten_isolated`: documents one after the other, the named object schemas of one document one
  after the other, each with its structs or with its one error, and none of them for another.
-/

namespace SchemaLoom

variable {g : Grammar} {node : NodeId} {gates : List NodeId} {loc place : Location}
variable {d : Document} {members : Members} {step : Step}

/-! ## What some steps give -/

namespace Flattened

/-- What the named object schemas among some steps give. -/
def ofSteps (steps : List Step) : Flattened :=
  concat ((steps.filter Step.isNamedObject).map ofEntry)

theorem ofSteps_cons_of_not {steps : List Step} (h : step.isNamedObject = false) :
    ofSteps (step :: steps) = ofSteps steps := by
  rw [ofSteps, List.filter_cons, h, if_neg Bool.false_ne_true]
  rfl

theorem ofSteps_flatMap {α : Type} (xs : List α) (steps : α → List Step) :
    ofSteps (xs.flatMap steps) = concat (xs.map fun x => ofSteps (steps x)) := by
  rw [ofSteps, List.filter_flatMap, List.map_flatMap, concat_flatMap]
  rfl

theorem outside_concat (place : Location) (parts : List Flattened) :
    (concat parts).outside place = concat (parts.map (outside place)) :=
  restrict_concat parts

/-- What the steps through a document give is at the place where they began or below it. -/
theorem within_ofSteps_walkAt :
    ∀ l ∈ (ofSteps (walkAt g node loc d)).locations, l.Within loc := by
  intro l hl
  obtain ⟨f, hf, hl⟩ := mem_locations_concat.1 hl
  obtain ⟨step, hstep, rfl⟩ := List.mem_map.1 hf
  obtain ⟨hmem, hnamed⟩ := List.mem_filter.1 hstep
  exact (within_ofEntry (Bool.and_eq_true_iff.1 hnamed).2 l hl).trans (within_of_mem_walkAt hmem)

end Flattened

open Flattened

/-- Only the members give something, in an object that is not at a named schema. -/
theorem ofSteps_walkAt_obj (h : g.kind node ≠ .schemaEnter) (members : Members) :
    ofSteps (walkAt g node loc (.obj members)) = concat (members.map fun m =>
      ofSteps (walkAt g (g.child node m.1).node (loc.push m.1) m.2)) := by
  rw [walkAt_obj, ofSteps_cons_of_not, ofSteps_flatMap]
  simp [Step.isNamedObject, h]

/-- Only the items give something, in an array. -/
theorem ofSteps_walkAt_arr (items : List Document) :
    ofSteps (walkAt g node loc (.arr items)) = concat (items.zipIdx.map fun p =>
      ofSteps (walkAt g node (loc.pushIndex p.2) p.1)) := by
  rw [walkAt_arr, ofSteps_cons_of_not, ofSteps_flatMap]
  simp [Step.isNamedObject, isObjectSchema]

/-! ## Another value for a named schema -/

/-- Items that are replaced one by one keep their indices. -/
theorem zipIdx_map_zipIdx (items : List Document) (f : Document × Nat → Document) :
    (items.zipIdx.map f).zipIdx = items.zipIdx.map fun p => (f p, p.2) := by
  refine List.ext_getElem? fun i => ?_
  rw [List.getElem?_zipIdx, List.getElem?_map, List.getElem?_map, List.getElem?_zipIdx]
  cases items[i]? with
  | none => rfl
  | some d => simp

/-- A step that is some segments below a place is not at this place. -/
theorem location_ne_of_cons {segment : String} {path : List String}
    (h : step.location = ⟨loc.segments ++ segment :: path⟩) : step.location ≠ loc := by
  intro heq
  rw [heq] at h
  have hlength := congrArg (fun l : Location => l.segments.length) h
  dsimp only at hlength
  rw [List.length_append, List.length_cons] at hlength
  omega

/-- The steps below a place are in the part under the next segment of their location. -/
theorem segment_eq_of_within {segment segment' : String} {path : List String}
    (h : step.location = ⟨loc.segments ++ segment :: path⟩)
    (hwithin : step.location.Within (loc.push segment')) : segment' = segment := by
  by_contra hne
  have hsegment : step.location.Within (loc.push segment) := by
    rw [h]
    exact ⟨path, by rw [Location.push, List.append_assoc, List.singleton_append]⟩
  exact (Location.apart_of_push hne hwithin hsegment).1 (.refl _)

/-- Outside of a named schema, the steps through a document give the same whatever the value of the
schema is: on the way to it there is no other named schema, and off the way nothing changes. -/
theorem outside_walkAt_setAt (hg : Gateways g gates) (hend : Gateways.EndAtSchemas gates)
    (hd : d.Distinct) (hstep : step ∈ walkAt g node loc d) (hkind : step.kind = .schemaEnter)
    {path : List String} (hpath : step.location = ⟨loc.segments ++ path⟩) (x : Document) :
    (ofSteps (walkAt g node loc (d.setAt path x))).outside step.location =
      (ofSteps (walkAt g node loc d)).outside step.location := by
  induction path generalizing node loc d with
  | nil =>
    have hloc : step.location = loc := by
      rw [hpath, List.append_nil]
    rw [hloc, outside_of_within within_ofSteps_walkAt, outside_of_within within_ofSteps_walkAt]
  | cons segment path ih =>
    have hne := location_ne_of_cons hpath
    have hnext : ∀ {segment'}, segment' = segment →
        step.location = ⟨(loc.push segment').segments ++ path⟩ := by
      rintro _ rfl
      rw [hpath, Location.push, List.append_assoc, List.singleton_append]
    cases d with
    | null | bool | num | str =>
      rw [walkAt_scalar rfl rfl] at hstep
      cases List.mem_singleton.1 hstep
      exact absurd rfl hne
    | arr items =>
      rcases mem_walkAt_arr.1 hstep with rfl | ⟨i, y, hy, hstep⟩
      · exact absurd rfl hne
      · have hsegment := segment_eq_of_within hpath (within_of_mem_walkAt hstep)
        rw [Document.setAt, ofSteps_walkAt_arr, ofSteps_walkAt_arr, outside_concat, outside_concat,
          zipIdx_map_zipIdx, List.map_map, List.map_map, List.map_map]
        refine congrArg concat (List.map_congr_left fun p hp => ?_)
        dsimp only [Function.comp]
        split
        next h =>
          -- no other item has the index
          have hindex : p.2 = i := Location.eq_of_toString_eq (h.trans hsegment.symm)
          have hitem := List.mk_mem_zipIdx_iff_getElem?.1 hp
          rw [hindex, hy] at hitem
          cases hitem
          rw [hindex]
          exact ih (Document.distinct_arr.1 hd _ (List.mem_of_getElem? hy)) hstep (hnext hsegment)
        next => rfl
    | obj members =>
      rcases mem_walkAt_obj.1 hstep with rfl | ⟨m, hm, hstep⟩
      · exact absurd rfl hne
      · obtain ⟨hkeys, hmembers⟩ := Document.distinct_obj.1 hd
        have hsegment := segment_eq_of_within hpath (within_of_mem_walkAt hstep)
        -- a named schema on the way would have no other one below it
        have hhere : g.kind node ≠ .schemaEnter := fun h =>
          hg.kind_of_mem_walkAt (hg.child_of_kind hend h) hstep hkind
        rw [Document.setAt, ofSteps_walkAt_obj hhere, ofSteps_walkAt_obj hhere, outside_concat,
          outside_concat, List.map_map, List.map_map, List.map_map]
        refine congrArg concat (List.map_congr_left fun m' hm' => ?_)
        dsimp only [Function.comp]
        split
        next h =>
          -- no other member has the key
          have heq : m' = m := List.inj_on_of_nodup_map hkeys hm' hm (h.trans hsegment.symm)
          subst heq
          exact ih (hmembers m' hm) hstep (hnext hsegment)
        next => rfl

/-! ## Whole documents -/

/-- A named object schema gives its structs and no error, or one error and no struct.  The error is at
the schema or at a value inside of it. -/
theorem ofEntry_cases (hd : d.Distinct) (ha : d.Addressable) (h : step ∈ namedObjects g d) :
    (∃ structs, structs ≠ [] ∧ ofEntry step = ⟨structs, []⟩) ∨
      ∃ e, ofEntry step = ⟨[], [e]⟩ ∧ e.location.Within step.location ∧
        ∃ x, e.location.resolve d = some x := by
  obtain ⟨members, -, hx, -, hentry⟩ := flattenEntry_of_mem_namedObjects hd h
  unfold ofEntry
  cases hresult : flattenEntry step with
  | ok structs =>
    obtain ⟨s, hs, -⟩ := exists_struct_of_flattenObject (hentry ▸ hresult)
    exact .inl ⟨structs, List.ne_nil_of_mem hs, rfl⟩
  | error e =>
    have hsub := subschema_of_flattenObject (hentry ▸ hresult)
    obtain ⟨x, hat⟩ := hsub.exists_at? hd hx
    exact .inr ⟨e, rfl, hsub.within, x, Document.resolve_of_at? ha hat⟩

/-- Several documents give what each of them gives, one after the other.  A document gives what is at
the places of its named object schemas, one after the other, and for each of these there are structs
and no error, or one error, at a value in the schema, and no struct.  Whatever value is put in the
place of a named schema, all that is not in this place stays as it is. -/
theorem flatten_isolated (hg : g.BuiltIn) {trees : List Document}
    (hd : ∀ d ∈ trees, d.Distinct ∧ d.Addressable) :
    flatten g trees = .concat (trees.map fun d => flatten g [d]) ∧
    ∀ d ∈ trees,
      flatten g [d] =
        .concat ((namedObjects g d).map fun step => (flatten g [d]).within step.location) ∧
      (∀ step ∈ namedObjects g d,
        (∃ structs, structs ≠ [] ∧ (flatten g [d]).within step.location = ⟨structs, []⟩) ∨
          ∃ e, (flatten g [d]).within step.location = ⟨[], [e]⟩ ∧
            e.location.Within step.location ∧ ∃ x, e.location.resolve d = some x) ∧
      ∀ step ∈ walk g [d], step.kind = .schemaEnter → ∀ x,
        (d.setAt step.location.segments x).at? step.location.segments = some x ∧
          (flatten g [d.setAt step.location.segments x]).outside step.location =
            (flatten g [d]).outside step.location := by
  refine ⟨flatten_eq_concat_documents trees, fun d hmem => ?_⟩
  obtain ⟨hdistinct, haddressable⟩ := hd d hmem
  have hwithin : ∀ step ∈ namedObjects g d,
      (flatten g [d]).within step.location = ofEntry step :=
    fun step hstep => within_flatten hg hdistinct hstep
  refine ⟨?_, fun step hstep => ?_, fun step hstep hkind x => ⟨?_, ?_⟩⟩
  · rw [List.map_congr_left hwithin]
    exact flatten_singleton d
  · rw [hwithin step hstep]
    exact ofEntry_cases hdistinct haddressable hstep
  · exact Document.at?_setAt (at?_of_mem_walk hdistinct hstep) x
  · obtain ⟨gates, hgates, hend⟩ := hg.exists_gateways
    rw [walk_singleton] at hstep
    have hpath : step.location = ⟨Location.root.segments ++ step.location.segments⟩ := rfl
    rw [flatten_singleton, flatten_singleton, namedObjects, namedObjects, walk_singleton,
      walk_singleton]
    exact outside_walkAt_setAt hgates hend hdistinct hstep hkind hpath x

/-- The error of one schema leaves the structs of the other, and nothing in the place of the first
changes these. -/
theorem flatten_isolated_devices :
    (Grammar.openApi.BuiltIn ∧ ∀ d ∈ [deviceSchemas], d.Distinct ∧ d.Addressable) ∧
    (∃ structs, structs ≠ [] ∧
      (flatten .openApi [deviceSchemas]).within sensorLocation = ⟨structs, []⟩) ∧
    (∃ e, (flatten .openApi [deviceSchemas]).within alarmLocation = ⟨[], [e]⟩ ∧
      e.location.Within alarmLocation ∧ ∃ x, e.location.resolve deviceSchemas = some x) ∧
    ∀ x, (flatten .openApi [deviceSchemas.setAt alarmLocation.segments x]).outside alarmLocation =
      (flatten .openApi [deviceSchemas]).outside alarmLocation := by
  have hg : Grammar.openApi.BuiltIn := .inl rfl
  have hd : ∀ d ∈ [deviceSchemas], d.Distinct ∧ d.Addressable :=
    List.forall_mem_singleton.2 ⟨distinct_deviceSchemas, addressable_deviceSchemas⟩
  obtain ⟨-, h⟩ := flatten_isolated hg hd
  obtain ⟨-, hentries, hothers⟩ := h deviceSchemas List.mem_cons_self
  have hsensor : ⟨.obj sensorSchema, .schemaEnter, sensorLocation⟩ ∈
      namedObjects .openApi deviceSchemas := List.mem_cons_self
  have halarm : ⟨.obj alarmSchema, .schemaEnter, alarmLocation⟩ ∈
      namedObjects .openApi deviceSchemas := List.mem_cons_of_mem _ List.mem_cons_self
  refine ⟨⟨hg, hd⟩, (hentries _ hsensor).resolve_right ?_, (hentries _ halarm).resolve_left ?_, ?_⟩
  · rintro ⟨e, h, -⟩
    rw [flatten_deviceSchemas] at h
    cases h
  · rintro ⟨structs, -, h⟩
    rw [flatten_deviceSchemas] at h
    cases h
  · exact fun x => (hothers _ (mem_namedObjects_iff.1 halarm).1 rfl x).2

end SchemaLoom
