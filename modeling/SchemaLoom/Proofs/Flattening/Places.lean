import SchemaLoom.Proofs.Flattening.Entries
import SchemaLoom.Proofs.Flattening.Nesting

/-!
# The places of structs and errors

What a named object schema gives, structs or an error, is at its place or below it.  No named object
schema is inside of another one, so the places of the named object schemas are apart, and what is at
one of them or below it comes from this schema alone.

- `namedObjects`: the named object schemas of a document, in the order of the walk.
- `Flattened.within`, `Flattened.outside`: the structs and errors at a place or below it, and all
  others.
- `flatten_eq_concat_namedObjects`: flattening gives what the named object schemas give.
- `pairwise_namedObjects`: the places of the named object schemas are apart.
- `within_flatten`: what flattening a document gives at the place of a named object schema.
-/

namespace SchemaLoom

variable {g : Grammar} {node : NodeId} {gates : List NodeId} {loc place place' : Location}
variable {d : Document} {members : Members} {step : Step}

/-! ## Named object schemas -/

/-- Whether a step is at a named schema that is an object, of whatever type. -/
def Step.isNamed (step : Step) : Bool :=
  step.kind == .schemaEnter && step.value.isObject

/-- Whether a step is at a named schema that is an object schema. -/
def Step.isNamedObject (step : Step) : Bool :=
  step.kind == .schemaEnter && isObjectSchema step.value

/-- The named object schemas of a document. -/
def namedObjects (g : Grammar) (d : Document) : List Step :=
  (walk g [d]).filter Step.isNamedObject

theorem isObjectSchema_iff : isObjectSchema d = true ↔
    ∃ members, d = .obj members ∧ Schema.string? members "type" = some "object" := by
  cases d <;> simp [isObjectSchema]

theorem mem_namedObjects_iff : step ∈ namedObjects g d ↔
    step ∈ walk g [d] ∧ step.kind = .schemaEnter ∧ isObjectSchema step.value = true := by
  rw [namedObjects, List.mem_filter, Step.isNamedObject, Bool.and_eq_true, beq_iff_eq]

theorem flattenEntry_of_isObjectSchema (hobject : isObjectSchema step.value = true) :
    ∃ members, step.value = .obj members ∧ Schema.string? members "type" = some "object" ∧
      flattenEntry step =
        flattenObject (step.location.last?.getD "unknown") step.location members := by
  obtain ⟨members, hvalue, htype⟩ := isObjectSchema_iff.1 hobject
  refine ⟨members, hvalue, htype, ?_⟩
  unfold flattenEntry
  rw [hvalue] at hobject ⊢
  exact if_pos hobject

/-- A named object schema is in the document, and gives what its members give, under the last segment
of its location. -/
theorem flattenEntry_of_mem_namedObjects (hd : d.Distinct) (h : step ∈ namedObjects g d) :
    ∃ members, step.value = .obj members ∧
      d.at? step.location.segments = some (.obj members) ∧
      Schema.string? members "type" = some "object" ∧
      flattenEntry step =
        flattenObject (step.location.last?.getD "unknown") step.location members := by
  obtain ⟨hmem, -, hobject⟩ := mem_namedObjects_iff.1 h
  obtain ⟨members, hvalue, htype, hentry⟩ := flattenEntry_of_isObjectSchema hobject
  have hx := at?_of_mem_walk hd hmem
  rw [hvalue] at hx
  exact ⟨members, hvalue, hx, htype, hentry⟩

theorem flattenEntry_of_not_isObjectSchema (h : ¬ isObjectSchema step.value = true) :
    flattenEntry step = .ok [] := by
  unfold flattenEntry
  split
  next => exact if_neg h
  next => rfl

/-! ## Structs and errors by place -/

namespace Flattened

variable {f : Flattened} {p : Location → Bool}

/-- The locations of the structs and the errors. -/
def locations (f : Flattened) : List Location :=
  f.structs.map Struct.location ++ f.errors.map FlattenError.location

/-- The structs and the errors at some locations. -/
def restrict (p : Location → Bool) (f : Flattened) : Flattened :=
  ⟨f.structs.filter fun s => p s.location, f.errors.filter fun e => p e.location⟩

/-- The structs and the errors at a place or below it. -/
def within (place : Location) (f : Flattened) : Flattened :=
  f.restrict fun loc => decide (loc.Within place)

/-- The structs and the errors that are neither at a place nor below it. -/
def outside (place : Location) (f : Flattened) : Flattened :=
  f.restrict fun loc => !decide (loc.Within place)

theorem concat_cons (f : Flattened) (parts : List Flattened) :
    concat (f :: parts) = f.append (concat parts) := rfl

theorem append_nil (f : Flattened) : f.append (concat []) = f := by
  simp [append, concat]

theorem nil_append (f : Flattened) : (concat []).append f = f := rfl

theorem concat_eq_nil {parts : List Flattened} (h : ∀ f ∈ parts, f = concat []) :
    concat parts = concat [] := by
  induction parts with
  | nil => rfl
  | cons f parts ih =>
    obtain ⟨hf, hparts⟩ := List.forall_mem_cons.1 h
    rw [concat_cons, hf, ih hparts]
    rfl

theorem mem_locations_concat {parts : List Flattened} {l : Location} :
    l ∈ (concat parts).locations ↔ ∃ f ∈ parts, l ∈ f.locations := by
  simp only [locations, concat, List.mem_append, List.mem_map, List.mem_flatMap]
  constructor
  · rintro (⟨s, ⟨f, hf, hs⟩, rfl⟩ | ⟨e, ⟨f, hf, he⟩, rfl⟩)
    · exact ⟨f, hf, .inl ⟨s, hs, rfl⟩⟩
    · exact ⟨f, hf, .inr ⟨e, he, rfl⟩⟩
  · rintro ⟨f, hf, ⟨s, hs, rfl⟩ | ⟨e, he, rfl⟩⟩
    · exact .inl ⟨s, ⟨f, hf, hs⟩, rfl⟩
    · exact .inr ⟨e, ⟨f, hf, he⟩, rfl⟩

theorem restrict_append (f f' : Flattened) :
    (f.append f').restrict p = (f.restrict p).append (f'.restrict p) := by
  simp only [restrict, append, List.filter_append]

theorem restrict_concat (parts : List Flattened) :
    (concat parts).restrict p = concat (parts.map (restrict p)) := by
  simp only [restrict, concat, List.filter_flatMap, List.flatMap_map]

theorem restrict_eq_self (h : ∀ l ∈ f.locations, p l = true) : f.restrict p = f := by
  simp only [locations, List.mem_append, List.mem_map] at h
  unfold restrict
  congr 1
  · exact List.filter_eq_self.2 fun s hs => h _ (.inl ⟨s, hs, rfl⟩)
  · exact List.filter_eq_self.2 fun e he => h _ (.inr ⟨e, he, rfl⟩)

theorem restrict_eq_nil (h : ∀ l ∈ f.locations, p l = false) : f.restrict p = concat [] := by
  simp only [locations, List.mem_append, List.mem_map] at h
  unfold restrict concat
  congr 1
  · exact List.filter_eq_nil_iff.2 fun s hs => Bool.eq_false_iff.1 (h _ (.inl ⟨s, hs, rfl⟩))
  · exact List.filter_eq_nil_iff.2 fun e he => Bool.eq_false_iff.1 (h _ (.inr ⟨e, he, rfl⟩))

theorem within_of_within (h : ∀ l ∈ f.locations, l.Within place) : f.within place = f :=
  restrict_eq_self fun l hl => decide_eq_true (h l hl)

theorem within_of_apart (h : ∀ l ∈ f.locations, l.Within place) (hplace : place.Apart place') :
    f.within place' = concat [] :=
  restrict_eq_nil fun l hl => decide_eq_false (hplace.not_within (h l hl))

theorem outside_of_within (h : ∀ l ∈ f.locations, l.Within place) : f.outside place = concat [] :=
  restrict_eq_nil fun l hl => by rw [decide_eq_true (h l hl)]; rfl

theorem within_append (f f' : Flattened) :
    (f.append f').within place = (f.within place).append (f'.within place) :=
  restrict_append f f'

theorem concat_flatMap {α : Type} (xs : List α) (parts : α → List Flattened) :
    concat (xs.flatMap parts) = concat (xs.map fun x => concat (parts x)) := by
  simp only [concat, List.flatMap_assoc, List.flatMap_map]

end Flattened

/-- Flattening gives what the named object schemas give. -/
theorem flatten_eq_concat_namedObjects (trees : List Document) :
    flatten g trees = .concat ((trees.flatMap (namedObjects g)).map .ofEntry) := by
  -- a named schema that is no object schema gives nothing
  have hother : ∀ steps : List Step,
      Flattened.concat ((steps.filter fun step => step.kind == .schemaEnter).map .ofEntry) =
        .concat ((steps.filter Step.isNamedObject).map .ofEntry) := by
    intro steps
    induction steps with
    | nil => rfl
    | cons step steps ih =>
      rw [List.filter_cons, List.filter_cons, Step.isNamedObject]
      by_cases hkind : (step.kind == .schemaEnter) = true
      · rw [if_pos hkind, hkind, Bool.true_and, List.map_cons, Flattened.concat_cons, ih]
        by_cases hobject : isObjectSchema step.value = true
        · rw [if_pos hobject, List.map_cons, Flattened.concat_cons]
        · rw [if_neg hobject, Flattened.ofEntry, flattenEntry_of_not_isObjectSchema hobject]
          exact Flattened.nil_append _
      · rw [if_neg hkind, Bool.eq_false_iff.2 hkind, Bool.false_and, if_neg Bool.false_ne_true, ih]
  have hwalk : walk g trees = trees.flatMap fun d => walk g [d] := by
    simp only [walk_eq_flatMap, List.flatMap_singleton]
  rw [flatten_eq_concat, hother, hwalk, List.filter_flatMap]
  rfl

theorem flatten_singleton (d : Document) :
    flatten g [d] = .concat ((namedObjects g d).map .ofEntry) := by
  rw [flatten_eq_concat_namedObjects, List.flatMap_singleton]

/-- Several documents give what each of them gives, one after the other. -/
theorem flatten_eq_concat_documents (trees : List Document) :
    flatten g trees = .concat (trees.map fun d => flatten g [d]) := by
  simp only [flatten_singleton]
  rw [flatten_eq_concat_namedObjects, List.map_flatMap, Flattened.concat_flatMap]

/-- The structs of a document are those of its named object schemas. -/
theorem exists_namedObject_of_mem_structs {s : Struct} (hs : s ∈ (flatten g [d]).structs) :
    ∃ step ∈ namedObjects g d, ∃ structs, flattenEntry step = .ok structs ∧ s ∈ structs := by
  rw [flatten_singleton, Flattened.concat, List.flatMap_map, List.mem_flatMap] at hs
  obtain ⟨step, hstep, hs⟩ := hs
  unfold Flattened.ofEntry at hs
  cases h : flattenEntry step with
  | error e =>
    rw [h] at hs
    cases hs
  | ok structs =>
    rw [h] at hs
    exact ⟨step, hstep, structs, h, hs⟩

/-- What a named object schema gives is at its place or below it. -/
theorem within_ofEntry (hobject : isObjectSchema step.value = true) :
    ∀ l ∈ (Flattened.ofEntry step).locations, l.Within step.location := by
  obtain ⟨members, -, -, hentry⟩ := flattenEntry_of_isObjectSchema hobject
  unfold Flattened.ofEntry Flattened.locations
  rw [hentry]
  intro l hl
  cases h : flattenObject (step.location.last?.getD "unknown") step.location members with
  | ok structs =>
    rw [h] at hl
    obtain ⟨s, hs, rfl⟩ := List.mem_map.1 ((List.mem_append.1 hl).resolve_right List.not_mem_nil)
    exact (gives_of_flattenObject h hs).within
  | error e =>
    rw [h] at hl
    cases List.mem_singleton.1 hl
    exact (subschema_of_flattenObject h).within

/-! ## Named object schemas are apart -/

theorem filter_isNamed_eq_nil (hg : Gateways g gates) (hnode : node ∉ gates) :
    (walkAt g node loc d).filter Step.isNamed = [] := by
  refine List.filter_eq_nil_iff.2 fun step hstep h => ?_
  rw [Step.isNamed, Bool.and_eq_true, beq_iff_eq] at h
  exact hg.kind_of_mem_walkAt hnode hstep h.1

/-- The places of the named schemas that are objects are apart: below such a schema there is none, and
different members and items lead to places that are apart. -/
theorem pairwise_filter_walkAt (hg : Gateways g gates) (hend : Gateways.EndAtSchemas gates)
    (hd : d.Distinct) : ((walkAt g node loc d).filter Step.isNamed).Pairwise
      fun a b => a.location.Apart b.location := by
  induction d using Document.induction generalizing node loc with
  | null | bool | num | str =>
    rw [walkAt_scalar rfl rfl]
    exact (List.pairwise_singleton _ _).filter _
  | arr items ih =>
    have hhere : ¬ Step.isNamed ⟨.arr items, g.kind node, loc⟩ = true := by
      simp [Step.isNamed, Document.isObject, Document.asObject?]
    rw [walkAt_arr, List.filter_cons, if_neg hhere, List.filter_flatMap]
    refine pairwise_flatMap_of_apart (fun _ _ h => h) loc (nodup_map_toString_zipIdx items) ?_ ?_
    · exact fun p _ step hstep => within_of_mem_walkAt (List.mem_of_mem_filter hstep)
    · intro p hp
      have hmem := List.fst_mem_of_mem_zipIdx hp
      exact ih p.1 hmem (Document.distinct_arr.1 hd _ hmem)
  | obj members ih =>
    obtain ⟨hkeys, hmembers⟩ := Document.distinct_obj.1 hd
    rw [walkAt_obj, List.filter_cons, List.filter_flatMap]
    by_cases hkind : g.kind node = .schemaEnter
    · have hbelow : (members.flatMap fun m => (walkAt g (g.child node m.1).node (loc.push m.1)
          m.2).filter Step.isNamed) = [] :=
        List.flatMap_eq_nil_iff.2 fun m _ =>
          filter_isNamed_eq_nil hg (hg.child_of_kind hend hkind)
      rw [hbelow]
      split
      · exact List.pairwise_singleton _ _
      · exact .nil
    · have hhere : ¬ Step.isNamed ⟨.obj members, g.kind node, loc⟩ = true := by
        simp [Step.isNamed, hkind]
      rw [if_neg hhere]
      refine pairwise_flatMap_of_apart (fun _ _ h => h) loc hkeys ?_ ?_
      · exact fun m _ step hstep => within_of_mem_walkAt (List.mem_of_mem_filter hstep)
      · exact fun m hm => ih m hm (hmembers m hm)

theorem mem_named (hstep : step ∈ walk g [d]) (hkind : step.kind = .schemaEnter)
    (hvalue : step.value = .obj members) : step ∈ (walk g [d]).filter Step.isNamed := by
  refine List.mem_filter.2 ⟨hstep, ?_⟩
  rw [Step.isNamed, hkind, hvalue]
  rfl

theorem pairwise_named (hg : g.BuiltIn) (hd : d.Distinct) :
    ((walk g [d]).filter Step.isNamed).Pairwise fun a b => a.location.Apart b.location := by
  obtain ⟨gates, hgates, hend⟩ := hg.exists_gateways
  rw [walk_singleton]
  exact pairwise_filter_walkAt hgates hend hd

theorem pairwise_namedObjects (hg : g.BuiltIn) (hd : d.Distinct) :
    (namedObjects g d).Pairwise fun a b => a.location.Apart b.location := by
  have hfilter : namedObjects g d =
      ((walk g [d]).filter Step.isNamed).filter fun step => isObjectSchema step.value := by
    rw [namedObjects, List.filter_filter]
    refine List.filter_congr fun step _ => ?_
    unfold Step.isNamedObject Step.isNamed
    cases step.value <;> simp [isObjectSchema, Document.isObject, Document.asObject?, Bool.and_comm]
  rw [hfilter]
  exact (pairwise_named hg hd).filter _

/-! ## What is at the place of a named object schema -/

/-- Steps at places apart from another one give nothing there. -/
theorem within_concat_of_apart {steps : List Step}
    (hobject : ∀ step ∈ steps, isObjectSchema step.value = true)
    (hapart : ∀ step ∈ steps, step.location.Apart place) :
    (Flattened.concat (steps.map .ofEntry)).within place = .concat [] := by
  rw [Flattened.within, Flattened.restrict_concat]
  refine Flattened.concat_eq_nil fun f hf => ?_
  rw [List.map_map] at hf
  obtain ⟨step, hstep, rfl⟩ := List.mem_map.1 hf
  exact Flattened.within_of_apart (within_ofEntry (hobject step hstep)) (hapart step hstep)

/-- Among steps whose places are apart, each gives what is at its place or below it. -/
theorem within_concat {steps : List Step}
    (hobject : ∀ step ∈ steps, isObjectSchema step.value = true)
    (hapart : steps.Pairwise fun a b => a.location.Apart b.location) (h : step ∈ steps) :
    (Flattened.concat (steps.map .ofEntry)).within step.location = .ofEntry step := by
  induction steps with
  | nil => cases h
  | cons first rest ih =>
    obtain ⟨hfirst, hrest⟩ := List.forall_mem_cons.1 hobject
    obtain ⟨hapart, hpairwise⟩ := List.pairwise_cons.1 hapart
    rw [List.map_cons, Flattened.concat_cons, Flattened.within_append]
    rcases List.mem_cons.1 h with rfl | h
    · have hself : (Flattened.ofEntry step).within step.location = .ofEntry step :=
        Flattened.within_of_within (within_ofEntry hfirst)
      rw [hself, within_concat_of_apart hrest fun other hother => (hapart other hother).symm,
        Flattened.append_nil]
    · have hother : (Flattened.ofEntry first).within step.location = .concat [] :=
        Flattened.within_of_apart (within_ofEntry hfirst) (hapart step h)
      rw [hother, ih hrest hpairwise h, Flattened.nil_append]

/-- What flattening a document gives at the place of a named object schema, and below it, is what
this schema gives. -/
theorem within_flatten (hg : g.BuiltIn) (hd : d.Distinct) (h : step ∈ namedObjects g d) :
    (flatten g [d]).within step.location = .ofEntry step := by
  rw [flatten_singleton]
  exact within_concat (fun _ h => (mem_namedObjects_iff.1 h).2.2) (pairwise_namedObjects hg hd) h

/-! ## A document with an error -/

/-- A schema with an array of objects under a property. -/
def sensorSchema : Members :=
  [("type", .str "object"), ("required", .arr [.str "log"]),
    ("properties", .obj [("log", .obj [("type", .str "array"), ("maxItems", .num (.int 4)),
      ("items", .obj [("type", .str "object"), ("properties", .obj [
        ("text", .obj [("type", .str "string"), ("maxLength", .num (.int 8))])])])])])]

/-- A schema with a reference under a property. -/
def alarmSchema : Members :=
  [("type", .str "object"), ("properties", .obj [
    ("source", .obj [("$ref", .str "#/components/schemas/sensor")])])]

/-- A document with both schemas. -/
def deviceSchemas : Document :=
  .obj [("components", .obj [("schemas", .obj [
    ("sensor", .obj sensorSchema), ("alarm", .obj alarmSchema)])])]

def sensorLocation : Location := ⟨["components", "schemas", "sensor"]⟩

def alarmLocation : Location := ⟨["components", "schemas", "alarm"]⟩

theorem namedObjects_deviceSchemas : namedObjects .openApi deviceSchemas =
    [⟨.obj sensorSchema, .schemaEnter, sensorLocation⟩,
      ⟨.obj alarmSchema, .schemaEnter, alarmLocation⟩] := rfl

/-- The first schema has two structs, and the second one an error. -/
theorem flatten_deviceSchemas : flatten .openApi [deviceSchemas] =
    ⟨[⟨.plain "sensor_log",
        ⟨["components", "schemas", "sensor", "properties", "log", "items"]⟩,
        [⟨"text", .single ⟨"uint8_t", [⟨8, 8⟩]⟩, false⟩]⟩,
      ⟨.plain "sensor", sensorLocation, [⟨"log", .single ⟨"sensor_log", [⟨0, 4⟩]⟩, true⟩]⟩],
      [⟨⟨["components", "schemas", "alarm", "properties", "source"]⟩, .reference⟩]⟩ := by
  rw [flatten_singleton, namedObjects_deviceSchemas]
  cbv

theorem distinct_deviceSchemas : deviceSchemas.Distinct := by decide

theorem addressable_deviceSchemas : deviceSchemas.Addressable := by
  simp [deviceSchemas, sensorSchema, alarmSchema, Document.Addressable,
    Document.AddressableMembers, Document.AddressableItems, Numeral.wordLimit]

end SchemaLoom
