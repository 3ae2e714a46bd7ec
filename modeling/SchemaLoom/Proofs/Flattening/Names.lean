import SchemaLoom.Proofs.Flattening.Places
import SchemaLoom.Proofs.Separator

/-!
# The names of structs

A nested struct is named after the properties that lead to it, joined by underscores.  The names are
read apart again unless one of them holds an underscore itself.

- `Gives.nests`: a nested struct is named after the properties that lead to its schema.
- `Origin.LeadsTo`: the ways from a named schema to another one, by the names of properties.
- `exists_origin`: every struct is named after a way that leads to its schema.
- `Origin.LeadsTo.unique`: a way leads to one schema.
- `Origin.readAlike_of_typeName`: when two ways give one name.
- `flatten_sameName`: so structs with one name are one place, or their ways read alike.
- `flatten_sameName_apart`: two schemas of a document may give structs of one name.

Nothing rules out that two named schemas have one name, or that an underscore stands in a name.
-/

namespace SchemaLoom

open Schema

variable {loc loc' : Location} {d : Document} {members : Members} {name : String} {s : Struct}

/-! ## The names of nested schemas -/

/-- The structs of an object schema are those of the schemas nested in it, and each is named after
the properties that lead to it. -/
theorem Gives.nests (h : Gives name loc members s) (hd : d.Distinct)
    (hx : d.at? loc.segments = some (.obj members)) :
    ∃ chain, Nests chain loc members s.location ∧
      s.ctype = .plain (chain.foldl nestedName name) := by
  induction h with
  | own => exact ⟨[], .here, rfl⟩
  | @nested _ _ _ _ _ m _ hm hreach _ ih =>
    obtain ⟨chain, hnests, hctype⟩ := ih (hreach.at? (at?_of_mem_properties hd hx hm))
    exact ⟨m.1 :: chain, .property (get?_properties_of_mem hm)
      (get?_of_mem_properties (hd.at? hx) hm) hreach hnests, hctype⟩

/-! ## Joined names -/

/-- A name that properties are joined to is the list of the names with underscores between them. -/
theorem toList_foldl_nestedName (name : String) (chain : List String) :
    (chain.foldl nestedName name).toList =
      ['_'].intercalate ((name :: chain).map String.toList) := by
  -- the joined name so far takes the place of the first name
  induction chain generalizing name with
  | nil => simp
  | cons prop chain ih =>
    rw [List.foldl_cons, ih]
    cases chain <;> simp [nestedName, List.intercalate_cons_cons]

theorem foldl_nestedName (name : String) (chain : List String) :
    chain.foldl nestedName name = "_".intercalate (name :: chain) := by
  apply String.toList_injective
  rw [String.toList_intercalate]
  exact toList_foldl_nestedName name chain

/-- Names without underscores are read apart from what they are joined to. -/
theorem cons_eq_of_foldl_nestedName {name' : String} {chain chain' : List String}
    (h : chain.foldl nestedName name = chain'.foldl nestedName name')
    (hplain : ∀ w ∈ (name :: chain) ++ (name' :: chain'), '_' ∉ w.toList) :
    name :: chain = name' :: chain' := by
  refine eq_of_intercalate_toList (List.cons_ne_nil _ _) (List.cons_ne_nil _ _) hplain ?_
  rw [← toList_foldl_nestedName, ← toList_foldl_nestedName, h]

/-! ## The origins of structs -/

/-- Where a struct comes from: a named schema, by its location, and the names of the properties that
lead from it to the schema of the struct. -/
structure Origin where
  entry : Location
  properties : List String
deriving DecidableEq

namespace Origin

variable {g : Grammar} {o o' : Origin}

/-- The name of the named schema. -/
def entryName (o : Origin) : String :=
  o.entry.last?.getD "unknown"

/-- The names that are joined to the name of the struct. -/
def words (o : Origin) : List String :=
  o.entryName :: o.properties

/-- The name of the struct. -/
def typeName (o : Origin) : String :=
  o.properties.foldl nestedName o.entryName

/-- The schema of the struct is at a location in a document. -/
def LeadsTo (g : Grammar) (d : Document) (o : Origin) (loc : Location) : Prop :=
  ∃ members, ⟨.obj members, .schemaEnter, o.entry⟩ ∈ walk g [d] ∧
    Nests o.properties o.entry members loc

/-- An origin leads to one place in a document. -/
theorem LeadsTo.unique (hd : d.Distinct) (h : o.LeadsTo g d loc) (h' : o.LeadsTo g d loc') :
    loc = loc' := by
  obtain ⟨members, hstep, hnests⟩ := h
  obtain ⟨members', hstep', hnests'⟩ := h'
  -- the location of the named schema determines its members
  have hfound : d.at? o.entry.segments = some (.obj members) := at?_of_mem_walk hd hstep
  have hfound' : d.at? o.entry.segments = some (.obj members') := at?_of_mem_walk hd hstep'
  rw [hfound] at hfound'
  cases hfound'
  exact hnests.unique hnests'

/-- Two ways that differ and are no different when their names are joined: they begin at two schemas
of one name and go by the same properties, or one of their names holds an underscore itself. -/
def ReadAlike (o o' : Origin) : Prop :=
  o.words = o'.words ∧ o.entry ≠ o'.entry ∨
    o.words ≠ o'.words ∧ ∃ w ∈ o.words ++ o'.words, '_' ∈ w.toList

theorem eq_of_words (hentry : o.entry = o'.entry) (hwords : o.words = o'.words) : o = o' := by
  obtain ⟨entry, properties⟩ := o
  obtain ⟨entry', properties'⟩ := o'
  cases hentry
  cases (List.cons.inj hwords).2
  rfl

/-- Two ways that give one name read alike. -/
theorem readAlike_of_typeName (h : o.typeName = o'.typeName) (hne : o ≠ o') : ReadAlike o o' := by
  by_cases hwords : o.words = o'.words
  · exact .inl ⟨hwords, fun hentry => hne (eq_of_words hentry hwords)⟩
  · refine .inr ⟨hwords, ?_⟩
    by_contra hplain
    refine hwords (cons_eq_of_foldl_nestedName h fun w hw hunderscore => ?_)
    exact hplain ⟨w, hw, hunderscore⟩

end Origin

/-! ## Whole documents -/

variable {g : Grammar} {s' : Struct}

/-- Every struct has an origin, and is named after it. -/
theorem exists_origin (hd : d.Distinct) (hs : s ∈ (flatten g [d]).structs) :
    ∃ o : Origin, o.LeadsTo g d s.location ∧ s.ctype = .plain o.typeName := by
  obtain ⟨step, hstep, structs, hstructs, hs⟩ := exists_namedObject_of_mem_structs hs
  obtain ⟨members, hvalue, hx, -, hentry⟩ := flattenEntry_of_mem_namedObjects hd hstep
  obtain ⟨hwalk, hkind, -⟩ := mem_namedObjects_iff.1 hstep
  obtain ⟨value, kind, loc⟩ := step
  cases hvalue
  cases hkind
  obtain ⟨chain, hnests, hctype⟩ := (gives_of_flattenObject (hentry ▸ hstructs) hs).nests hd hx
  exact ⟨⟨loc, chain⟩, ⟨members, hwalk, hnests⟩, hctype⟩

/-- Two structs of one name describe the schema at one location, or their ways read alike. -/
theorem location_eq_or_readAlike (hd : d.Distinct) (hs : s ∈ (flatten g [d]).structs)
    (hs' : s' ∈ (flatten g [d]).structs) (hname : s.name = s'.name) :
    s.location = s'.location ∨ ∃ o o' : Origin,
      o.LeadsTo g d s.location ∧ o'.LeadsTo g d s'.location ∧
      o.typeName = s.name ∧ o'.typeName = s'.name ∧ o.ReadAlike o' := by
  obtain ⟨o, ho, hctype⟩ := exists_origin hd hs
  obtain ⟨o', ho', hctype'⟩ := exists_origin hd hs'
  have htype : o.typeName = s.name := (congrArg CType.name hctype).symm
  have htype' : o'.typeName = s'.name := (congrArg CType.name hctype').symm
  by_cases hsame : o = o'
  · cases hsame
    exact .inl (ho.unique hd ho')
  · have halike : o.ReadAlike o' :=
      Origin.readAlike_of_typeName (htype.trans (hname.trans htype'.symm)) hsame
    exact .inr ⟨o, o', ho, ho', htype, htype', halike⟩

/-- Every struct of a document is named after a way from a named schema to its own: the name of that
schema and the properties on the way, joined by underscores.  The way determines the location.  So
structs of one name describe the schema at one location, or they come by two ways that read alike:
from two named schemas of one name, or with an underscore in one of the names that are joined. -/
theorem flatten_sameName (g : Grammar) (hd : d.Distinct) :
    (∀ s ∈ (flatten g [d]).structs, ∃ o : Origin, o.LeadsTo g d s.location ∧
      s.ctype = .plain o.typeName ∧ o.typeName = "_".intercalate (o.entryName :: o.properties)) ∧
    (∀ (o : Origin) (loc loc' : Location),
      o.LeadsTo g d loc → o.LeadsTo g d loc' → loc = loc') ∧
    ∀ s ∈ (flatten g [d]).structs, ∀ s' ∈ (flatten g [d]).structs, s.name = s'.name →
      s.location = s'.location ∨ ∃ o o' : Origin,
        o.LeadsTo g d s.location ∧ o'.LeadsTo g d s'.location ∧
        o.typeName = s.name ∧ o'.typeName = s'.name ∧ o.ReadAlike o' := by
  refine ⟨fun s hs => ?_, fun o loc loc' h h' => h.unique hd h', fun s hs s' hs' hname => ?_⟩
  · obtain ⟨o, ho, hctype⟩ := exists_origin hd hs
    exact ⟨o, ho, hctype, foldl_nestedName o.entryName o.properties⟩
  · exact location_eq_or_readAlike hd hs hs' hname

/-! ## Two structs of one name -/

/-- A document with two named schemas, of which one holds an object under a property. -/
def overlappingSchemas : Document :=
  .obj [("components", .obj [("schemas", .obj [
    ("a", .obj [("type", .str "object"),
      ("properties", .obj [("b", .obj [("type", .str "object")])])]),
    ("a_b", .obj [("type", .str "object")])])])]

theorem located_flattenObject_empty (name : String) (loc : Location) :
    located (flattenObject name loc [("type", .str "object")]) = .ok [⟨.plain name, loc, []⟩] := by
  rw [located_flattenObject]
  rfl

/-- The struct of the property has the name of the other named schema. -/
theorem outline_overlappingSchemas : (flatten .openApi [overlappingSchemas]).outline =
    ([⟨.plain "a_b", ⟨["components", "schemas", "a", "properties", "b"]⟩, []⟩,
      ⟨.plain "a", ⟨["components", "schemas", "a"]⟩, [⟨"b", .single (.plain "a_b"), false⟩]⟩,
      ⟨.plain "a_b", ⟨["components", "schemas", "a_b"]⟩, []⟩], []) := by
  have hentries : entryResults (walk .openApi [overlappingSchemas]) =
      [located (flattenObject "a" ⟨["components", "schemas", "a"]⟩ [("type", .str "object"),
        ("properties", .obj [("b", .obj [("type", .str "object")])])]),
      located (flattenObject "a_b" ⟨["components", "schemas", "a_b"]⟩
        [("type", .str "object")])] := rfl
  have hfields : located (flattenFields "a" []
      ⟨["components", "schemas", "a", "properties"]⟩ [("b", .obj [("type", .str "object")])]) =
      .ok ([⟨"b", .single (.plain "a_b"), false⟩],
        [⟨.plain "a_b", ⟨["components", "schemas", "a", "properties", "b"]⟩, []⟩]) := by
    rw [located_flattenFields_cons, located_flattenFields_nil, located_resolveType,
      located_flattenObject_empty]
    rfl
  have hobject : located (flattenObject "a" ⟨["components", "schemas", "a"]⟩
      [("type", .str "object"), ("properties", .obj [("b", .obj [("type", .str "object")])])]) =
      .ok [⟨.plain "a_b", ⟨["components", "schemas", "a", "properties", "b"]⟩, []⟩,
        ⟨.plain "a", ⟨["components", "schemas", "a"]⟩,
          [⟨"b", .single (.plain "a_b"), false⟩]⟩] := by
    rw [located_flattenObject]
    show (located (flattenFields "a" [] ⟨["components", "schemas", "a", "properties"]⟩
      [("b", .obj [("type", .str "object")])])).map _ = _
    rw [hfields]
    rfl
  rw [outline_flatten, hentries, hobject, located_flattenObject_empty]
  rfl

/-- The struct of the property `b` of `a`, and that of the named schema `a_b`. -/
theorem mem_structs_overlappingSchemas :
    ⟨.plain "a_b", ⟨["components", "schemas", "a", "properties", "b"]⟩, []⟩ ∈
        (flatten .openApi [overlappingSchemas]).structs ∧
      ⟨.plain "a_b", ⟨["components", "schemas", "a_b"]⟩, []⟩ ∈
        (flatten .openApi [overlappingSchemas]).structs := by
  have hstructs := congrArg Prod.fst outline_overlappingSchemas
  dsimp only [Flattened.outline] at hstructs
  rw [hstructs]
  exact ⟨List.mem_cons_self, List.mem_cons_of_mem _ (List.mem_cons_of_mem _ List.mem_cons_self)⟩

/-- The two structs come by two ways, of which none leads to both, and an underscore stands in the
name of a schema. -/
theorem flatten_sameName_overlapping :
    let s : Struct := ⟨.plain "a_b", ⟨["components", "schemas", "a", "properties", "b"]⟩, []⟩
    let s' : Struct := ⟨.plain "a_b", ⟨["components", "schemas", "a_b"]⟩, []⟩
    (overlappingSchemas.Distinct ∧ s ∈ (flatten .openApi [overlappingSchemas]).structs ∧
      s' ∈ (flatten .openApi [overlappingSchemas]).structs ∧ s.name = s'.name) ∧
    s.location ≠ s'.location ∧
    (∃ o : Origin, o.LeadsTo .openApi overlappingSchemas s.location ∧
      s.ctype = .plain o.typeName ∧ o.typeName = "_".intercalate (o.entryName :: o.properties)) ∧
    (∀ o : Origin, o.LeadsTo .openApi overlappingSchemas s.location →
      ¬ o.LeadsTo .openApi overlappingSchemas s'.location) ∧
    ∃ o o' : Origin,
      o.LeadsTo .openApi overlappingSchemas s.location ∧
      o'.LeadsTo .openApi overlappingSchemas s'.location ∧
      o.typeName = s.name ∧ o'.typeName = s'.name ∧ o.ReadAlike o' := by
  intro s s'
  obtain ⟨hs, hs'⟩ := mem_structs_overlappingSchemas
  have hd : overlappingSchemas.Distinct := by decide
  have hne : s.location ≠ s'.location := by decide
  obtain ⟨hnamed, hunique, hsame⟩ := flatten_sameName .openApi hd
  exact ⟨⟨hd, hs, hs', rfl⟩, hne, hnamed s hs, fun o h h' => hne (hunique o _ _ h h'),
    (hsame s hs s' hs' rfl).resolve_left hne⟩

/-- A schema with two named schemas of one name. -/
def twiceNamedSchemas : Document :=
  .obj [("$defs", .obj [("point", .obj [("type", .str "object")])]),
    ("definitions", .obj [("point", .obj [("type", .str "object")])])]

theorem outline_twiceNamedSchemas : (flatten .jsonSchema [twiceNamedSchemas]).outline =
    ([⟨.plain "point", ⟨["$defs", "point"]⟩, []⟩,
      ⟨.plain "point", ⟨["definitions", "point"]⟩, []⟩], []) := by
  have hentries : entryResults (walk .jsonSchema [twiceNamedSchemas]) =
      [located (flattenObject "point" ⟨["$defs", "point"]⟩ [("type", .str "object")]),
        located (flattenObject "point" ⟨["definitions", "point"]⟩ [("type", .str "object")])] := rfl
  rw [outline_flatten, hentries, located_flattenObject_empty, located_flattenObject_empty]
  rfl

/-- Structs of one name need not describe the schema at one location, even where there is no error:
a property may be joined to the name of another schema, and a schema may be named twice. -/
theorem flatten_sameName_apart :
    ((flatten .openApi [overlappingSchemas]).errors = [] ∧
      ¬ ∀ s ∈ (flatten .openApi [overlappingSchemas]).structs,
        ∀ s' ∈ (flatten .openApi [overlappingSchemas]).structs,
          s.name = s'.name → s.location = s'.location) ∧
    (flatten .jsonSchema [twiceNamedSchemas]).errors = [] ∧
      ¬ ∀ s ∈ (flatten .jsonSchema [twiceNamedSchemas]).structs,
        ∀ s' ∈ (flatten .jsonSchema [twiceNamedSchemas]).structs,
          s.name = s'.name → s.location = s'.location := by
  refine ⟨⟨?_, fun h => ?_⟩, ?_, fun h => ?_⟩
  · exact List.map_eq_nil_iff.1 (congrArg Prod.snd outline_overlappingSchemas)
  · obtain ⟨hs, hs'⟩ := mem_structs_overlappingSchemas
    exact absurd (h _ hs _ hs' rfl) (by decide)
  · exact List.map_eq_nil_iff.1 (congrArg Prod.snd outline_twiceNamedSchemas)
  · have hstructs := congrArg Prod.fst outline_twiceNamedSchemas
    dsimp only [Flattened.outline] at hstructs
    rw [hstructs] at h
    exact absurd (h _ List.mem_cons_self _ (List.mem_cons_of_mem _ List.mem_cons_self) rfl)
      (by decide)

end SchemaLoom
