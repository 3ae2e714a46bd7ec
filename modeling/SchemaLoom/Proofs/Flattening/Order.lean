import SchemaLoom.Proofs.Flattening.Places

/-!
# Structs after those they refer to

A field whose schema comes down to an object schema refers to the struct of that schema, by its name.
This struct stands before the one that has the field.

- `Provides`: some structs hold those that the fields of a struct refer to.
- `InOrder`: each struct of a list refers to earlier ones only.  Joining such lists gives such a list
  (`InOrder.append`), and so does adding a struct to those it refers to (`InOrder.concat`).
- `inOrder_of_flattenObject`: the structs of an object schema are in order.
- `flatten_inOrder`: so are those of several documents, each position with its own document.
-/

namespace SchemaLoom

open Schema

variable {g : Grammar} {loc : Location} {d : Document} {members : Members} {name : String}
variable {structs earlier earlier' xs ys : List Struct} {s : Struct}

/-! ## Positions in joined lists -/

section Positions

variable {α β : Type} {as bs : List α} {i : Nat}

/-- A position of two joined lists is one of the first, or one of the second after all of the
first. -/
theorem getElem?_append_cases {a : α} (h : (as ++ bs)[i]? = some a) :
    as[i]? = some a ∧ (as ++ bs).take i = as.take i ∨
      ∃ n, i = as.length + n ∧ bs[n]? = some a ∧ (as ++ bs).take i = as ++ bs.take n := by
  by_cases hi : i < as.length
  · rw [List.getElem?_append_left hi] at h
    exact .inl ⟨h, List.take_append_of_le_length (Nat.le_of_lt hi)⟩
  · have hle := Nat.le_of_not_lt hi
    rw [List.getElem?_append_right hle] at h
    refine .inr ⟨i - as.length, (Nat.add_sub_cancel' hle).symm, h, ?_⟩
    rw [List.take_append, List.take_of_length_le hle]

/-- A position of several joined lists is a position of one of them, after all that come before this
one. -/
theorem exists_of_getElem?_flatMap {f : α → List β} {b : β}
    (h : (as.flatMap f)[i]? = some b) :
    ∃ k a n, as[k]? = some a ∧ (f a)[n]? = some b ∧ i = ((as.take k).flatMap f).length + n ∧
      (as.flatMap f).take i = (as.take k).flatMap f ++ (f a).take n := by
  induction as generalizing i with
  | nil => cases h
  | cons a as ih =>
    rw [List.flatMap_cons] at h ⊢
    rcases getElem?_append_cases h with ⟨hb, htake⟩ | ⟨m, rfl, hm, htake⟩
    · exact ⟨0, a, i, rfl, hb, (Nat.zero_add i).symm, htake⟩
    · obtain ⟨k, a', n, ha', hb, hposition, htake'⟩ := ih hm
      refine ⟨k + 1, a', n, ha', hb, ?_, ?_⟩
      · rw [List.take_succ_cons, List.flatMap_cons, List.length_append]
        omega
      · rw [htake, htake', List.take_succ_cons, List.flatMap_cons, List.append_assoc]

end Positions

/-! ## The structs that a struct refers to -/

/-- For each field of a struct whose schema comes down to an object schema, there is a struct with
the name of the field's type at the place of that schema. -/
def Provides (earlier : List Struct) (members : Members) (s : Struct) : Prop :=
  ∀ f ∈ s.fields, ∃ schema t, Members.get? f.name (properties members) = some schema ∧
    f.type = .single t ∧
    ∀ loc inner, Reaches ((s.location.push "properties").push f.name) schema loc inner →
      ∃ s' ∈ earlier, s'.location = loc ∧ s'.name = t.name

theorem Provides.mono (h : Provides earlier members s) (hle : ∀ s ∈ earlier, s ∈ earlier') :
    Provides earlier' members s := by
  intro f hf
  obtain ⟨schema, t, hschema, htype, hprovides⟩ := h f hf
  refine ⟨schema, t, hschema, htype, fun loc inner hreach => ?_⟩
  obtain ⟨s', hs', hloc, hname⟩ := hprovides loc inner hreach
  exact ⟨s', hle s' hs', hloc, hname⟩

/-- The structs of a list are of object schemas in a document, and each refers to earlier structs
only. -/
def InOrder (d : Document) (structs : List Struct) : Prop :=
  ∀ (i : Nat) (s : Struct), structs[i]? = some s →
    ∃ members, d.at? s.location.segments = some (.obj members) ∧
      Provides (structs.take i) members s

namespace InOrder

theorem nil : InOrder d [] :=
  fun _ _ h => nomatch h

theorem append (hxs : InOrder d xs) (hys : InOrder d ys) : InOrder d (xs ++ ys) := by
  intro i s hs
  rcases getElem?_append_cases hs with ⟨hs, htake⟩ | ⟨n, -, hs, htake⟩
  · rw [htake]
    exact hxs i s hs
  · obtain ⟨members, hx, hprovides⟩ := hys n s hs
    rw [htake]
    exact ⟨members, hx, hprovides.mono fun _ => List.mem_append_right _⟩

theorem flatMap {α : Type} {as : List α} {f : α → List Struct} (h : ∀ a ∈ as, InOrder d (f a)) :
    InOrder d (as.flatMap f) := by
  induction as with
  | nil => exact nil
  | cons a as ih =>
    obtain ⟨ha, has⟩ := List.forall_mem_cons.1 h
    exact ha.append (ih has)

theorem concat (hxs : InOrder d xs) (hx : d.at? s.location.segments = some (.obj members))
    (h : Provides xs members s) : InOrder d (xs ++ [s]) := by
  intro i s' hs'
  rcases getElem?_append_cases hs' with ⟨hs', htake⟩ | ⟨n, -, hs', htake⟩
  · rw [htake]
    exact hxs i s' hs'
  · cases List.mem_singleton.1 (List.mem_of_getElem? hs')
    rw [htake]
    exact ⟨members, hx, h.mono fun _ => List.mem_append_left _⟩

end InOrder

/-- The structs of its properties are those that the struct of an object schema refers to. -/
theorem provides_properties (hd : (Document.obj members).Distinct) {ps : List Property}
    (hps : ps.map Property.member = properties members)
    (hresolved : ∀ p ∈ ps, p.IsResolved name (loc.push "properties")) :
    Provides (ps.flatMap Property.structs) members
      ⟨.plain name, loc, ps.map (Property.field (strings members "required"))⟩ := by
  intro f hf
  obtain ⟨p, hp, rfl⟩ := List.mem_map.1 hf
  have hmem : p.member ∈ properties members := hps ▸ List.mem_map_of_mem hp
  refine ⟨p.schema, p.ctype, get?_of_mem_properties hd hmem, rfl, fun place inner hreach => ?_⟩
  obtain ⟨hname, hobject⟩ := Resolved.of_reaches (hresolved p hp) hreach
  obtain ⟨s', hs', hloc, hctype⟩ := exists_struct_of_flattenObject hobject
  refine ⟨s', List.mem_flatMap.2 ⟨p, hp, hs'⟩, hloc, ?_⟩
  rw [hname, Struct.name, hctype]
  rfl

/-- The structs of an object schema are in order: those of its properties are, and its own comes after
them. -/
theorem inOrder_of_flattenObject (hd : d.Distinct) (hx : d.at? loc.segments = some (.obj members))
    (h : flattenObject name loc members = .ok structs) : InOrder d structs := by
  induction name, loc, members, structs, h using flattenObject_induction with
  | object name loc members ps _ _ hps hresolved ih =>
    refine (InOrder.flatMap fun p hp => ?_).concat hx
      (provides_properties (hd.at? hx) hps hresolved)
    have hmem : p.member ∈ properties members := hps ▸ List.mem_map_of_mem hp
    rcases ih p hp with hnil | ⟨loc', inner, hreach, -, ih⟩
    · rw [hnil]
      exact .nil
    · exact ih (hreach.at? (at?_of_mem_properties hd hx hmem))

theorem inOrder_structs_flatten (hd : d.Distinct) : InOrder d (flatten g [d]).structs := by
  rw [flatten_singleton, Flattened.concat, List.flatMap_map]
  refine InOrder.flatMap fun step hstep => ?_
  obtain ⟨members, -, hx, -, hentry⟩ := flattenEntry_of_mem_namedObjects hd hstep
  unfold Flattened.ofEntry
  cases h : flattenEntry step with
  | error e => exact .nil
  | ok structs => exact inOrder_of_flattenObject hd hx (hentry ▸ h)

/-! ## Several documents -/

theorem structs_flatten (trees : List Document) :
    (flatten g trees).structs = trees.flatMap fun d => (flatten g [d]).structs := by
  rw [flatten_eq_concat_documents, Flattened.concat, List.flatMap_map]

/-- Every struct of some documents is one of the structs of one of them, and comes after the structs
that its fields refer to: if the schema of a field comes down to an object schema of that document,
there is a struct with the name of the field's type and the place of this schema at a position
before. -/
theorem flatten_inOrder (g : Grammar) {trees : List Document}
    (hd : ∀ d ∈ trees, d.Distinct ∧ d.Addressable) {i : Nat}
    (hs : (flatten g trees).structs[i]? = some s) :
    ∃ k n d members, trees[k]? = some d ∧ (flatten g [d]).structs[n]? = some s ∧
      i = (flatten g (trees.take k)).structs.length + n ∧
      s.location.resolve d = some (.obj members) ∧
      ∀ f ∈ s.fields, ∃ schema t, Members.get? f.name (properties members) = some schema ∧
        f.type = .single t ∧
        ∀ loc inner, Reaches ((s.location.push "properties").push f.name) schema loc inner →
          ∃ j s', j < i ∧ (flatten g trees).structs[j]? = some s' ∧ s'.location = loc ∧
            s'.name = t.name := by
  rw [structs_flatten] at hs ⊢
  obtain ⟨k, d, n, hk, hn, hposition, htake⟩ := exists_of_getElem?_flatMap hs
  obtain ⟨hdistinct, haddressable⟩ := hd d (List.mem_of_getElem? hk)
  obtain ⟨members, hx, hprovides⟩ := inOrder_structs_flatten hdistinct n s hn
  refine ⟨k, n, d, members, hk, hn, ?_, Document.resolve_of_at? haddressable hx, ?_⟩
  · rw [structs_flatten]
    exact hposition
  · intro f hf
    obtain ⟨schema, t, hschema, htype, hbefore⟩ := hprovides f hf
    refine ⟨schema, t, hschema, htype, fun loc inner hreach => ?_⟩
    obtain ⟨s', hs', hloc, hname⟩ := hbefore loc inner hreach
    have hmem : s' ∈ (trees.flatMap fun d => (flatten g [d]).structs).take i := by
      rw [htake]
      exact List.mem_append_right _ hs'
    obtain ⟨j, hj, hget⟩ := List.mem_take_iff_getElem.1 hmem
    have hlt := Nat.lt_min.1 hj
    exact ⟨j, s', hlt.1, List.getElem?_eq_some_iff.2 ⟨hlt.2, hget⟩, hloc, hname⟩

/-- The struct of the objects in an array comes before the one whose field has the array. -/
theorem flatten_inOrder_devices :
    let s : Struct :=
      ⟨.plain "sensor", sensorLocation, [⟨"log", .single ⟨"sensor_log", [⟨0, 4⟩]⟩, true⟩]⟩
    ((∀ d ∈ [deviceSchemas], d.Distinct ∧ d.Addressable) ∧
      (flatten .openApi [deviceSchemas]).structs[1]? = some s) ∧
    ∃ j s', j < 1 ∧ (flatten .openApi [deviceSchemas]).structs[j]? = some s' ∧
      s'.location = ⟨["components", "schemas", "sensor", "properties", "log", "items"]⟩ ∧
      s'.name = "sensor_log" := by
  intro s
  have hd : ∀ d ∈ [deviceSchemas], d.Distinct ∧ d.Addressable :=
    List.forall_mem_singleton.2 ⟨distinct_deviceSchemas, addressable_deviceSchemas⟩
  have hs : (flatten .openApi [deviceSchemas]).structs[1]? = some s := by
    rw [flatten_deviceSchemas]
    rfl
  obtain ⟨k, n, d, members, hk, -, -, hmembers, hfields⟩ := flatten_inOrder .openApi hd hs
  cases List.mem_singleton.1 (List.mem_of_getElem? hk)
  obtain ⟨schema, t, hschema, htype, hbefore⟩ := hfields _ List.mem_cons_self
  cases hmembers
  cases hschema
  cases htype
  exact ⟨⟨hd, hs⟩, hbefore _ _ (.items rfl rfl (.object rfl))⟩

end SchemaLoom
