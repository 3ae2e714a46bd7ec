import SchemaLoom.Proofs.Grammar
import SchemaLoom.Proofs.Normalization.Frame

/-!
# The values that a schema lists

A schema lists values under `enum` and `examples`.  The array is a set, and a normalization puts it
in order; but what holds at the place of an array holds at the places of its items too, so lists
among the values are put in order as if they were sets.

- `Visits`: the values that a normalization comes to, with their places.
- `Visits.normalizeAt`: a normalization comes to the normal forms of these in the normal form.
- `SameValues`: an array holds the values of another one, in any order.
- `sameValues_arrange_iff`: a normalization keeps the values of an array exactly if it leaves each
  of them as it is.
- `normal_iff_inOrder`: the listed values that it leaves as they are.
- `normalize_listed_iff`: at every place of a document where a schema lists values.
-/

namespace SchemaLoom

variable {g : Grammar} {scheme : Scheme} {s t u : Transition} {d v w x : Document}
  {node : NodeId} {items : List Document} {members : Members}

/-! ## What a normalization comes to -/

/-- A normalization of a document at a place comes to a value at another one.  What is under the key
of references outside of data is not looked into. -/
inductive Visits (g : Grammar) : Transition → Document → Transition → Document → Prop where
  | here {t : Transition} {d : Document} : Visits g t d t d
  | item {t u : Transition} {items : List Document} {x v : Document} (hx : x ∈ items)
      (h : Visits g t x u v) : Visits g t (.arr items) u v
  | member {t u : Transition} {members : Members} {m : String × Document} {v : Document}
      (hm : m ∈ members) (hk : ¬ (m.1 = refKey ∧ g.isOpaque t.node = false))
      (h : Visits g (g.child t.node m.1) m.2 u v) : Visits g t (.obj members) u v

namespace Visits

theorem trans (h : Visits g s d t v) (h' : Visits g t v u w) : Visits g s d u w := by
  induction h with
  | here => exact h'
  | item hx _ ih => exact .item hx (ih h')
  | member hm hk _ ih => exact .member hm hk (ih h')

/-- The values under a key other than that of references are looked into at every place. -/
theorem value {key : String} (hm : (key, x) ∈ members) (hne : key ≠ refKey)
    (h : Visits g (g.child t.node key) x u v) : Visits g t (.obj members) u v :=
  .member hm (fun hk => hne hk.1) h

/-- In the normal form of a document the normal forms of its values are reached. -/
theorem normalizeAt (h : Visits g t d u v) :
    Visits g t (normalizeAt g scheme t d) u (normalizeAt g scheme u v) := by
  induction h with
  | here => exact .here
  | @item t u items x v hx _ ih =>
    rw [normalizeAt_arr]
    exact .item (mem_arrange_map.2 ⟨x, hx, rfl⟩) ih
  | @member t u members m v hm hk _ ih =>
    rw [normalizeAt_obj]
    refine .member (List.mem_map_of_mem hm) hk ?_
    rw [normalizeMember_of_not hk]
    exact ih

theorem keyable (h : Visits g t d u v) (hd : d.Keyable) : v.Keyable := by
  induction h with
  | here => exact hd
  | item hx _ ih => exact ih (Document.keyable_arr.1 hd _ hx)
  | member hm _ _ ih => exact ih ((Document.keyable_obj.1 hd).2 _ hm)

end Visits

/-! ## Arrays that keep their values -/

/-- An array holds the values of another one, each as often as that one does, in any order. -/
def SameValues (xs ys : List Document) : Prop :=
  ∃ zs, zs.Perm xs ∧ List.Forall₂ (fun z y => Document.equal z y = true) zs ys

/-- A normalization keeps the values of an array exactly if it leaves each of them as it is: values
cannot be changed into one another and still be the same ones together. -/
theorem sameValues_arrange_iff (hitems : ∀ x ∈ items, x.Keyable) :
    SameValues items (arrange t.behavior (items.map (normalizeAt g scheme t))) ↔
      ∀ x ∈ items, Normal g scheme t x := by
  constructor
  · rintro ⟨zs, hperm, hequal⟩ x hx
    refine normal_of_equal (hitems x hx) (equal_of_sources hitems (fun z hz => ?_) x hx)
    obtain ⟨y, hy, hyz⟩ := exists_mem_of_forall₂ hequal.flip (hperm.mem_iff.2 hz)
    obtain ⟨z', hz', rfl⟩ := mem_arrange_map.1 hy
    have hdistinct : (normalizeAt g scheme t z').Distinct :=
      distinct_normalizeAt (hitems z' hz').distinct
    exact ⟨z', hz', Document.equal_symm (hitems z hz).distinct hdistinct hyz⟩
  · intro h
    rw [List.map_congr_left h, List.map_id']
    refine ⟨_, arrange_perm _ _, List.forall₂_same.2 fun y hy => ?_⟩
    exact Document.equal_refl (hitems y ((arrange_perm _ _).mem_iff.1 hy)).distinct

/-! ## Values that are left as they are -/

/-- The lists of a value are in canonical order, as far as no object is around them, and its objects
fulfil a condition. -/
inductive Document.InOrder (objects : Members → Prop) : Document → Prop where
  | scalar {d : Document} (h : d.isScalar = true) : InOrder objects d
  | list {items : List Document} (sorted : items.Pairwise fun a b => a.canonical ≤ b.canonical)
      (each : ∀ x ∈ items, InOrder objects x) : InOrder objects (.arr items)
  | obj {members : Members} (h : objects members) : InOrder objects (.obj members)

/-- Where an array is a set of values, so are the lists among its items. -/
theorem normal_iff_inOrder (hk : t.behavior.sortKey = some .canonical) :
    Normal g scheme t x ↔ x.InOrder fun members => Normal g scheme t (.obj members) := by
  induction x using Document.induction with
  | null | bool | num | str => exact iff_of_true rfl (.scalar rfl)
  | arr items ih =>
    rw [normal_set hk, forall₂_congr ih]
    constructor
    · rintro ⟨hitems, hsorted⟩
      exact .list hsorted hitems
    · intro h
      cases h with
      | scalar h => cases h
      | list sorted each => exact ⟨each, sorted⟩
  | obj members =>
    constructor
    · exact fun h => .obj h
    · intro h
      cases h with
      | scalar h => cases h
      | obj h => exact h

/-- Objects among data are left as they are. -/
theorem normal_obj_data (hdata : g.isOpaque .data = true) {behavior : Behavior} :
    Normal g scheme ⟨.data, behavior⟩ (.obj members) := by
  have h : normalizeAt g scheme .data (.obj members) = .obj members :=
    normalizeAt_opaque hdata hdata rfl
  exact h

/-! ## Schemas -/

/-- The places of schemas. -/
def Grammar.IsSchema (g : Grammar) (node : NodeId) : Prop :=
  g.kind node ∈ [Kind.schema, .schemaEnter, .schemaRoot]

/-- In both grammars a schema lists the values of `enum` as schemas and those of `examples` as
data. -/
theorem Grammar.BuiltIn.child_listed (hg : g.BuiltIn) (h : g.IsSchema node) :
    g.child node "enum" = .values JsonSchema.schema ∧ g.child node "examples" = .values .data := by
  have hall : ∀ n ∈ g.nodes.zipIdx, n.1.kind ∈ [Kind.schema, .schemaEnter, .schemaRoot] →
      n.1.child "enum" = .values JsonSchema.schema ∧ n.1.child "examples" = .values .data := by
    rcases hg with rfl | rfl
    · decide +kernel
    · decide +kernel
  rcases Gateways.node_cases g node with hdata | hmem
  · rw [IsSchema, kind, hdata] at h
    simp [Node.kind] at h
  · exact hall _ hmem h

theorem Grammar.BuiltIn.isOpaque_data (hg : g.BuiltIn) : g.isOpaque .data = true := by
  rcases hg with rfl | rfl
  · rfl
  · rfl

/-- What a schema lists under a key is reached with it, and its values are kept exactly if each of
them is left as it is. -/
theorem Visits.listed (scheme : Scheme) (hd : d.Keyable) (h : Visits g s d t (.obj members))
    {key : String} (hne : key ≠ refKey) (hitems : Members.get? key members = some (.arr items)) :
    ∃ ys, SchemaLoom.normalizeAt g scheme (g.child t.node key) (.arr items) = .arr ys ∧
      Visits g s (SchemaLoom.normalizeAt g scheme s d) (g.child t.node key) (.arr ys) ∧
      (SameValues items ys ↔ ∀ x ∈ items, Normal g scheme (g.child t.node key) x) := by
  have hlisted : Visits g s d (g.child t.node key) (.arr items) :=
    h.trans (.value (Members.mem_of_get? hitems) hne .here)
  refine ⟨_, normalizeAt_arr items, ?_, ?_⟩
  · rw [← normalizeAt_arr]
    exact hlisted.normalizeAt
  · exact sameValues_arrange_iff (Document.keyable_arr.1 (hlisted.keyable hd))

/-- A normalization keeps the values that a schema lists exactly if their lists are in canonical
order, as far as no object is around them; those of `enum` must be left as they are by a
normalization of schemas besides, where they are objects. -/
theorem normalize_listed_iff (scheme : Scheme) (hg : g.BuiltIn) (hd : d.Keyable)
    (h : Visits g g.entry d t (.obj members)) (hschema : g.IsSchema t.node) :
    (∀ items, Members.get? "enum" members = some (.arr items) →
      ∃ ys, normalizeAt g scheme (g.child t.node "enum") (.arr items) = .arr ys ∧
        Visits g g.entry (normalize g scheme d) (g.child t.node "enum") (.arr ys) ∧
        (SameValues items ys ↔ ∀ x ∈ items, x.InOrder fun object =>
          Normal g scheme (.plain JsonSchema.schema) (.obj object))) ∧
    (∀ items, Members.get? "examples" members = some (.arr items) →
      ∃ ys, normalizeAt g scheme (g.child t.node "examples") (.arr items) = .arr ys ∧
        Visits g g.entry (normalize g scheme d) (g.child t.node "examples") (.arr ys) ∧
        (SameValues items ys ↔ ∀ x ∈ items, x.InOrder fun _ => True)) := by
  obtain ⟨henum, hexamples⟩ := hg.child_listed hschema
  constructor
  · intro items hitems
    obtain ⟨ys, hys, hvisited, hsame⟩ := h.listed scheme hd (by decide) hitems
    refine ⟨ys, hys, hvisited, hsame.trans (forall₂_congr fun x _ => ?_)⟩
    rw [henum, normal_iff_inOrder rfl]
    rfl
  · intro items hitems
    obtain ⟨ys, hys, hvisited, hsame⟩ := h.listed scheme hd (by decide) hitems
    refine ⟨ys, hys, hvisited, hsame.trans (forall₂_congr fun x _ => ?_)⟩
    rw [hexamples, normal_iff_inOrder rfl]
    simp only [Transition.values, normal_obj_data hg.isOpaque_data]

/-- A document with one named schema. -/
def documentOf (schema : Members) : Document :=
  .obj [("components", .obj [("schemas", .obj [("S", .obj schema)])])]

theorem visits_documentOf (schema : Members) :
    Visits .openApi Grammar.openApi.entry (documentOf schema) (.plain JsonSchema.schemaEnter)
      (.obj schema) :=
  .value List.mem_cons_self (by decide) <| .value List.mem_cons_self (by decide) <|
    .value List.mem_cons_self (by decide) .here

/-- A list in order and an object are kept under `enum`.  Under `examples` a list that is in no
order is put in order, and so the values are not kept. -/
theorem normalize_listed_iff_lists :
    let one : Document := .num (.int 1)
    let two : Document := .num (.int 2)
    let values : List Document := [.arr [one, two], .obj [("k", two)]]
    let samples : List Document := [.arr [two, one], .obj [("k", .arr [two, one])]]
    let schema : Members := [("enum", .arr values), ("examples", .arr samples)]
    Grammar.openApi.BuiltIn ∧ (documentOf schema).Keyable ∧
      Visits .openApi Grammar.openApi.entry (documentOf schema) (.plain JsonSchema.schemaEnter)
        (.obj schema) ∧
      Grammar.openApi.IsSchema JsonSchema.schemaEnter ∧
      (∃ ys, normalizeAt .openApi .default (.values JsonSchema.schema) (.arr values) = .arr ys ∧
        SameValues values ys) ∧
      ∃ ys, normalizeAt .openApi .default (.values .data) (.arr samples) = .arr ys ∧
        ¬ SameValues samples ys := by
  intro one two values samples schema
  have hg : Grammar.openApi.BuiltIn := .inl rfl
  have hd : (documentOf schema).Keyable := ⟨by decide, by decide⟩
  have hschema : Grammar.openApi.IsSchema JsonSchema.schemaEnter := by
    unfold Grammar.IsSchema
    decide
  have hvisits := visits_documentOf schema
  obtain ⟨henum, hexamples⟩ := normalize_listed_iff .default hg hd hvisits hschema
  refine ⟨hg, hd, hvisits, hschema, ?_, ?_⟩
  · obtain ⟨ys, hys, -, hsame⟩ := henum values rfl
    have hlist : (Document.arr [one, two]).InOrder fun object =>
        Normal .openApi .default (.plain JsonSchema.schema) (.obj object) :=
      .list (List.pairwise_pair.2 (by decide +kernel))
        (List.forall_mem_cons.2 ⟨.scalar rfl, List.forall_mem_singleton.2 (.scalar rfl)⟩)
    exact ⟨ys, hys, hsame.2
      (List.forall_mem_cons.2 ⟨hlist, List.forall_mem_singleton.2 (.obj rfl)⟩)⟩
  · obtain ⟨ys, hys, -, hsame⟩ := hexamples samples rfl
    refine ⟨ys, hys, fun h => ?_⟩
    cases hsame.1 h _ List.mem_cons_self with
    | scalar h => cases h
    | list sorted _ => exact absurd (List.pairwise_pair.1 sorted) (by decide +kernel)

/-- A list of numbers is a value of its own, and it comes out as another one. -/
theorem normalize_changes_listed :
    let one : Document := .num (.int 1)
    let two : Document := .num (.int 2)
    normalize .openApi .default (documentOf [("enum", .arr [.arr [two, one]]),
        ("examples", .arr [.arr [two, one]])]) =
      documentOf [("enum", .arr [.arr [one, two]]), ("examples", .arr [.arr [one, two]])] ∧
    ¬ SameValues [.arr [two, one]] [.arr [one, two]] := by
  intro one two
  have hsorted : sortByKey SortKey.canonical.key [two, one] = [one, two] :=
    sortByKey_pair (by decide +kernel)
  have hinner : ∀ node, normalizeAt .openApi .default (.values node) (.arr [two, one]) =
      .arr [one, two] := by
    intro node
    rw [normalizeAt_arr, arrange_set rfl]
    exact congrArg Document.arr hsorted
  have houter : ∀ node, normalizeAt .openApi .default (.values node) (.arr [.arr [two, one]]) =
      .arr [.arr [one, two]] := by
    intro node
    rw [normalizeAt_arr, arrange_set rfl, List.map_singleton, hinner,
      sortByKey_of_pairwise (List.pairwise_singleton _ _)]
  constructor
  · let normal (node : NodeId) : Document :=
      normalizeAt .openApi .default (.values node) (.arr [.arr [two, one]])
    have hdocument : documentOf [("enum", .arr [.arr [one, two]]),
        ("examples", .arr [.arr [one, two]])] =
      documentOf [("enum", normal JsonSchema.schema), ("examples", normal .data)] := by
      simp only [normal, houter]
    rw [hdocument]
    rfl
  · rintro ⟨zs, hperm, hequal⟩
    rw [List.perm_singleton.1 hperm] at hequal
    cases hequal with
    | cons h _ => exact absurd h (by decide)

end SchemaLoom
