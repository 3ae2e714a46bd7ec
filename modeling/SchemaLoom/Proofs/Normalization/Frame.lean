import SchemaLoom.Grammar.Builder
import SchemaLoom.Proofs.Merge.Order
import SchemaLoom.Proofs.Normalization.NormalForms
import SchemaLoom.Proofs.Walk

/-!
# What a normalization leaves alone

A normalization adjusts live references and puts the items of sets in order.  Everything else of a
document stays as it is and where it is.

- `NormalForm`: a document after these two changes, at a place of a grammar.
- `normalForm_iff`: a document has one normal form, and a normalization finds it.
- `normalizeAt_opaque`: in data everything stays, as long as no array is a set.
- `GrammarBuilder.HasData`: a builder that tells the data node nothing builds a grammar that has it.
- `extentsAt`: how much the objects and arrays hold that a walk meets, with their kinds.
- `extentsAt_normalizeAt`: a normalization changes nothing but their order.
- `normalize_frame`: all of this, of whole documents.
-/

namespace SchemaLoom

variable {g : Grammar} {t : Transition} {scheme : Scheme} {d d' : Document} {node : NodeId}
  {loc : Location}

/-! ## Normal forms -/

/-- One document is another one with its live references adjusted and the items of its sets in
order, at a place of a grammar. -/
inductive NormalForm (g : Grammar) (scheme : Scheme) : Transition → Document → Document → Prop where
  /-- A scalar stays. -/
  | scalar {t : Transition} {a : Document} (ha : a.isScalar = true) : NormalForm g scheme t a a
  /-- The keys of an object stay, in their order.  Outside of data a string under `$ref` is adjusted
  and any other value under it stays; the value under any other key comes in its normal form. -/
  | obj {t : Transition} {xs ys : Members} (keys : Members.keys ys = Members.keys xs)
      (reference : ∀ (i : Nat) raw w, g.isOpaque t.node = false →
        xs[i]? = some (refKey, .str raw) → ys[i]? = some (refKey, w) →
        w = .str (Reference.normalize ⟨raw⟩ scheme))
      (other : ∀ (i : Nat) v w, g.isOpaque t.node = false → v.asString? = none →
        xs[i]? = some (refKey, v) → ys[i]? = some (refKey, w) → w = v)
      (values : ∀ (i : Nat) k v w, ¬ (k = refKey ∧ g.isOpaque t.node = false) →
        xs[i]? = some (k, v) → ys[i]? = some (k, w) → NormalForm g scheme (g.child t.node k) v w) :
      NormalForm g scheme t (.obj xs) (.obj ys)
  /-- An ordered array keeps its length and its order. -/
  | list {t : Transition} {xs ys : List Document} (hk : t.behavior.sortKey = none)
      (length : ys.length = xs.length)
      (items : ∀ (i : Nat) x y, xs[i]? = some x → ys[i]? = some y → NormalForm g scheme t x y) :
      NormalForm g scheme t (.arr xs) (.arr ys)
  /-- The items of a set come in their normal forms and in the order of their keys; those with one
  key keep the order in which they were written. -/
  | set {t : Transition} {key : SortKey} {xs zs ys : List Document}
      (hk : t.behavior.sortKey = some key) (length : zs.length = xs.length)
      (items : ∀ (i : Nat) x z, xs[i]? = some x → zs[i]? = some z → NormalForm g scheme t x z)
      (perm : ys.Perm zs) (sorted : ys.Pairwise fun a b => key.key a ≤ key.key b)
      (ties : ∀ k, ys.filter (fun d => key.key d = k) = zs.filter fun d => key.key d = k) :
      NormalForm g scheme t (.arr xs) (.arr ys)

theorem adjustReference_of_asString?_eq_none (h : d.asString? = none) :
    adjustReference scheme d = d := by
  cases d with
  | str => cases h
  | null | bool | num | arr | obj => rfl

/-- A normalization finds a normal form. -/
theorem normalForm_normalizeAt : NormalForm g scheme t d (normalizeAt g scheme t d) := by
  induction d using Document.induction generalizing t with
  | null | bool | num | str => exact .scalar rfl
  | arr xs ih =>
    rw [normalizeAt_arr]
    have hitems : ∀ (i : Nat) x z, xs[i]? = some x →
        (xs.map (normalizeAt g scheme t))[i]? = some z → NormalForm g scheme t x z := by
      intro i x z hx hz
      rw [List.getElem?_map, hx] at hz
      cases hz
      exact ih x (List.mem_of_getElem? hx)
    cases hk : t.behavior.sortKey with
    | none =>
      rw [arrange_list hk]
      exact .list hk (List.length_map _) hitems
    | some key =>
      rw [arrange_set hk]
      exact .set hk (List.length_map _) hitems sortByKey_perm pairwise_sortByKey
        (filter_sortByKey key.key _)
  | obj xs ih =>
    rw [normalizeAt_obj]
    have hvalue : ∀ (i : Nat) k v w, xs[i]? = some (k, v) →
        (xs.map fun m => (m.1, normalizeMember g scheme t.node m))[i]? = some (k, w) →
        w = normalizeMember g scheme t.node (k, v) := by
      intro i k v w hx hy
      rw [List.getElem?_map, hx] at hy
      cases hy
      rfl
    refine .obj ?_ ?_ ?_ ?_
    · rw [Members.keys, List.map_map]
      rfl
    · intro i raw w ho hx hy
      rw [hvalue i _ _ w hx hy, normalizeMember, if_pos ⟨rfl, ho⟩, adjustReference]
    · intro i v w ho hv hx hy
      rw [hvalue i _ _ w hx hy, normalizeMember, if_pos ⟨rfl, ho⟩]
      exact adjustReference_of_asString?_eq_none hv
    · intro i k v w hk hx hy
      rw [hvalue i _ _ w hx hy, normalizeMember_of_not hk]
      exact ih (k, v) (List.mem_of_getElem? hx)

/-- What a function gives for every item of another list, index by index. -/
theorem eq_map_of_getElem? {α β : Type} {xs : List α} {ys : List β} {f : α → β}
    (length : ys.length = xs.length)
    (h : ∀ (i : Nat) x y, xs[i]? = some x → ys[i]? = some y → y = f x) : ys = xs.map f := by
  refine List.ext_getElem (length.trans (List.length_map _).symm) fun i hi hi' => ?_
  rw [List.getElem_map]
  exact h i _ _ (List.getElem?_eq_getElem _) (List.getElem?_eq_getElem hi)

/-- There is no other normal form than the one that a normalization finds. -/
theorem NormalForm.eq_normalizeAt (h : NormalForm g scheme t d d') :
    d' = normalizeAt g scheme t d := by
  induction h with
  | @scalar t a ha =>
    cases a with
    | null | bool | num | str => rfl
    | arr | obj => cases ha
  | @obj t xs ys keys reference other values ih =>
    rw [normalizeAt_obj]
    have hlength : ys.length = xs.length := by
      have h := congrArg List.length keys
      rwa [Members.keys, Members.keys, List.length_map, List.length_map] at h
    refine congrArg Document.obj (eq_map_of_getElem? hlength fun i m n hm hn => ?_)
    obtain ⟨k, v⟩ := m
    obtain ⟨l, w⟩ := n
    have hkey : some l = some k := by
      have h : (Members.keys ys)[i]? = (Members.keys xs)[i]? := by rw [keys]
      rwa [Members.keys, Members.keys, List.getElem?_map, List.getElem?_map, hm, hn] at h
    cases hkey
    refine congrArg (Prod.mk k) ?_
    by_cases hk : k = refKey ∧ g.isOpaque t.node = false
    · rw [normalizeMember, if_pos hk]
      obtain ⟨rfl, ho⟩ := hk
      cases v with
      | str raw => exact reference i raw w ho hm hn
      | null | bool | num | arr | obj => exact other i _ w ho rfl hm hn
    · rw [normalizeMember_of_not hk]
      exact ih i k v w hk hm hn
  | @list t xs ys hk length items ih =>
    rw [normalizeAt_arr, arrange_list hk, eq_map_of_getElem? length ih]
  | @set t key xs zs ys hk length items perm sorted ties ih =>
    rw [normalizeAt_arr, arrange_set hk, ← eq_map_of_getElem? length ih]
    exact congrArg Document.arr (eq_sortByKey sorted ties)

/-- A document has one normal form at a place, and a normalization finds it. -/
theorem normalForm_iff : NormalForm g scheme t d d' ↔ d' = normalizeAt g scheme t d := by
  constructor
  · exact NormalForm.eq_normalizeAt
  · rintro rfl
    exact normalForm_normalizeAt

/-! ## Data -/

theorem Grammar.node_eq_data (h : g.isOpaque node = true) : g.node node = .data := by
  unfold isOpaque at h
  cases hn : g.node node with
  | data => rfl
  | map | object | schema =>
    rw [hn] at h
    cases h

/-- In data everything stays, as long as no array is a set. -/
theorem normalizeAt_opaque (hdata : g.isOpaque .data = true) (ht : g.isOpaque t.node = true)
    (hk : t.behavior.sortKey = none) : normalizeAt g scheme t d = d := by
  induction d using Document.induction generalizing t with
  | null | bool | num | str => rfl
  | arr items ih => exact (normal_list hk).2 fun x hx => ih x hx ht hk
  | obj members ih =>
    refine normal_obj.2 fun m hm => ?_
    have hchild : g.child t.node m.1 = .data := by
      rw [Grammar.child, Grammar.node_eq_data ht, Node.child]
    have hnot : ¬ (m.1 = refKey ∧ g.isOpaque t.node = false) := by
      rintro ⟨-, ho⟩
      rw [ht] at ho
      cases ho
    rw [normalizeMember_of_not hnot, hchild]
    exact ih m hm hdata rfl

/-- The first slot of a builder holds the data node. -/
def GrammarBuilder.HasData (b : GrammarBuilder) : Prop :=
  b.slots[0]? = some (.ready .data)

namespace GrammarBuilder

variable {b : GrammarBuilder}

theorem hasData_new : new.HasData := rfl

theorem HasData.declare (h : b.HasData) (kind : Kind) : (b.declare kind).2.HasData := by
  obtain ⟨hlength, -⟩ := List.getElem?_eq_some_iff.1 h
  exact (List.getElem?_append_left hlength).trans h

/-- To tell another node where it leads leaves the data node as it is. -/
theorem HasData.configure (h : b.HasData) {id : NodeId} (hid : id ≠ .data) (n : Kind → Node) :
    (b.configure id n).HasData := by
  have hindex : id.index ≠ 0 := fun h => hid (congrArg NodeId.mk h)
  rw [HasData, GrammarBuilder.configure, List.getElem?_modify, h]
  exact congrArg some (if_neg hindex)

theorem HasData.isOpaque (h : b.HasData) {root : NodeId} (hg : b.build root = .ok g) :
    g.isOpaque .data = true := by
  obtain ⟨slots⟩ := b
  cases slots with
  | nil => cases h
  | cons slot rest =>
    cases h
    unfold build at hg
    rw [nodes] at hg
    cases hrest : nodes rest with
    | error kind =>
      rw [hrest] at hg
      cases hg
    | ok found =>
      rw [hrest] at hg
      cases hg
      rfl

end GrammarBuilder

/-! ## What a walk meets -/

/-- How much an object or an array holds. -/
inductive Extent where
  | members (count : Nat)
  | items (count : Nat)
deriving DecidableEq, Repr

/-- How much a document holds, unless it is a scalar. -/
def Document.extent? : Document → Option Extent
  | .obj members => some (.members members.length)
  | .arr items => some (.items items.length)
  | _ => none

/-- The kind of a step and how much its value holds, unless that is a scalar. -/
def Step.extent? (step : Step) : Option (Kind × Extent) :=
  step.value.extent?.map fun e => (step.kind, e)

theorem filterMap_walkAt_arr (items : List Document) :
    (walkAt g node loc (.arr items)).filterMap Step.extent? =
      (g.kind node, .items items.length) :: items.zipIdx.flatMap fun p =>
        (walkAt g node (loc.pushIndex p.2) p.1).filterMap Step.extent? := by
  rw [walkAt_arr, List.filterMap_cons, List.filterMap_flatMap]
  rfl

theorem filterMap_walkAt_obj (members : Members) :
    (walkAt g node loc (.obj members)).filterMap Step.extent? =
      (g.kind node, .members members.length) :: members.flatMap fun m =>
        (walkAt g (g.child node m.1).node (loc.push m.1) m.2).filterMap Step.extent? := by
  rw [walkAt_obj, List.filterMap_cons, List.filterMap_flatMap]
  rfl

/-- How much the objects and arrays hold that a walk through a document meets, with their kinds. -/
def extentsAt (g : Grammar) (node : NodeId) (d : Document) : List (Kind × Extent) :=
  (walkAt g node .root d).filterMap Step.extent?

/-- The location where a walk begins does not matter for what it meets. -/
theorem filterMap_walkAt : (walkAt g node loc d).filterMap Step.extent? = extentsAt g node d := by
  unfold extentsAt
  generalize Location.root = loc'
  induction d using Document.induction generalizing node loc loc' with
  | null | bool | num | str =>
    rw [walkAt_scalar rfl rfl, walkAt_scalar rfl rfl]
    rfl
  | arr items ih =>
    rw [filterMap_walkAt_arr, filterMap_walkAt_arr]
    refine congrArg _ (List.flatMap_congr fun p hp => ?_)
    exact ih p.1 (List.fst_mem_of_mem_zipIdx hp) _
  | obj members ih =>
    rw [filterMap_walkAt_obj, filterMap_walkAt_obj]
    exact congrArg _ (List.flatMap_congr fun m hm => ih m hm _)

theorem extentsAt_arr (items : List Document) :
    extentsAt g node (.arr items) =
      (g.kind node, .items items.length) :: items.flatMap (extentsAt g node) := by
  rw [extentsAt, filterMap_walkAt_arr]
  simp only [filterMap_walkAt]
  rw [← List.flatMap_map, List.zipIdx_map_fst]

theorem extentsAt_obj (members : Members) :
    extentsAt g node (.obj members) = (g.kind node, .members members.length) ::
      members.flatMap fun m => extentsAt g (g.child node m.1).node m.2 := by
  rw [extentsAt, filterMap_walkAt_obj]
  simp only [filterMap_walkAt]

/-- A reference holds nothing, before it is adjusted and after. -/
theorem extentsAt_adjustReference :
    extentsAt g node (adjustReference scheme d) = extentsAt g node d := by
  cases d with
  | str => rfl
  | null | bool | num | arr | obj => rfl

/-- A walk meets the same objects and arrays before a normalization and after, in some order. -/
theorem extentsAt_normalizeAt :
    (extentsAt g t.node (normalizeAt g scheme t d)).Perm (extentsAt g t.node d) := by
  induction d using Document.induction generalizing t with
  | null | bool | num | str => exact .refl _
  | arr items ih =>
    rw [normalizeAt_arr, extentsAt_arr, extentsAt_arr, (arrange_perm _ _).length_eq,
      List.length_map]
    refine .cons _ (((arrange_perm t.behavior _).flatMap_right _).trans ?_)
    rw [List.flatMap_map]
    exact perm_flatMap_of_forall₂ (List.forall₂_same.2 fun d hd => ih d hd)
  | obj members ih =>
    rw [normalizeAt_obj, extentsAt_obj, extentsAt_obj, List.length_map, List.flatMap_map]
    refine .cons _ (perm_flatMap_of_forall₂ (List.forall₂_same.2 fun m hm => ?_))
    unfold normalizeMember
    dsimp only
    split
    · rw [extentsAt_adjustReference]
    · exact ih m hm

/-! ## Whole documents -/

/-- A normalization only adjusts live references and puts the items of sets in order: it gives the
one document that is a normal form in this sense.  In data nothing changes where no array is a set.
And a walk meets as many objects and arrays of each kind and each size before it as after it. -/
theorem normalize_frame (g : Grammar) (scheme : Scheme) (d : Document) :
    (∀ d', NormalForm g scheme g.entry d d' ↔ d' = normalize g scheme d) ∧
      (g.isOpaque .data = true → ∀ t v, g.isOpaque t.node = true → t.behavior.sortKey = none →
        normalizeAt g scheme t v = v) ∧
      ((walk g [normalize g scheme d]).filterMap Step.extent?).Perm
        ((walk g [d]).filterMap Step.extent?) := by
  refine ⟨fun _ => normalForm_iff, fun hdata t v => normalizeAt_opaque hdata, ?_⟩
  rw [walk_singleton, walk_singleton]
  exact extentsAt_normalizeAt (t := g.entry)

/-- Two items that are not in the order of their keys change places. -/
theorem sortByKey_pair {key : Document → String} {a b : Document} (h : ¬ key a ≤ key b) :
    sortByKey key [a, b] = [b, a] := by
  simp [sortByKey, List.mergeSort, List.MergeSort.Internal.splitInTwo, h]

/-- A schema with a set, a live reference, a number under `$ref`, and data that looks like these. -/
theorem normalize_frame_schema :
    let free : Document := .obj [("type", .arr [.str "string", .str "null"]),
      ("$ref", .str "./other.yaml#/x")]
    let schema : Document := .obj [("type", .arr [.str "string", .str "null"]), ("default", free),
      ("items", .obj [("$ref", .str "./other.yaml#/x")]), ("$ref", .num (.int 1))]
    let normal : Document := .obj [("type", .arr [.str "null", .str "string"]), ("default", free),
      ("items", .obj [("$ref", .str "#/x")]), ("$ref", .num (.int 1))]
    (Grammar.jsonSchema.isOpaque .data = true ∧
        Transition.data.behavior.sortKey = none) ∧
      NormalForm .jsonSchema .default Grammar.jsonSchema.entry schema normal ∧
      normalizeAt .jsonSchema .default .data free = free ∧
      ((walk .jsonSchema [normal]).filterMap Step.extent?).Perm
        [(.data, .members 2), (.data, .items 2), (.schema, .items 2), (.schema, .members 1),
          (.schemaRoot, .members 4)] := by
  intro free schema normal
  have hdata : Grammar.jsonSchema.isOpaque .data = true := rfl
  have htypes : sortByKey SortKey.str.key [.str "string", .str "null"] =
      [.str "null", .str "string"] := sortByKey_pair (by decide +kernel)
  have hnormal : normal = normalize .jsonSchema .default schema := by
    show Document.obj (("type", .arr [.str "null", .str "string"]) :: _) = _
    rw [← htypes]
    rfl
  obtain ⟨hform, hopaque, hwalk⟩ := normalize_frame .jsonSchema .default schema
  refine ⟨⟨hdata, rfl⟩, (hform normal).2 hnormal, hopaque hdata .data free hdata rfl, ?_⟩
  rw [hnormal]
  exact hwalk.trans (by decide +kernel)

end SchemaLoom
