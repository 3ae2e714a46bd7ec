import SchemaLoom.Proofs.Document.Equality
import SchemaLoom.Proofs.Location

/-!
# The parts of a document

One segment of a location leads from an object to the value of a member, and from an array to an
item.  Seen this way objects and arrays are alike: both are maps from segments to parts.

- `Document.part?`: the part under a segment; an index is written in plain decimal.
- `Document.parts_induction`: to prove a property of all documents, prove it from the parts of each.
- `Document.at?`: the part at the end of some segments, which is what a location resolves to.
- `Document.setAt`: a document with another value at the end of some segments.
- `Document.isAlike`: whether two documents are both objects or both arrays.
- `Document.equal_iff_parts`: such documents are equal exactly when their parts are.
-/

namespace SchemaLoom

namespace Document

/-- The part of a document under a segment: a member's value by its key, an item by its index. -/
def part? (segment : String) : Document → Option Document
  | .obj members => Members.get? segment members
  | .arr items => (items.zipIdx.find? fun p => toString p.2 == segment).map Prod.fst
  | _ => none

@[simp] theorem part?_obj (segment : String) (members : Members) :
    part? segment (.obj members) = Members.get? segment members := rfl

theorem part?_arr_eq_some_iff {segment : String} {items : List Document} {d : Document} :
    part? segment (.arr items) = some d ↔ ∃ i : Nat, segment = toString i ∧ items[i]? = some d := by
  rw [part?, Option.map_eq_some_iff]
  constructor
  · rintro ⟨⟨d, i⟩, hfind, rfl⟩
    have hmem := List.mem_of_find?_eq_some hfind
    have hseg : toString i = segment := by simpa using List.find?_some hfind
    exact ⟨i, hseg.symm, List.mk_mem_zipIdx_iff_getElem?.1 hmem⟩
  · rintro ⟨i, rfl, hd⟩
    have hmem : (d, i) ∈ items.zipIdx := List.mk_mem_zipIdx_iff_getElem?.2 hd
    cases hfind : items.zipIdx.find? fun p => toString p.2 == toString i with
    | none =>
      have hne := List.find?_eq_none.1 hfind _ hmem
      exact absurd (beq_iff_eq.2 rfl) hne
    | some p =>
      -- indices are written differently, so the item that is found is the one at this index
      obtain ⟨d', j⟩ := p
      have hj : j = i := Location.eq_of_toString_eq (by simpa using List.find?_some hfind)
      subst hj
      have hd' : items[j]? = some d' :=
        List.mk_mem_zipIdx_iff_getElem?.1 (List.mem_of_find?_eq_some hfind)
      rw [hd] at hd'
      cases hd'
      exact ⟨_, rfl, rfl⟩

/-- Only an index leads to a part of an array. -/
theorem part?_arr_eq_none {segment : String} {items : List Document}
    (h : ¬ ∃ i : Nat, segment = toString i) : part? segment (.arr items) = none := by
  refine Option.eq_none_iff_forall_ne_some.2 fun d hd => ?_
  obtain ⟨i, hi, -⟩ := part?_arr_eq_some_iff.1 hd
  exact h ⟨i, hi⟩

/-- The item at an index is the part under the index. -/
@[simp] theorem part?_arr (items : List Document) (i : Nat) :
    part? (toString i) (.arr items) = items[i]? := by
  refine Option.ext fun d => ?_
  rw [part?_arr_eq_some_iff]
  constructor
  · rintro ⟨j, hj, hd⟩
    rw [Location.eq_of_toString_eq hj]
    exact hd
  · exact fun hd => ⟨i, rfl, hd⟩

theorem Distinct.part? {a x : Document} {segment : String} (ha : a.Distinct)
    (hx : a.part? segment = some x) : x.Distinct := by
  cases a with
  | null | bool | num | str => cases hx
  | obj members => exact ha.get? hx
  | arr items =>
    obtain ⟨i, -, hi⟩ := part?_arr_eq_some_iff.1 hx
    exact distinct_arr.1 ha x (List.mem_of_getElem? hi)

theorem Addressable.part? {a x : Document} {segment : String} (ha : a.Addressable)
    (hx : a.part? segment = some x) : x.Addressable := by
  cases a with
  | null | bool | num | str => cases hx
  | obj members => exact addressable_obj.1 ha (segment, x) (Members.mem_of_get? hx)
  | arr items =>
    obtain ⟨i, -, hi⟩ := part?_arr_eq_some_iff.1 hx
    exact (addressable_arr.1 ha).2 x (List.mem_of_getElem? hi)

/-- Induction on documents, with the hypothesis for every part. -/
@[elab_as_elim]
theorem parts_induction {motive : Document → Prop} (d : Document)
    (parts : ∀ d, (∀ segment x, d.part? segment = some x → motive x) → motive d) : motive d := by
  induction d using Document.induction with
  | null | bool | num | str => exact parts _ fun _ _ h => nomatch h
  | arr items ih =>
    refine parts _ fun segment x hx => ?_
    obtain ⟨i, -, hi⟩ := part?_arr_eq_some_iff.1 hx
    exact ih x (List.mem_of_getElem? hi)
  | obj members ih =>
    exact parts _ fun segment x hx => ih (segment, x) (Members.mem_of_get? hx)

/-- The part at the end of some segments. -/
def at? : List String → Document → Option Document
  | [], d => some d
  | segment :: path, d => (d.part? segment).bind (at? path)

theorem at?_cons_of_part? {d x : Document} {segment : String} (h : d.part? segment = some x)
    (path : List String) : d.at? (segment :: path) = x.at? path := by
  rw [at?, h]
  rfl

theorem Distinct.at? {d x : Document} {path : List String} (hd : d.Distinct)
    (h : d.at? path = some x) : x.Distinct := by
  induction path generalizing d with
  | nil =>
    cases h
    exact hd
  | cons segment path ih =>
    rw [Document.at?, Option.bind_eq_some_iff] at h
    obtain ⟨y, hy, h⟩ := h
    exact ih (hd.part? hy) h

/-- The part of what is at a location is at the location that goes on with its segment. -/
theorem at?_push {d x y : Document} {loc : Location} {segment : String}
    (hx : d.at? loc.segments = some x) (hy : x.part? segment = some y) :
    d.at? (loc.push segment).segments = some y := by
  have happend : ∀ (path : List String) (d : Document), d.at? path = some x →
      d.at? (path ++ [segment]) = some y := by
    intro path
    induction path with
    | nil =>
      intro d h
      cases h
      rw [List.nil_append, at?_cons_of_part? hy, at?]
    | cons s path ih =>
      intro d h
      rw [at?, Option.bind_eq_some_iff] at h
      obtain ⟨z, hz, h⟩ := h
      rw [List.cons_append, at?_cons_of_part? hz, ih z h]
  exact happend _ _ hx

/-- A location resolves to the part at the end of its segments. -/
theorem resolve_of_at? {d x : Document} {loc : Location} (hd : d.Addressable)
    (h : d.at? loc.segments = some x) : loc.resolve d = some x := by
  have hsegments : ∀ (path : List String) (d : Document), d.Addressable → d.at? path = some x →
      Location.resolveSegments path d = some x := by
    intro path
    induction path with
    | nil => exact fun _ _ h => h
    | cons s path ih =>
      intro d hd h
      rw [at?, Option.bind_eq_some_iff] at h
      obtain ⟨y, hy, h⟩ := h
      rw [Location.resolveSegments]
      cases d with
      | null | bool | num | str => cases hy
      | obj members =>
        rw [Location.step?, show Members.get? s members = some y from hy]
        exact ih y (addressable_obj.1 hd _ (Members.mem_of_get? hy)) h
      | arr items =>
        obtain ⟨i, rfl, hi⟩ := part?_arr_eq_some_iff.1 hy
        obtain ⟨hlength, hitems⟩ := addressable_arr.1 hd
        have hlt : i < Numeral.wordLimit :=
          Nat.lt_of_lt_of_le (List.getElem?_eq_some_iff.1 hi).1 hlength
        rw [Location.step?, Location.index?_toString hlt, Option.bind_some, hi]
        exact ih y (hitems y (List.mem_of_getElem? hi)) h
  exact hsegments _ _ hd h

/-! ## Replacing a part -/

/-- A document with another value in the place of the part at the end of some segments.  It is the
same document if there is no such part. -/
def setAt : Document → List String → Document → Document
  | _, [], x => x
  | .obj members, segment :: path, x =>
    .obj (members.map fun m => (m.1, if m.1 = segment then m.2.setAt path x else m.2))
  | .arr items, segment :: path, x =>
    .arr (items.zipIdx.map fun p => if toString p.2 = segment then p.1.setAt path x else p.1)
  | d, _ :: _, _ => d

theorem part?_setAt {d y : Document} {segment : String} (h : d.part? segment = some y)
    (path : List String) (x : Document) :
    (d.setAt (segment :: path) x).part? segment = some (y.setAt path x) := by
  cases d with
  | null | bool | num | str => cases h
  | obj members =>
    rw [part?_obj] at h
    rw [setAt, part?_obj, Members.get?_map, h, Option.map_some, if_pos rfl]
  | arr items =>
    obtain ⟨i, rfl, hi⟩ := part?_arr_eq_some_iff.1 h
    rw [setAt, part?_arr, List.getElem?_map, List.getElem?_zipIdx, hi, Option.map_some,
      Option.map_some, Nat.zero_add, if_pos rfl]

/-- The other value is where the part was. -/
theorem at?_setAt {d y : Document} {path : List String} (h : d.at? path = some y)
    (x : Document) : (d.setAt path x).at? path = some x := by
  induction path generalizing d with
  | nil =>
    rw [setAt]
    rfl
  | cons segment path ih =>
    rw [at?, Option.bind_eq_some_iff] at h
    obtain ⟨z, hz, h⟩ := h
    rw [at?_cons_of_part? (part?_setAt hz path x), ih h]

/-! ## Documents of one shape -/

/-- Whether two documents are both objects or both arrays. -/
def isAlike : Document → Document → Bool
  | .obj _, .obj _ => true
  | .arr _, .arr _ => true
  | _, _ => false

theorem isAlike_iff {a b : Document} : isAlike a b = true ↔
    (∃ as bs, a = .obj as ∧ b = .obj bs) ∨ ∃ as bs, a = .arr as ∧ b = .arr bs := by
  cases a <;> cases b <;> simp [isAlike]

theorem isAlike_trans {a b c : Document} (hab : isAlike a b = true) (hac : isAlike a c = true) :
    isAlike b c = true := by
  cases a <;> cases b <;> cases c <;> simp_all [isAlike]

theorem isAlike_comm (a b : Document) : isAlike a b = isAlike b a := by
  cases a <;> cases b <;> rfl

/-- Equal documents are alike to the same others. -/
theorem isAlike_of_equal {a b c : Document} (h : equal b c = true) :
    isAlike a b = isAlike a c := by
  rw [equal_iff] at h
  cases b with
  | null | bool | str => cases h; rfl
  | num =>
    obtain ⟨n, rfl, -⟩ := h
    cases a <;> rfl
  | arr =>
    obtain ⟨cs, rfl, -⟩ := h
    cases a <;> rfl
  | obj =>
    obtain ⟨cs, rfl, -⟩ := h
    cases a <;> rfl

/-- Two objects are equal exactly when every key leads to equal values in them, or to nothing in
both. -/
theorem equal_obj_iff_get? {as bs : Members} (ha : (Members.keys as).Nodup)
    (hb : (Members.keys bs).Nodup) : equal (.obj as) (.obj bs) = true ↔
      ∀ key, Option.Rel (fun x y => equal x y = true) (Members.get? key as)
        (Members.get? key bs) := by
  constructor
  · intro h key
    rcases get?_of_equal_obj ha hb h key with ⟨hx, hy⟩ | ⟨x, y, hx, hy, hxy⟩
    · rw [hx, hy]
      exact .none
    · rw [hx, hy]
      exact .some hxy
  · intro h
    have hkeys : ∀ key, key ∈ Members.keys as ↔ key ∈ Members.keys bs := by
      intro key
      have hkey := h key
      rw [← not_iff_not, ← Members.get?_eq_none_iff, ← Members.get?_eq_none_iff]
      cases hx : Members.get? key as <;> cases hy : Members.get? key bs <;>
        simp_all
    have hlen : (Members.keys as).length = (Members.keys bs).length :=
      ((List.perm_ext_iff_of_nodup ha hb).2 fun key => hkeys key).length_eq
    rw [Members.keys, Members.keys, List.length_map, List.length_map] at hlen
    refine equal_obj.2 ⟨hlen, fun m hm => ?_⟩
    have hm' := h m.1
    rw [Members.get?_of_mem ha hm] at hm'
    cases hy : Members.get? m.1 bs with
    | none =>
      rw [hy] at hm'
      cases hm'
    | some y =>
      rw [hy, Option.rel_some_some] at hm'
      exact ⟨y, rfl, hm'⟩

/-- Two lists are in step exactly when they hold related items at every index, or nothing in
both. -/
theorem forall₂_iff_rel_getElem? {R : Document → Document → Prop} {as bs : List Document} :
    List.Forall₂ R as bs ↔ ∀ i : Nat, Option.Rel R as[i]? bs[i]? := by
  constructor
  · intro h
    induction h with
    | nil => exact fun _ => .none
    | cons hab _ ih =>
      intro i
      cases i with
      | zero => exact .some hab
      | succ i => exact ih i
  · intro h
    induction as generalizing bs with
    | nil =>
      cases bs with
      | nil => exact .nil
      | cons b bs => exact absurd (h 0) Option.not_rel_none_some
    | cons a as ih =>
      cases bs with
      | nil => exact absurd (h 0) Option.not_rel_some_none
      | cons b bs => exact .cons (Option.rel_some_some.1 (h 0)) (ih fun i => h (i + 1))

/-- Two objects, or two arrays, are equal exactly when their parts are. -/
theorem equal_iff_parts {a b : Document} (h : isAlike a b = true) (ha : a.Distinct)
    (hb : b.Distinct) : equal a b = true ↔
      ∀ segment, Option.Rel (fun x y => equal x y = true) (a.part? segment) (b.part? segment) := by
  rcases isAlike_iff.1 h with ⟨as, bs, rfl, rfl⟩ | ⟨as, bs, rfl, rfl⟩
  · exact equal_obj_iff_get? (distinct_obj.1 ha).1 (distinct_obj.1 hb).1
  · rw [equal_arr, forall₂_iff_rel_getElem?]
    constructor
    · intro h segment
      by_cases hindex : ∃ i : Nat, segment = toString i
      · obtain ⟨i, rfl⟩ := hindex
        rw [part?_arr, part?_arr]
        exact h i
      · rw [part?_arr_eq_none hindex, part?_arr_eq_none hindex]
        exact .none
    · intro h i
      have hi := h (toString i)
      rw [part?_arr, part?_arr] at hi
      exact hi

end Document

end SchemaLoom
