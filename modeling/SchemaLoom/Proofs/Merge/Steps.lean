import SchemaLoom.Merge
import SchemaLoom.Proofs.Document.Equality

/-!
# Merging, step by step

What a merge does to objects and to ordered arrays, read off place by place: the value under a key
or at an index of the result, and the conflicts as those of the places.

- `merge_induction`: to prove a property of all merges, prove it of two values of which one stays,
  of two sets, of two ordered arrays from their items and of two objects from their members.
- `memberStep`, `itemStep`: what happens under one key and at one index.
- `get?_mergeMembers`, `conflicts_mergeMembers`: merging objects, by key.
- `getElem?_mergeItems`, `conflicts_mergeItems`: merging ordered arrays, by index.
- `mem_conflicts_mergeMembers`, `mem_conflicts_mergeItems`: where a conflict comes from.
- `get?_mergeMembers_cases`, `getElem?_mergeItems_cases`: where a merged value comes from.
-/

namespace SchemaLoom

variable {g : Grammar}

/-! ## The shapes of a merge -/

/-- Two values that cannot be united: they are not both objects and not both arrays. -/
def Apart (dst src : Document) : Prop :=
  ¬ (dst.isObject = true ∧ src.isObject = true) ∧ ¬ (dst.isArray = true ∧ src.isArray = true)

theorem Apart.symm {dst src : Document} (h : Apart dst src) : Apart src dst :=
  ⟨fun hobj => h.1 hobj.symm, fun harr => h.2 harr.symm⟩

/-- Values that can be united are both objects or both arrays. -/
theorem of_not_apart {dst src : Document} (h : ¬ Apart dst src) :
    (∃ as bs, dst = .obj as ∧ src = .obj bs) ∨ ∃ as bs, dst = .arr as ∧ src = .arr bs := by
  cases dst with
  | obj as =>
    cases src with
    | obj bs => exact .inl ⟨as, bs, rfl, rfl⟩
    | null | bool | num | str | arr =>
      exact absurd ⟨fun e => (nomatch e.2), fun e => (nomatch e.1)⟩ h
  | arr as =>
    cases src with
    | arr bs => exact .inr ⟨as, bs, rfl, rfl⟩
    | null | bool | num | str | obj =>
      exact absurd ⟨fun e => (nomatch e.1), fun e => (nomatch e.2)⟩ h
  | null | bool | num | str =>
    exact absurd ⟨fun e => (nomatch e.1), fun e => (nomatch e.1)⟩ h

theorem mergeAt_leaf {t : Transition} {loc : Location} {dst src : Document} (h : Apart dst src) :
    mergeAt g t loc dst src = mergeLeaf t.behavior.policy loc dst src := by
  cases src with
  | null | bool | num | str => rfl
  | obj src =>
    cases dst with
    | obj => exact absurd ⟨rfl, rfl⟩ h.1
    | null | bool | num | str | arr => rfl
  | arr src =>
    cases dst with
    | arr => exact absurd ⟨rfl, rfl⟩ h.2
    | null | bool | num | str | obj => rfl

theorem mergeAt_obj (t : Transition) (loc : Location) (dst src : Members) :
    mergeAt g t loc (.obj dst) (.obj src) =
      ⟨.obj (mergeMembers g t.node loc dst src).1, (mergeMembers g t.node loc dst src).2⟩ := rfl

theorem mergeAt_list {t : Transition} (h : t.behavior.sortKey = none) (loc : Location)
    (dst src : List Document) :
    mergeAt g t loc (.arr dst) (.arr src) =
      ⟨.arr (mergeItems g t loc 0 dst src).1, (mergeItems g t loc 0 dst src).2⟩ := by
  rw [mergeAt, h]

theorem mergeAt_set {t : Transition} {key : SortKey} (h : t.behavior.sortKey = some key)
    (loc : Location) (dst src : List Document) :
    mergeAt g t loc (.arr dst) (.arr src) = mergeSet key t.behavior.policy loc dst src := by
  rw [mergeAt, h]

/-- Induction along a merge: the values that meet below two objects are those under one key, and
below two ordered arrays those at one index.  Nothing meets below two sets. -/
@[elab_as_elim]
theorem merge_induction (g : Grammar)
    {motive : Transition → Location → Document → Document → Prop}
    (t : Transition) (loc : Location) (dst src : Document)
    (leaf : ∀ t loc dst src, Apart dst src → motive t loc dst src)
    (set : ∀ t loc key dst src, t.behavior.sortKey = some key →
      motive t loc (.arr dst) (.arr src))
    (list : ∀ (t : Transition) (loc : Location) (dst src : List Document),
      t.behavior.sortKey = none →
      (∀ i x y, dst[i]? = some x → src[i]? = some y → motive t (loc.pushIndex i) x y) →
      motive t loc (.arr dst) (.arr src))
    (obj : ∀ (t : Transition) (loc : Location) (dst src : Members),
      (∀ k x y, Members.get? k dst = some x → (k, y) ∈ src →
        motive (g.child t.node k) (loc.push k) x y) →
      motive t loc (.obj dst) (.obj src)) :
    motive t loc dst src := by
  -- the merge recurses on the source, so the destination and the place vary with it
  induction src using Document.induction generalizing t loc dst with
  | null | bool | num | str => exact leaf _ _ _ _ ⟨fun h => (nomatch h.2), fun h => (nomatch h.2)⟩
  | arr src ih =>
    cases dst with
    | arr dst =>
      cases hk : t.behavior.sortKey with
      | some key => exact set t loc key dst src hk
      | none =>
        refine list t loc dst src hk fun i x y _ hy => ?_
        exact ih y (List.mem_of_getElem? hy) t (loc.pushIndex i) x
    | null | bool | num | str | obj =>
      exact leaf _ _ _ _ ⟨fun h => (nomatch h.2), fun h => (nomatch h.1)⟩
  | obj src ih =>
    cases dst with
    | obj dst =>
      refine obj t loc dst src fun k x y _ hy => ?_
      exact ih (k, y) hy (g.child t.node k) (loc.push k) x
    | null | bool | num | str | arr =>
      exact leaf _ _ _ _ ⟨fun h => (nomatch h.1), fun h => (nomatch h.2)⟩

/-! ## Objects -/

/-- What becomes of one member of a source: a key that the destination lacks brings its value, and
under any other key the values are merged. -/
def memberStep (g : Grammar) (node : NodeId) (loc : Location) (dst : Members) (k : String)
    (v : Document) : Merged :=
  match Members.get? k dst with
  | none => ⟨v, []⟩
  | some existing => mergeAt g (g.child node k) (loc.push k) existing v

variable {node : NodeId} {loc : Location}

theorem memberStep_of_none {dst : Members} {k : String} {v : Document}
    (h : Members.get? k dst = none) : memberStep g node loc dst k v = ⟨v, []⟩ := by
  rw [memberStep, h]

theorem memberStep_of_some {dst : Members} {k : String} {v x : Document}
    (h : Members.get? k dst = some x) :
    memberStep g node loc dst k v = mergeAt g (g.child node k) (loc.push k) x v := by
  rw [memberStep, h]

theorem mergeMembers_cons (dst : Members) (k : String) (v : Document) (rest : Members) :
    mergeMembers g node loc dst ((k, v) :: rest) =
      ((mergeMembers g node loc (Members.insert k (memberStep g node loc dst k v).value dst)
          rest).1,
        (memberStep g node loc dst k v).conflicts ++
          (mergeMembers g node loc (Members.insert k (memberStep g node loc dst k v).value dst)
            rest).2) := rfl

/-- A step does not see what was set under another key. -/
theorem memberStep_insert {dst : Members} {k k' : String} (h : k ≠ k') (v w : Document) :
    memberStep g node loc (Members.insert k w dst) k' v = memberStep g node loc dst k' v := by
  rw [memberStep, memberStep, Members.get?_insert, if_neg h]

/-- The value under a key of the united object. -/
theorem get?_mergeMembers {dst src : Members} (hn : (Members.keys src).Nodup) (key : String) :
    Members.get? key (mergeMembers g node loc dst src).1 =
      match Members.get? key src with
      | none => Members.get? key dst
      | some v => some (memberStep g node loc dst key v).value := by
  induction src generalizing dst with
  | nil => rfl
  | cons m rest ih =>
    obtain ⟨k, v⟩ := m
    obtain ⟨hk, hrest⟩ := List.nodup_cons.1 hn
    rw [mergeMembers_cons, ih hrest, Members.get?_cons]
    -- a key comes once in the source, so no later member sets the value of the first one again
    by_cases h : k = key
    · subst h
      rw [if_pos rfl, Members.get?_eq_none_iff.2 hk, Members.get?_insert, if_pos rfl]
    · rw [if_neg h, Members.get?_insert, if_neg h]
      cases Members.get? key rest with
      | none => rfl
      | some w => exact congrArg (fun step => some step.value) (memberStep_insert h w _)

/-- Where the value under a key of the united object comes from: one of the sides that alone has
the key, or a merge of the values of both. -/
theorem get?_mergeMembers_cases {dst src : Members} (hn : (Members.keys src).Nodup) {k : String}
    {z : Document} (h : Members.get? k (mergeMembers g node loc dst src).1 = some z) :
    (Members.get? k dst = some z ∧ Members.get? k src = none) ∨
    (Members.get? k dst = none ∧ Members.get? k src = some z) ∨
    ∃ x y, Members.get? k dst = some x ∧ Members.get? k src = some y ∧
      z = (mergeAt g (g.child node k) (loc.push k) x y).value := by
  rw [get?_mergeMembers hn] at h
  cases hy : Members.get? k src with
  | none =>
    rw [hy] at h
    exact .inl ⟨h, rfl⟩
  | some y =>
    rw [hy] at h
    cases h
    cases hx : Members.get? k dst with
    | none =>
      rw [memberStep_of_none hx]
      exact .inr (.inl ⟨rfl, rfl⟩)
    | some x =>
      rw [memberStep_of_some hx]
      exact .inr (.inr ⟨x, y, rfl, rfl, rfl⟩)

theorem mem_keys_mergeMembers {dst src : Members} (hn : (Members.keys src).Nodup) {key : String} :
    key ∈ Members.keys (mergeMembers g node loc dst src).1 ↔
      key ∈ Members.keys dst ∨ key ∈ Members.keys src := by
  rw [← not_iff_not, ← Members.get?_eq_none_iff, get?_mergeMembers hn, not_or,
    ← Members.get?_eq_none_iff, ← Members.get?_eq_none_iff]
  cases Members.get? key src <;> simp

/-- The conflicts of two objects are those under each key of the source. -/
theorem conflicts_mergeMembers {dst src : Members} (hn : (Members.keys src).Nodup) :
    (mergeMembers g node loc dst src).2 =
      src.flatMap fun m => (memberStep g node loc dst m.1 m.2).conflicts := by
  induction src generalizing dst with
  | nil => rfl
  | cons m rest ih =>
    obtain ⟨k, v⟩ := m
    obtain ⟨hk, hrest⟩ := List.nodup_cons.1 hn
    rw [mergeMembers_cons, ih hrest, List.flatMap_cons]
    refine congrArg _ (List.flatMap_congr fun m hm => ?_)
    have hkey : m.1 ∈ Members.keys rest := Members.mem_keys_of_mem hm
    have hne : k ≠ m.1 := fun e => hk (e ▸ hkey)
    rw [memberStep_insert hne]

/-- A conflict of two objects is one of the values of a key that both have. -/
theorem mem_conflicts_mergeMembers {dst src : Members} (hn : (Members.keys src).Nodup)
    {c : Conflict} :
    c ∈ (mergeMembers g node loc dst src).2 ↔ ∃ k x y, Members.get? k dst = some x ∧
      (k, y) ∈ src ∧ c ∈ (mergeAt g (g.child node k) (loc.push k) x y).conflicts := by
  rw [conflicts_mergeMembers hn, List.mem_flatMap]
  constructor
  · rintro ⟨⟨k, y⟩, hy, hc⟩
    cases hx : Members.get? k dst with
    | none =>
      rw [memberStep_of_none hx] at hc
      cases hc
    | some x =>
      rw [memberStep_of_some hx] at hc
      exact ⟨k, x, y, hx, hy, hc⟩
  · rintro ⟨k, x, y, hx, hy, hc⟩
    refine ⟨(k, y), hy, ?_⟩
    rw [memberStep_of_some hx]
    exact hc

theorem conflicts_mergeMembers_eq_nil_iff {dst src : Members} (hn : (Members.keys src).Nodup) :
    (mergeMembers g node loc dst src).2 = [] ↔
      ∀ k x y, Members.get? k dst = some x → (k, y) ∈ src →
        (mergeAt g (g.child node k) (loc.push k) x y).conflicts = [] := by
  simp only [List.eq_nil_iff_forall_not_mem, mem_conflicts_mergeMembers hn]
  constructor
  · intro h k x y hx hy c hc
    exact h c ⟨k, x, y, hx, hy, hc⟩
  · rintro h c ⟨k, x, y, hx, hy, hc⟩
    exact h k x y hx hy c hc

theorem nodup_keys_insert {ms : Members} (hn : (Members.keys ms).Nodup) (k : String)
    (v : Document) : (Members.keys (Members.insert k v ms)).Nodup := by
  rw [Members.keys_insert]
  split
  next => exact hn
  next hk =>
    refine List.nodup_append.2 ⟨hn, List.nodup_singleton k, fun a ha b hb => ?_⟩
    rw [List.mem_singleton.1 hb]
    exact fun e => hk (e ▸ ha)

theorem nodup_keys_mergeMembers {dst src : Members} (hn : (Members.keys dst).Nodup) :
    (Members.keys (mergeMembers g node loc dst src).1).Nodup := by
  induction src generalizing dst with
  | nil => exact hn
  | cons m rest ih =>
    obtain ⟨k, v⟩ := m
    rw [mergeMembers_cons]
    exact ih (nodup_keys_insert hn k _)

/-! ## Ordered arrays -/

/-- What becomes of the items at one index: equal ones stay, and others are merged. -/
def itemStep (g : Grammar) (t : Transition) (loc : Location) (index : Nat) (d s : Document) :
    Merged :=
  if d == s then ⟨d, []⟩ else mergeAt g t (loc.pushIndex index) d s

variable {t : Transition}

theorem mergeItems_cons (n : Nat) (d s : Document) (dst src : List Document) :
    mergeItems g t loc n (d :: dst) (s :: src) =
      ((itemStep g t loc n d s).value :: (mergeItems g t loc (n + 1) dst src).1,
        (itemStep g t loc n d s).conflicts ++ (mergeItems g t loc (n + 1) dst src).2) := rfl

/-- The item at an index of the united array. -/
theorem getElem?_mergeItems (n : Nat) (dst src : List Document) (i : Nat) :
    (mergeItems g t loc n dst src).1[i]? =
      match dst[i]?, src[i]? with
      | some x, some y => some (itemStep g t loc (n + i) x y).value
      | some x, none => some x
      | none, y => y := by
  induction src generalizing dst n i with
  | nil =>
    rw [mergeItems, List.getElem?_nil]
    cases dst[i]? <;> rfl
  | cons s src ih =>
    cases dst with
    | nil => rw [mergeItems, List.getElem?_nil]
    | cons d dst =>
      rw [mergeItems_cons]
      cases i with
      | zero => rfl
      | succ i =>
        simp only [List.getElem?_cons_succ, ih]
        rw [Nat.add_right_comm, Nat.add_assoc]

theorem length_mergeItems (n : Nat) (dst src : List Document) :
    (mergeItems g t loc n dst src).1.length = max dst.length src.length := by
  induction src generalizing dst n with
  | nil =>
    rw [mergeItems, List.length_nil, Nat.max_zero]
  | cons s src ih =>
    cases dst with
    | nil => simp [mergeItems]
    | cons d dst =>
      rw [mergeItems_cons, List.length_cons, ih, List.length_cons, List.length_cons]
      omega

theorem itemStep_of_equal {n : Nat} {d s : Document} (h : d.equal s = true) :
    itemStep g t loc n d s = ⟨d, []⟩ := by
  rw [itemStep, Document.beq_def, if_pos h]

theorem itemStep_of_not_equal {n : Nat} {d s : Document} (h : ¬ d.equal s = true) :
    itemStep g t loc n d s = mergeAt g t (loc.pushIndex n) d s := by
  rw [itemStep, Document.beq_def, if_neg h]

/-- Where the item at an index of the united array comes from: the longer side, or both, of which
equal items give the first one and others are merged. -/
theorem getElem?_mergeItems_cases {dst src : List Document} {i : Nat} {z : Document}
    (h : (mergeItems g t loc 0 dst src).1[i]? = some z) :
    (dst[i]? = some z ∧ src[i]? = none) ∨ (dst[i]? = none ∧ src[i]? = some z) ∨
    ∃ x y, dst[i]? = some x ∧ src[i]? = some y ∧
      (x.equal y = true ∧ z = x ∨
        ¬ x.equal y = true ∧ z = (mergeAt g t (loc.pushIndex i) x y).value) := by
  rw [getElem?_mergeItems, Nat.zero_add] at h
  cases hx : dst[i]? with
  | none =>
    rw [hx] at h
    exact .inr (.inl ⟨rfl, h⟩)
  | some x =>
    cases hy : src[i]? with
    | none =>
      rw [hx, hy] at h
      exact .inl ⟨h, rfl⟩
    | some y =>
      rw [hx, hy] at h
      cases h
      refine .inr (.inr ⟨x, y, rfl, rfl, ?_⟩)
      by_cases he : x.equal y = true
      · rw [itemStep_of_equal he]
        exact .inl ⟨he, rfl⟩
      · rw [itemStep_of_not_equal he]
        exact .inr ⟨he, rfl⟩

/-- The conflicts of two ordered arrays are those at each index that both have. -/
theorem conflicts_mergeItems (n : Nat) (dst src : List Document) :
    (mergeItems g t loc n dst src).2 =
      ((dst.zip src).zipIdx n).flatMap fun p => (itemStep g t loc p.2 p.1.1 p.1.2).conflicts := by
  induction src generalizing dst n with
  | nil => simp [mergeItems]
  | cons s src ih =>
    cases dst with
    | nil => simp [mergeItems]
    | cons d dst =>
      rw [mergeItems_cons, ih, List.zip_cons_cons, List.zipIdx_cons, List.flatMap_cons]

/-- A conflict of two ordered arrays is one of the unequal items at an index that both have. -/
theorem mem_conflicts_mergeItems {dst src : List Document} {c : Conflict} :
    c ∈ (mergeItems g t loc 0 dst src).2 ↔ ∃ i x y, dst[i]? = some x ∧ src[i]? = some y ∧
      ¬ x.equal y = true ∧ c ∈ (mergeAt g t (loc.pushIndex i) x y).conflicts := by
  rw [conflicts_mergeItems, List.mem_flatMap]
  constructor
  · rintro ⟨⟨⟨x, y⟩, i⟩, hp, hc⟩
    obtain ⟨hx, hy⟩ := List.getElem?_zip_eq_some.1 (List.mk_mem_zipIdx_iff_getElem?.1 hp)
    by_cases he : x.equal y = true
    · rw [itemStep_of_equal he] at hc
      cases hc
    · rw [itemStep_of_not_equal he] at hc
      exact ⟨i, x, y, hx, hy, he, hc⟩
  · rintro ⟨i, x, y, hx, hy, he, hc⟩
    refine ⟨((x, y), i), List.mk_mem_zipIdx_iff_getElem?.2 ?_, ?_⟩
    · exact List.getElem?_zip_eq_some.2 ⟨hx, hy⟩
    · rw [itemStep_of_not_equal he]
      exact hc

/-- Two ordered arrays have no conflict exactly when the items at one index are equal or have none
when they are merged. -/
theorem conflicts_mergeItems_eq_nil_iff {dst src : List Document} :
    (mergeItems g t loc 0 dst src).2 = [] ↔
      ∀ i x y, dst[i]? = some x → src[i]? = some y → ¬ x.equal y = true →
        (mergeAt g t (loc.pushIndex i) x y).conflicts = [] := by
  simp only [List.eq_nil_iff_forall_not_mem, mem_conflicts_mergeItems]
  constructor
  · intro h i x y hx hy he c hc
    exact h c ⟨i, x, y, hx, hy, he, hc⟩
  · rintro h c ⟨i, x, y, hx, hy, he, hc⟩
    exact h i x y hx hy he c hc

end SchemaLoom
