import SchemaLoom.Proofs.Merge.Order
import SchemaLoom.Proofs.Normalization.NormalForms

/-!
# The order of sets

The order in which a document lists the items of its sets does not matter for its normal form,
provided that sort keys tell the items apart.  Where they do not, it does matter: items with one
key stay in the order in which they were written.

- `sets`: the arrays of a document that a normalization sorts, at any depth.
- `SetPerm`: one document is another one with the items of some sets in another order.
- `equal_normalizeAt_setPerm`: if equal keys mean equal items, then every order of the sets has the
  same normal form.
- `equal_of_equal_normalizeAt_item`, `equal_of_equal_normalizeAt_member`: a change below an array or
  an object is still there after a normalization, since one item less and one item more never give
  the same items (`equal_of_forall₂_of_perm`).
- `exists_setPerm`: if some set has unequal items with one key, then some order of the sets has
  another normal form.  The two items change places, and sorting the sets around them cannot undo
  that.
- `normalize_setPerm`: both for whole documents.
-/

namespace SchemaLoom

/-! ## The sets of a document -/

mutual

/-- The arrays of a document that a normalization sorts, with their keys. -/
def setsAt (g : Grammar) (t : Transition) : Document → List (SortKey × List Document)
  | .obj members => setsIn g t.node members
  | .arr items => t.behavior.sortKey.toList.map (·, items) ++ setsAmong g t items
  | _ => []

def setsAmong (g : Grammar) (t : Transition) : List Document → List (SortKey × List Document)
  | [] => []
  | d :: ds => setsAt g t d ++ setsAmong g t ds

def setsIn (g : Grammar) (node : NodeId) :
    List (String × Document) → List (SortKey × List Document)
  | [] => []
  | (k, v) :: ms =>
    (if k = refKey ∧ g.isOpaque node = false then [] else setsAt g (g.child node k) v)
      ++ setsIn g node ms

end

/-- The arrays that a normalization of a document sorts, at any depth: those at a place with a sort
key, except inside of a value under `$ref`. -/
def sets (g : Grammar) (d : Document) : List (SortKey × List Document) :=
  setsAt g g.entry d

variable {g : Grammar} {t : Transition} {scheme : Scheme} {a b d d' : Document}
  {s : SortKey × List Document}

theorem mem_setsAt_arr {items : List Document} :
    s ∈ setsAt g t (.arr items) ↔
      (t.behavior.sortKey = some s.1 ∧ s.2 = items) ∨ ∃ d ∈ items, s ∈ setsAt g t d := by
  have hamong : ∀ ds : List Document, s ∈ setsAmong g t ds ↔ ∃ d ∈ ds, s ∈ setsAt g t d := by
    intro ds
    induction ds with
    | nil => simp [setsAmong]
    | cons d ds ih => simp [setsAmong, ih]
  rw [setsAt, List.mem_append, hamong]
  obtain ⟨key, found⟩ := s
  simp only [List.mem_map, Option.mem_toList, Prod.mk.injEq]
  refine or_congr_left ⟨?_, ?_⟩
  · rintro ⟨k, hk, rfl, rfl⟩
    exact ⟨hk, rfl⟩
  · rintro ⟨hk, rfl⟩
    exact ⟨key, hk, rfl, rfl⟩

theorem mem_setsAt_obj {members : Members} :
    s ∈ setsAt g t (.obj members) ↔ ∃ m ∈ members,
      ¬ (m.1 = refKey ∧ g.isOpaque t.node = false) ∧ s ∈ setsAt g (g.child t.node m.1) m.2 := by
  rw [setsAt]
  induction members with
  | nil => simp [setsIn]
  | cons m ms ih =>
    obtain ⟨k, v⟩ := m
    rw [setsIn, List.mem_append, ih, List.exists_mem_cons_iff]
    refine or_congr_left ?_
    by_cases hk : k = refKey ∧ g.isOpaque t.node = false
    · simp [hk]
    · rw [if_neg hk]
      exact ⟨fun h => ⟨hk, h⟩, And.right⟩

/-! ## Sets in another order -/

mutual

/-- A document with the items of some of its sets in another order, at a place of a grammar. -/
inductive SetPerm (g : Grammar) : Transition → Document → Document → Prop where
  /-- A scalar stays. -/
  | scalar {t : Transition} {a : Document} (ha : a.isScalar = true) : SetPerm g t a a
  /-- The members of an object keep their order. -/
  | obj {t : Transition} {xs ys : Members} (h : SetPermMembers g t.node xs ys) :
      SetPerm g t (.obj xs) (.obj ys)
  /-- The items of an ordered array keep their order. -/
  | list {t : Transition} {xs ys : List Document} (hk : t.behavior.sortKey = none)
      (h : SetPermItems g t xs ys) : SetPerm g t (.arr xs) (.arr ys)
  /-- The items of a set change places, each of them with its own sets in another order. -/
  | set {t : Transition} {key : SortKey} {xs zs ys : List Document}
      (hk : t.behavior.sortKey = some key) (h : SetPermItems g t xs zs) (perm : zs.Perm ys) :
      SetPerm g t (.arr xs) (.arr ys)

/-- Items with their sets in another order, each in its place. -/
inductive SetPermItems (g : Grammar) : Transition → List Document → List Document → Prop where
  | nil {t : Transition} : SetPermItems g t [] []
  | cons {t : Transition} {x y : Document} {xs ys : List Document} (h : SetPerm g t x y)
      (hs : SetPermItems g t xs ys) : SetPermItems g t (x :: xs) (y :: ys)

/-- Members with the sets of their values in another order, each under its key. -/
inductive SetPermMembers (g : Grammar) : NodeId → Members → Members → Prop where
  | nil {node : NodeId} : SetPermMembers g node [] []
  /-- A normalization does not enter what is under the key of references. -/
  | reference {node : NodeId} {k : String} {v : Document} {xs ys : Members}
      (hk : k = refKey ∧ g.isOpaque node = false) (hs : SetPermMembers g node xs ys) :
      SetPermMembers g node ((k, v) :: xs) ((k, v) :: ys)
  | value {node : NodeId} {k : String} {v w : Document} {xs ys : Members}
      (hk : ¬ (k = refKey ∧ g.isOpaque node = false)) (h : SetPerm g (g.child node k) v w)
      (hs : SetPermMembers g node xs ys) :
      SetPermMembers g node ((k, v) :: xs) ((k, w) :: ys)

end

/-- One member with the sets of its value in another order. -/
def MemberSetPerm (g : Grammar) (node : NodeId) (m n : String × Document) : Prop :=
  n.1 = m.1 ∧ (m.1 = refKey ∧ g.isOpaque node = false → n.2 = m.2) ∧
    (¬ (m.1 = refKey ∧ g.isOpaque node = false) → SetPerm g (g.child node m.1) m.2 n.2)

theorem setPermItems_iff {xs ys : List Document} :
    SetPermItems g t xs ys ↔ List.Forall₂ (SetPerm g t) xs ys := by
  constructor
  · intro h
    induction xs generalizing ys with
    | nil =>
      cases h
      exact .nil
    | cons x xs ih =>
      cases h with
      | cons h hs => exact .cons h (ih hs)
  · intro h
    induction h with
    | nil => exact .nil
    | cons h _ ih => exact .cons h ih

theorem setPermMembers_iff {node : NodeId} {xs ys : Members} :
    SetPermMembers g node xs ys ↔ List.Forall₂ (MemberSetPerm g node) xs ys := by
  constructor
  · intro h
    induction xs generalizing ys with
    | nil =>
      cases h
      exact .nil
    | cons x xs ih =>
      cases h with
      | reference hk hs => exact .cons ⟨rfl, fun _ => rfl, fun hne => absurd hk hne⟩ (ih hs)
      | value hk h hs => exact .cons ⟨rfl, fun he => absurd he hk, fun _ => h⟩ (ih hs)
  · intro h
    induction h with
    | nil => exact .nil
    | @cons m n _ _ h _ ih =>
      obtain ⟨k, v⟩ := m
      obtain ⟨l, w⟩ := n
      obtain ⟨hkey, href, hval⟩ := h
      dsimp only at hkey href hval
      subst hkey
      by_cases hk : l = refKey ∧ g.isOpaque node = false
      · rw [href hk]
        exact .reference hk ih
      · exact .value hk (hval hk) ih

namespace SetPerm

/-- The items of an array can be changed in their places, whether it is a set or not. -/
theorem arr {xs ys : List Document} (h : List.Forall₂ (SetPerm g t) xs ys) :
    SetPerm g t (.arr xs) (.arr ys) := by
  cases hk : t.behavior.sortKey with
  | none => exact .list hk (setPermItems_iff.2 h)
  | some key => exact .set hk (setPermItems_iff.2 h) (.refl ys)

theorem members {xs ys : Members} (h : List.Forall₂ (MemberSetPerm g t.node) xs ys) :
    SetPerm g t (.obj xs) (.obj ys) :=
  .obj (setPermMembers_iff.2 h)

theorem refl (g : Grammar) (t : Transition) (d : Document) : SetPerm g t d d := by
  induction d using Document.induction generalizing t with
  | null | bool | num | str => exact .scalar rfl
  | arr items ih => exact arr (List.forall₂_same.2 fun x hx => ih x hx t)
  | obj members ih =>
    exact SetPerm.members (List.forall₂_same.2 fun m hm => ⟨rfl, fun _ => rfl, fun _ => ih m hm _⟩)

/-- One item of an array can be changed. -/
theorem item {pre post : List Document} (h : SetPerm g t a b) :
    SetPerm g t (.arr (pre ++ a :: post)) (.arr (pre ++ b :: post)) := by
  have hsame : ∀ ds : List Document, List.Forall₂ (SetPerm g t) ds ds :=
    fun ds => List.forall₂_same.2 fun d _ => refl g t d
  exact arr (List.rel_append (hsame pre) (.cons h (hsame post)))

/-- One member of an object can be changed. -/
theorem member {pre post : Members} {k : String}
    (hk : ¬ (k = refKey ∧ g.isOpaque t.node = false)) (h : SetPerm g (g.child t.node k) a b) :
    SetPerm g t (.obj (pre ++ (k, a) :: post)) (.obj (pre ++ (k, b) :: post)) := by
  have hsame : ∀ ms : Members, List.Forall₂ (MemberSetPerm g t.node) ms ms :=
    fun ms => List.forall₂_same.2 fun m _ => ⟨rfl, fun _ => rfl, fun _ => refl g _ m.2⟩
  have hmember : MemberSetPerm g t.node (k, a) (k, b) :=
    ⟨rfl, fun he => absurd he hk, fun _ => h⟩
  exact members (List.rel_append (hsame pre) (.cons hmember (hsame post)))

end SetPerm

/-- Putting sets in another order keeps documents such that sort keys can be trusted. -/
theorem keyable_of_setPerm (h : SetPerm g t d d') (hd : d.Keyable) : d'.Keyable := by
  induction d using Document.induction generalizing t d' with
  | null | bool | num | str =>
    cases h
    exact hd
  | arr xs ih =>
    rw [Document.keyable_arr] at hd
    have hitems : ∀ zs, SetPermItems g t xs zs → ∀ z ∈ zs, z.Keyable := by
      intro zs hzs z hz
      obtain ⟨x, hx, hxz⟩ := exists_mem_of_forall₂ (setPermItems_iff.1 hzs) hz
      exact ih x hx hxz (hd x hx)
    cases h with
    | scalar ha => cases ha
    | list hk h => exact Document.keyable_arr.2 (hitems _ h)
    | set hk h perm =>
      exact Document.keyable_arr.2 fun y hy => hitems _ h y (perm.mem_iff.2 hy)
  | obj xs ih =>
    obtain ⟨hn, hd⟩ := Document.keyable_obj.1 hd
    cases h with
    | scalar ha => cases ha
    | @obj _ _ ys h =>
      rw [setPermMembers_iff] at h
      have hkeys : Members.keys ys = Members.keys xs :=
        (map_eq_map_of_forall₂ (forall₂_imp h fun m _ n _ hmn => hmn.1.symm)).symm
      refine Document.keyable_obj.2 ⟨hkeys ▸ hn, fun n hmem => ?_⟩
      obtain ⟨m, hm, -, href, hval⟩ := exists_mem_of_forall₂ h hmem
      by_cases hk : m.1 = refKey ∧ g.isOpaque t.node = false
      · rw [href hk]
        exact hd m hm
      · exact ih m hm (hval hk) (hd m hm)

/-! ## Where keys tell items apart -/

/-- Lists that hold equal items, in any order, are sorted to equal lists, if items with one key are
equal. -/
theorem equal_sortByKey_of_perm {key : SortKey} {xs ys zs : List Document}
    (hxs : ∀ x ∈ xs, x.Keyable) (hzs : ∀ z ∈ zs, z.Keyable) (hperm : xs.Perm ys)
    (h : List.Forall₂ (fun y z => Document.equal y z = true) ys zs)
    (hc : Consistent key (sortByKey key.key zs)) :
    Document.equal (.arr (sortByKey key.key xs)) (.arr (sortByKey key.key zs)) = true := by
  have hys : ∀ y ∈ ys, y.Keyable := fun y hy => hxs y (hperm.mem_iff.2 hy)
  -- item by item the keys are the same, and sorting forgets the order they come in
  have hkeys : (xs.map key.key).Perm (zs.map key.key) := by
    have hsame : ys.map key.key = zs.map key.key :=
      map_eq_map_of_forall₂ (forall₂_imp h fun y hy z hz => key.key_eq_of_equal (hys y hy) (hzs z hz))
    rw [← hsame]
    exact hperm.map key.key
  have hx : Document.Keyable (.arr (sortByKey key.key xs)) :=
    Document.keyable_arr.2 fun x hx => hxs x (sortByKey_perm.mem_iff.1 hx)
  have hz : Document.Keyable (.arr (sortByKey key.key zs)) :=
    Document.keyable_arr.2 fun z hz => hzs z (sortByKey_perm.mem_iff.1 hz)
  refine equal_arr_of_map_key_eq hx hz (map_sortByKey_eq_of_perm hkeys) (fun x hx => ?_) hc
  have hmem : x ∈ ys := hperm.mem_iff.1 (sortByKey_perm.mem_iff.1 hx)
  obtain ⟨z, hz, hxz⟩ := exists_mem_of_forall₂ h.flip hmem
  exact ⟨z, sortByKey_perm.mem_iff.2 hz, hxz⟩

/-- If items with one key are equal in every set of the normal form, then a document with its sets
in another order has an equal normal form. -/
theorem equal_normalizeAt_setPerm (h : SetPerm g t d d') (hd : d.Keyable)
    (hc : ∀ s ∈ setsAt g t (normalizeAt g scheme t d), Consistent s.1 s.2) :
    (normalizeAt g scheme t d').equal (normalizeAt g scheme t d) = true := by
  induction d using Document.induction generalizing t d' with
  | null | bool | num | str =>
    cases h
    exact Document.equal_refl (distinct_normalizeAt hd.distinct)
  | arr xs ih =>
    have hd' := keyable_of_setPerm h hd
    rw [Document.keyable_arr] at hd
    rw [normalizeAt_arr] at hc
    -- the sets of an item are among those of the array
    have hitems : ∀ x ∈ xs, ∀ z, SetPerm g t x z →
        (normalizeAt g scheme t z).equal (normalizeAt g scheme t x) = true := by
      intro x hx z hxz
      refine ih x hx hxz (hd x hx) fun s hs => hc s (mem_setsAt_arr.2 (.inr ?_))
      exact ⟨_, mem_arrange_map.2 ⟨x, hx, rfl⟩, hs⟩
    have hnormal : ∀ zs, SetPermItems g t xs zs →
        List.Forall₂ (fun y z => Document.equal y z = true) (zs.map (normalizeAt g scheme t))
          (xs.map (normalizeAt g scheme t)) := by
      intro zs hzs
      rw [List.forall₂_map_left_iff, List.forall₂_map_right_iff]
      refine List.Forall₂.flip (forall₂_imp (setPermItems_iff.1 hzs) fun x hx z _ hxz => ?_)
      exact hitems x hx z hxz
    cases h with
    | scalar ha => cases ha
    | list hk h =>
      rw [normalizeAt_arr, normalizeAt_arr, arrange_list hk, arrange_list hk, Document.equal_arr]
      exact hnormal _ h
    | @set _ key _ zs ys hk h perm =>
      have hc : Consistent key (sortByKey key.key (xs.map (normalizeAt g scheme t))) := by
        rw [← arrange_set hk]
        exact hc (key, _) (mem_setsAt_arr.2 (.inl ⟨hk, rfl⟩))
      rw [normalizeAt_arr, normalizeAt_arr, arrange_set hk, arrange_set hk]
      refine equal_sortByKey_of_perm ?_ ?_ (perm.symm.map _) (hnormal zs h) hc
      · intro z hz
        obtain ⟨y, hy, rfl⟩ := List.mem_map.1 hz
        exact keyable_normalizeAt (Document.keyable_arr.1 hd' y hy)
      · intro z hz
        obtain ⟨x, hx, rfl⟩ := List.mem_map.1 hz
        exact keyable_normalizeAt (hd x hx)
  | obj xs ih =>
    obtain ⟨hn, hd⟩ := Document.keyable_obj.1 hd
    rw [normalizeAt_obj] at hc
    cases h with
    | scalar ha => cases ha
    | @obj _ _ ys h =>
      rw [setPermMembers_iff] at h
      rw [normalizeAt_obj, normalizeAt_obj, Document.equal_obj]
      refine ⟨by rw [List.length_map, List.length_map, h.length_eq], fun z hz => ?_⟩
      obtain ⟨n, hmem, rfl⟩ := List.mem_map.1 hz
      obtain ⟨m, hm, hkey, href, hval⟩ := exists_mem_of_forall₂ h hmem
      refine ⟨normalizeMember g scheme t.node m, ?_, ?_⟩
      · show Members.get? n.1 _ = _
        rw [hkey, Members.get?_map, Members.get?_of_mem hn hm]
        rfl
      · show (normalizeMember g scheme t.node n).equal (normalizeMember g scheme t.node m) = true
        unfold normalizeMember
        rw [hkey]
        by_cases hk : m.1 = refKey ∧ g.isOpaque t.node = false
        · rw [if_pos hk, if_pos hk, href hk]
          exact equal_adjustReference (Document.equal_refl (hd m hm).distinct)
        · rw [if_neg hk, if_neg hk]
          refine ih m hm (hval hk) (hd m hm) fun s hs => hc s (mem_setsAt_obj.2 ?_)
          refine ⟨_, List.mem_map_of_mem hm, hk, ?_⟩
          show s ∈ setsAt g (g.child t.node m.1) (normalizeMember g scheme t.node m)
          rw [normalizeMember_of_not hk]
          exact hs

/-! ## Where they do not -/

/-- Lists in step that hold the same items but for one have equal items there. -/
theorem equal_of_forall₂_of_perm {as bs rest : List Document}
    (has : as.Perm (a :: rest)) (hbs : bs.Perm (b :: rest)) (hda : ∀ x ∈ as, x.Distinct)
    (hdb : ∀ y ∈ bs, y.Distinct)
    (h : List.Forall₂ (fun x y => Document.equal x y = true) as bs) : a.equal b = true := by
  have ha : a.Distinct := hda a (has.mem_iff.2 List.mem_cons_self)
  have hstep : List.Forall₂ (fun x y => x.equal y = true ∧ x.Distinct ∧ y.Distinct) as bs :=
    forall₂_imp h fun x hx y hy hxy => ⟨hxy, hda x hx, hdb y hy⟩
  -- the items that equal the first one are as many in both lists
  have hfilter : List.Forall₂ (fun x y => x.equal y = true ∧ x.Distinct ∧ y.Distinct)
      (as.filter a.equal) (bs.filter a.equal) := by
    refine List.rel_filter (fun x y hxy => ?_) hstep
    obtain ⟨hxy, hx, hy⟩ := hxy
    constructor
    · exact fun hax => Document.equal_trans hax hxy
    · exact fun hay => Document.equal_trans hay (Document.equal_symm hx hy hxy)
  have hcount : as.countP a.equal = bs.countP a.equal := by
    rw [List.countP_eq_length_filter, List.countP_eq_length_filter, hfilter.length_eq]
  rw [has.countP_eq, hbs.countP_eq, List.countP_cons, List.countP_cons,
    if_pos (Document.equal_refl ha)] at hcount
  by_contra hne
  rw [if_neg hne] at hcount
  omega

/-- If one item of an array is changed and the normal form stays, then so does that of the item:
wherever the array is sorted, it holds one item less and one item more. -/
theorem equal_of_equal_normalizeAt_item {pre post : List Document}
    (ha : Document.Keyable (.arr (pre ++ a :: post)))
    (hb : Document.Keyable (.arr (pre ++ b :: post)))
    (h : (normalizeAt g scheme t (.arr (pre ++ a :: post))).equal
      (normalizeAt g scheme t (.arr (pre ++ b :: post))) = true) :
    (normalizeAt g scheme t a).equal (normalizeAt g scheme t b) = true := by
  rw [normalizeAt_arr, normalizeAt_arr, Document.equal_arr] at h
  have hperm : ∀ y, (arrange t.behavior ((pre ++ y :: post).map (normalizeAt g scheme t))).Perm
      (normalizeAt g scheme t y :: (pre ++ post).map (normalizeAt g scheme t)) :=
    fun y => (arrange_perm _ _).trans (List.perm_middle.map (normalizeAt g scheme t))
  have hdistinct : ∀ ds : List Document, Document.Keyable (.arr ds) →
      ∀ z ∈ arrange t.behavior (ds.map (normalizeAt g scheme t)), z.Distinct := by
    intro ds hds z hz
    obtain ⟨y, hy, rfl⟩ := mem_arrange_map.1 hz
    exact distinct_normalizeAt (Document.keyable_arr.1 hds y hy).distinct
  exact equal_of_forall₂_of_perm (hperm a) (hperm b) (hdistinct _ ha) (hdistinct _ hb) h

/-- If the value of one member is changed and the normal form stays, then so does that of the
value. -/
theorem equal_of_equal_normalizeAt_member {pre post : Members} {k : String}
    (hn : (Members.keys (pre ++ (k, b) :: post)).Nodup)
    (hk : ¬ (k = refKey ∧ g.isOpaque t.node = false))
    (h : (normalizeAt g scheme t (.obj (pre ++ (k, a) :: post))).equal
      (normalizeAt g scheme t (.obj (pre ++ (k, b) :: post))) = true) :
    (normalizeAt g scheme (g.child t.node k) a).equal
      (normalizeAt g scheme (g.child t.node k) b) = true := by
  rw [normalizeAt_obj, normalizeAt_obj, Document.equal_obj] at h
  have hmem : ∀ v, (k, v) ∈ pre ++ (k, v) :: post :=
    fun v => List.mem_append_right pre List.mem_cons_self
  obtain ⟨w, hw, haw⟩ := h.2 _ (List.mem_map_of_mem (hmem a))
  rw [Members.get?_map, Members.get?_of_mem hn (hmem b)] at hw
  cases hw
  have haw : (normalizeMember g scheme t.node (k, a)).equal
      (normalizeMember g scheme t.node (k, b)) = true := haw
  rw [normalizeMember_of_not hk, normalizeMember_of_not hk] at haw
  exact haw

/-- If unequal items of a sorted list have one key, then the list is sorted differently once a
certain item is put in front. -/
theorem exists_front_of_not_consistent {key : SortKey} {items : List Document}
    (hi : ∀ d ∈ items, d.Keyable) (hc : ¬ Consistent key (sortByKey key.key items)) :
    ∃ pre e post, items = pre ++ e :: post ∧
      ¬ List.Forall₂ (fun x y => Document.equal x y = true)
        (sortByKey key.key (e :: (pre ++ post))) (sortByKey key.key items) := by
  obtain ⟨a, ha, b, hb, hab, hne⟩ : ∃ a ∈ sortByKey key.key items, ∃ b ∈ sortByKey key.key items,
      key.key a = key.key b ∧ ¬ a.equal b = true := by
    simpa [Consistent] using hc
  -- the items with that key keep their order, so it is enough to change which one comes first
  have hmem : ∀ d ∈ sortByKey key.key items, key.key d = key.key a →
      d ∈ items.filter fun d => key.key d = key.key a :=
    fun d hd hkey => List.mem_filter.2 ⟨sortByKey_perm.mem_iff.1 hd, decide_eq_true hkey⟩
  have ha := hmem a ha rfl
  have hb := hmem b hb hab.symm
  have hkeyed : ∀ d ∈ items.filter (fun d => key.key d = key.key a), d.Distinct :=
    fun d hd => (hi d (List.mem_filter.1 hd).1).distinct
  cases hfirst : items.filter fun d => key.key d = key.key a with
  | nil =>
    rw [hfirst] at ha
    cases ha
  | cons c rest =>
    obtain ⟨e, he, hec⟩ : ∃ e ∈ items.filter (fun d => key.key d = key.key a),
        ¬ e.equal c = true := by
      by_contra hall
      push Not at hall
      have hc : c.Distinct := hkeyed c (hfirst ▸ List.mem_cons_self)
      have hcb := Document.equal_symm (hkeyed b hb) hc (hall b hb)
      exact hne (Document.equal_trans (hall a ha) hcb)
    obtain ⟨he, hkey⟩ := List.mem_filter.1 he
    obtain ⟨pre, post, hsplit⟩ := List.append_of_mem he
    refine ⟨pre, e, post, hsplit, fun h => hec ?_⟩
    have hkeys : ∀ x ∈ e :: (pre ++ post), ∀ y ∈ items, x.equal y = true →
        key.key x = key.key y := by
      intro x hx y hy hxy
      have hx : x ∈ items := by
        rw [hsplit]
        exact List.perm_middle.mem_iff.2 hx
      exact key.key_eq_of_equal (hi x hx) (hi y hy) hxy
    have hstep := forall₂_filter_of_sortByKey hkeys h (key.key a)
    rw [hfirst, List.filter_cons, if_pos hkey] at hstep
    cases hstep with
    | cons hfront _ => exact hfront

/-- If some set of the normal form has unequal items with one key, then the document with its sets
in a certain other order has another normal form. -/
theorem exists_setPerm (hd : d.Keyable) (hs : s ∈ setsAt g t (normalizeAt g scheme t d))
    (hc : ¬ Consistent s.1 s.2) :
    ∃ d', SetPerm g t d d' ∧
      ¬ (normalizeAt g scheme t d').equal (normalizeAt g scheme t d) = true := by
  induction d using Document.induction generalizing t with
  | null | bool | num | str => cases hs
  | arr xs ih =>
    have hd' := hd
    rw [Document.keyable_arr] at hd
    rw [normalizeAt_arr] at hs
    rcases mem_setsAt_arr.1 hs with ⟨hk, hitems⟩ | ⟨z, hz, hs⟩
    · rw [hitems, arrange_set hk] at hc
      have hnormal : ∀ y ∈ xs.map (normalizeAt g scheme t), y.Keyable := by
        intro y hy
        obtain ⟨x, hx, rfl⟩ := List.mem_map.1 hy
        exact keyable_normalizeAt (hd x hx)
      obtain ⟨pre, e, post, hsplit, hne⟩ := exists_front_of_not_consistent hnormal hc
      obtain ⟨us, vs, rfl, rfl, hvs⟩ := List.map_eq_append_iff.1 hsplit
      obtain ⟨x, ws, rfl, rfl, rfl⟩ := List.map_eq_cons_iff.1 hvs
      have hsame := setPermItems_iff.2
        (List.forall₂_same.2 fun y (_ : y ∈ us ++ x :: ws) => SetPerm.refl g t y)
      refine ⟨.arr (x :: (us ++ ws)), .set hk hsame List.perm_middle, ?_⟩
      rw [normalizeAt_arr, normalizeAt_arr, arrange_set hk, arrange_set hk, Document.equal_arr,
        List.map_cons, List.map_append]
      exact hne
    · obtain ⟨x, hx, rfl⟩ := mem_arrange_map.1 hz
      obtain ⟨x', hxx', hne⟩ := ih x hx (hd x hx) hs
      obtain ⟨pre, post, rfl⟩ := List.append_of_mem hx
      have hkey' := keyable_of_setPerm (.item hxx') hd'
      exact ⟨.arr (pre ++ x' :: post), .item hxx',
        fun h => hne (equal_of_equal_normalizeAt_item hkey' hd' h)⟩
  | obj members ih =>
    obtain ⟨hn, hd⟩ := Document.keyable_obj.1 hd
    rw [normalizeAt_obj] at hs
    obtain ⟨z, hz, hk, hs⟩ := mem_setsAt_obj.1 hs
    obtain ⟨m, hm, rfl⟩ := List.mem_map.1 hz
    dsimp only at hk hs
    rw [normalizeMember_of_not hk] at hs
    obtain ⟨v, hv, hne⟩ := ih m hm (hd m hm) hs
    obtain ⟨pre, post, rfl⟩ := List.append_of_mem hm
    exact ⟨.obj (pre ++ (m.1, v) :: post), .member hk hv,
      fun h => hne (equal_of_equal_normalizeAt_member hn hk h)⟩

/-! ## Whole documents -/

/-- A path with one operation, which has the given parameters. -/
def operationWith (parameters : List Document) : Document :=
  .obj [("paths", .obj [("/p", .obj [("get", .obj [("parameters", .arr parameters)])])])]

/-- A query parameter with a description. -/
def queryParameter (name description : String) : Document :=
  .obj [("in", .str "query"), ("name", .str name), ("description", .str description)]

/-- Two query parameters in the order of their keys stay in that order. -/
theorem normalize_operationWith {a b text text' : String}
    (h : (SortKey.identity ["in", "name"]).key (queryParameter a text) ≤
      (SortKey.identity ["in", "name"]).key (queryParameter b text')) :
    normalize .openApi .default (operationWith [queryParameter a text, queryParameter b text']) =
      operationWith [queryParameter a text, queryParameter b text'] := by
  have hsorted : sortByKey (SortKey.identity ["in", "name"]).key
      [queryParameter a text, queryParameter b text'] =
        [queryParameter a text, queryParameter b text'] :=
    sortByKey_of_pairwise (List.pairwise_pair.2 h)
  exact congrArg operationWith hsorted

/-- The order of the sets of a document does not matter for its normal form if equal keys mean equal
items in every set of the normal form, and it does matter if some set has unequal items with one
key. -/
theorem normalize_setPerm (hd : d.Keyable) :
    ((∀ s ∈ sets g (normalize g scheme d), Consistent s.1 s.2) →
      ∀ d', SetPerm g g.entry d d' → (normalize g scheme d' == normalize g scheme d) = true) ∧
    ((∃ s ∈ sets g (normalize g scheme d), ∃ a ∈ s.2, ∃ b ∈ s.2,
        s.1.key a = s.1.key b ∧ (a == b) = false) →
      ∃ d', SetPerm g g.entry d d' ∧ (normalize g scheme d' == normalize g scheme d) = false) := by
  constructor
  · intro hc d' h
    exact equal_normalizeAt_setPerm h hd hc
  · rintro ⟨s, hs, a, ha, b, hb, hab, hne⟩
    have hc : ¬ Consistent s.1 s.2 := by
      intro hc
      rw [Document.beq_def, hc a ha b hb hab] at hne
      cases hne
    obtain ⟨d', hperm, h⟩ := exists_setPerm hd hs hc
    exact ⟨d', hperm, Bool.eq_false_iff.2 h⟩

/-- The order of parameters of different names does not matter, and that of two of one name does. -/
theorem normalize_setPerm_parameters :
    (∀ d', SetPerm .openApi Grammar.openApi.entry
        (operationWith [queryParameter "a" "", queryParameter "b" ""]) d' →
      (normalize .openApi .default d' == normalize .openApi .default
        (operationWith [queryParameter "a" "", queryParameter "b" ""])) = true) ∧
    ∃ d', SetPerm .openApi Grammar.openApi.entry
        (operationWith [queryParameter "a" "first", queryParameter "a" "second"]) d' ∧
      (normalize .openApi .default d' == normalize .openApi .default
        (operationWith [queryParameter "a" "first", queryParameter "a" "second"])) = false := by
  have hnames : (operationWith [queryParameter "a" "", queryParameter "b" ""]).Keyable :=
    ⟨by decide, by decide⟩
  have htie : (operationWith [queryParameter "a" "first", queryParameter "a" "second"]).Keyable :=
    ⟨by decide, by decide⟩
  refine ⟨(normalize_setPerm hnames).1 ?_, (normalize_setPerm htie).2 ?_⟩
  · rw [normalize_operationWith (by decide +kernel)]
    decide +kernel
  · rw [normalize_operationWith (by decide +kernel)]
    decide +kernel

end SchemaLoom
