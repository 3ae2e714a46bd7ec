import SchemaLoom.Proofs.Grammar
import SchemaLoom.Proofs.Merge.Order
import SchemaLoom.Proofs.Merge.Sets
import SchemaLoom.Proofs.Merge.Steps

/-!
# A merge is the least document above both sides

- `below_mergeAt_left`: the destination is below the merged value, if there is no conflict or the
  value that was there first always stays.
- `below_mergeAt_right`: the source is below the merged value, if there is no conflict.
- `mergeAt_below`: the merged value is below everything that both sides are below.
- `conflicts_eq_nil_of_below`: sides below one orderly document have no conflict.
- `merge_least`: the first three for whole documents.
- `Grammar.openApi_keepsFirst`: in the grammar of OpenAPI the first value always stays.
-/

namespace SchemaLoom

variable {g : Grammar} {t : Transition} {loc : Location} {dst src u : Document}

/-! ## Grammars that keep the first value -/

/-- Wherever a grammar leads, the value that was there first stays. -/
def Grammar.KeepsFirst (g : Grammar) : Prop :=
  ∀ node key, (g.child node key).behavior.policy = .keep

/-- A key leads along a transition that the node spells out, or keeps the first value. -/
theorem Node.child_mem_or_keep (n : Node) (key : String) :
    n.child key ∈ n.transitions ∨ (n.child key).behavior.policy = .keep := by
  have hkeep : ∀ t ∈ n.fallbacks, t.behavior.policy = .keep := by
    cases n <;> simp [fallbacks, Transition.data, Transition.plain, Behavior.default]
  exact (n.child_mem key).imp_right (hkeep _)

/-- It is enough to look at the transitions that the nodes spell out. -/
theorem Grammar.keepsFirst_of_transitions
    (h : ∀ n ∈ g.nodes, ∀ t ∈ n.transitions, t.behavior.policy = .keep) : g.KeepsFirst := by
  intro node key
  rw [Grammar.child, Grammar.node]
  cases hn : g.nodes[node.index]? with
  | none => rfl
  | some n =>
    rw [Option.getD_some]
    rcases n.child_mem_or_keep key with hmem | hkeep
    · exact h n (List.mem_of_getElem? hn) _ hmem
    · exact hkeep

theorem Grammar.openApi_keepsFirst : Grammar.openApi.KeepsFirst :=
  keepsFirst_of_transitions (by decide +kernel)

/-- The value that was there first stays at a place and everywhere below it. -/
def KeepsAt (g : Grammar) (t : Transition) : Prop :=
  g.KeepsFirst ∧ t.behavior.policy = .keep

/-! ## Leaves -/

theorem mergeLeaf_of_equal {policy : Policy} (h : dst.equal src = true) :
    mergeLeaf policy loc dst src = ⟨dst, []⟩ := by
  unfold mergeLeaf
  rw [Document.beq_def, if_pos h]

/-- Values without a conflict are equal. -/
theorem equal_of_conflicts_mergeLeaf {policy : Policy}
    (h : (mergeLeaf policy loc dst src).conflicts = []) : dst.equal src = true := by
  by_contra hne
  unfold mergeLeaf at h
  rw [Document.beq_def, if_neg hne] at h
  cases policy <;> cases h

theorem value_mergeLeaf {policy : Policy}
    (h : (mergeLeaf policy loc dst src).conflicts = [] ∨ policy = .keep) :
    (mergeLeaf policy loc dst src).value = dst := by
  by_cases he : dst.equal src = true
  · rw [mergeLeaf_of_equal he]
  · rcases h with h | rfl
    · exact absurd (equal_of_conflicts_mergeLeaf h) he
    · unfold mergeLeaf
      rw [Document.beq_def, if_neg he]

/-- One of two values stays, and so does what holds of both. -/
theorem value_mergeLeaf_of {p : Document → Prop} {policy : Policy} (hdst : p dst) (hsrc : p src) :
    p (mergeLeaf policy loc dst src).value := by
  unfold mergeLeaf
  split
  · exact hdst
  · cases policy with
    | keep => exact hdst
    | replace => exact hsrc

/-! ## Above both sides -/

/-- The destination is below the merged value. -/
theorem below_mergeAt_left (hdst : dst.Distinct) (hsrc : src.Distinct)
    (hsets : EverySet g Consistent t dst)
    (h : (mergeAt g t loc dst src).conflicts = [] ∨ KeepsAt g t) :
    Below g t dst (mergeAt g t loc dst src).value := by
  induction t, loc, dst, src using merge_induction g with
  | leaf t loc dst src hap =>
    rw [mergeAt_leaf hap] at h ⊢
    rw [value_mergeLeaf (h.imp_right And.right)]
    exact .refl hdst
  | set t loc key dst src hk =>
    rw [mergeAt_set hk, conflicts_mergeSet] at h
    rw [mergeAt_set hk, value_mergeSet]
    refine .set hk fun x hx => ?_
    -- only the last item with a key is held, but all items with that key are equal
    obtain ⟨e, he, hkey, hget⟩ := exists_get?_keyItems hx
    have hkept := get?_mergeSetItems_kept (h.symm.imp_left And.right) hget
    have hxe := (everySet_set hk).1 hsets x hx e he hkey.symm
    exact ⟨e, SortedMap.mem_values_iff.2 ⟨_, hkept⟩, hxe⟩
  | list t loc dst src hk ih =>
    rw [mergeAt_list hk] at h ⊢
    rw [conflicts_mergeItems_eq_nil_iff] at h
    rw [Document.distinct_arr] at hdst hsrc
    rw [everySet_list hk] at hsets
    refine .list hk ?_ fun i x z hx hz => ?_
    · rw [length_mergeItems]
      exact Nat.le_max_left ..
    · have hmx := List.mem_of_getElem? hx
      have hxd := hdst x hmx
      rcases getElem?_mergeItems_cases hz with
        ⟨hx', -⟩ | ⟨hx', -⟩ | ⟨x', y, hx', hy, ⟨-, rfl⟩ | ⟨he, rfl⟩⟩ <;>
        rw [hx] at hx' <;> cases hx'
      · exact .refl hxd
      · exact .refl hxd
      · refine ih i x y hx hy hxd (hsrc y (List.mem_of_getElem? hy)) (hsets x hmx) ?_
        exact h.imp_left fun h => h i x y hx hy he
  | obj t loc dst src ih =>
    obtain ⟨hn, hsrc⟩ := Document.distinct_obj.1 hsrc
    rw [mergeAt_obj] at h ⊢
    rw [conflicts_mergeMembers_eq_nil_iff hn] at h
    rw [everySet_obj] at hsets
    refine .obj (fun k hk => ?_) fun k x z hx hz => ?_
    · exact (mem_keys_mergeMembers hn).2 (.inl hk)
    · have hxd : x.Distinct := hdst.get? hx
      rcases get?_mergeMembers_cases hn hz with
        ⟨hx', -⟩ | ⟨hx', -⟩ | ⟨x', y, hx', hy, rfl⟩ <;> rw [hx] at hx' <;> cases hx'
      · exact .refl hxd
      · have hmy := Members.mem_of_get? hy
        refine ih k x y hx hmy hxd (hsrc _ hmy) (hsets _ (Members.mem_of_get? hx)) ?_
        -- where the first value stays everywhere, it stays under this key too
        exact h.imp (fun h => h k x y hx hmy) fun h => ⟨h.1, h.1 t.node k⟩

/-- Without conflicts the source is below the merged value. -/
theorem below_mergeAt_right (hdst : dst.Distinct) (hsrc : src.Distinct)
    (h : (mergeAt g t loc dst src).conflicts = []) :
    Below g t src (mergeAt g t loc dst src).value := by
  induction t, loc, dst, src using merge_induction g with
  | leaf t loc dst src hap =>
    rw [mergeAt_leaf hap] at h ⊢
    rw [value_mergeLeaf (.inl h)]
    exact .of_equal (Document.equal_symm hdst hsrc (equal_of_conflicts_mergeLeaf h))
  | set t loc key dst src hk =>
    rw [mergeAt_set hk, conflicts_mergeSet] at h
    rw [mergeAt_set hk, value_mergeSet]
    rw [Document.distinct_arr] at hdst hsrc
    refine .set hk fun y hy => ?_
    obtain ⟨d, hget, hdy⟩ := exists_get?_mergeSetItems h hy (hsrc y hy)
    have hmem : d ∈ unitedItems key t.behavior.policy loc dst src :=
      SortedMap.mem_values_iff.2 ⟨_, hget⟩
    have hd : d.Distinct := (mem_unitedItems hmem).elim (hdst d) (hsrc d)
    exact ⟨d, hmem, Document.equal_symm hd (hsrc y hy) hdy⟩
  | list t loc dst src hk ih =>
    rw [mergeAt_list hk] at h ⊢
    rw [conflicts_mergeItems_eq_nil_iff] at h
    rw [Document.distinct_arr] at hdst hsrc
    refine .list hk ?_ fun i y z hy hz => ?_
    · rw [length_mergeItems]
      exact Nat.le_max_right ..
    · have hyd := hsrc y (List.mem_of_getElem? hy)
      rcases getElem?_mergeItems_cases hz with
        ⟨-, hy'⟩ | ⟨-, hy'⟩ | ⟨x, y', hx, hy', ⟨he, rfl⟩ | ⟨he, rfl⟩⟩ <;>
        rw [hy] at hy' <;> cases hy'
      · exact .refl hyd
      · -- the first of two equal items stays, so the second is below it by equality
        exact .of_equal (Document.equal_symm (hdst _ (List.mem_of_getElem? hx)) hyd he)
      · exact ih i x y hx hy (hdst x (List.mem_of_getElem? hx)) hyd (h i x y hx hy he)
  | obj t loc dst src ih =>
    obtain ⟨hn, hsrc⟩ := Document.distinct_obj.1 hsrc
    rw [mergeAt_obj] at h ⊢
    rw [conflicts_mergeMembers_eq_nil_iff hn] at h
    refine .obj (fun k hk => (mem_keys_mergeMembers hn).2 (.inr hk)) fun k y z hy hz => ?_
    have hmy := Members.mem_of_get? hy
    rcases get?_mergeMembers_cases hn hz with
      ⟨-, hy'⟩ | ⟨-, hy'⟩ | ⟨x, y', hx, hy', rfl⟩ <;> rw [hy] at hy' <;> cases hy'
    · exact .refl (hsrc _ hmy)
    · exact ih k x y hx hmy (hdst.get? hx) (hsrc _ hmy) (h k x y hx hmy)

/-! ## Below every upper bound -/

/-- The merged value is below everything that both sides are below, with or without conflicts. -/
theorem mergeAt_below (hsrc : src.Distinct) (hd : Below g t dst u) (hs : Below g t src u) :
    Below g t (mergeAt g t loc dst src).value u := by
  induction t, loc, dst, src using merge_induction g generalizing u with
  | leaf t loc dst src hap =>
    rw [mergeAt_leaf hap]
    exact value_mergeLeaf_of (p := fun z => Below g t z u) hd hs
  | set t loc key dst src hk =>
    rw [mergeAt_set hk, value_mergeSet]
    obtain ⟨us, rfl⟩ := hd.arr_right
    rw [Below.set_iff hk] at hd hs
    exact .set hk fun x hx => (mem_unitedItems hx).elim (hd x) (hs x)
  | list t loc dst src hk ih =>
    rw [mergeAt_list hk]
    rw [Document.distinct_arr] at hsrc
    obtain ⟨us, rfl⟩ := hd.arr_right
    obtain ⟨hdlen, hd⟩ := (Below.list_iff hk).1 hd
    obtain ⟨hslen, hs⟩ := (Below.list_iff hk).1 hs
    refine .list hk ?_ fun i z w hz hw => ?_
    · rw [length_mergeItems]
      exact Nat.max_le.2 ⟨hdlen, hslen⟩
    · rcases getElem?_mergeItems_cases hz with
        ⟨hx, -⟩ | ⟨-, hy⟩ | ⟨x, y, hx, hy, ⟨-, rfl⟩ | ⟨-, rfl⟩⟩
      · exact hd i z w hx hw
      · exact hs i z w hy hw
      · exact hd i z w hx hw
      · have hyd := hsrc y (List.mem_of_getElem? hy)
        exact ih i x y hx hy hyd (hd i x w hx hw) (hs i y w hy hw)
  | obj t loc dst src ih =>
    obtain ⟨hn, hsrc⟩ := Document.distinct_obj.1 hsrc
    rw [mergeAt_obj]
    obtain ⟨us, rfl⟩ := hd.obj_right
    obtain ⟨hdkeys, hd⟩ := Below.obj_iff.1 hd
    obtain ⟨hskeys, hs⟩ := Below.obj_iff.1 hs
    refine .obj (fun k hk => ?_) fun k z w hz hw => ?_
    · exact ((mem_keys_mergeMembers hn).1 hk).elim (hdkeys k) (hskeys k)
    · rcases get?_mergeMembers_cases hn hz with ⟨hx, -⟩ | ⟨-, hy⟩ | ⟨x, y, hx, hy, rfl⟩
      · exact hd k z w hx hw
      · exact hs k z w hy hw
      · have hmy := Members.mem_of_get? hy
        exact ih k x y hx hmy (hsrc _ hmy) (hd k x w hx hw) (hs k y w hy hw)

/-! ## No conflict below an upper bound -/

/-- Below one document, two values that cannot be united are equal. -/
theorem equal_of_below_of_apart (hap : Apart dst src) (hd : Below g t dst u) (hs : Below g t src u)
    (hsrc : src.Distinct) (hu : u.Distinct) : dst.equal src = true := by
  cases hd with
  | scalar ha h =>
    have hscalar := Document.isScalar_of_equal ha h
    cases hs with
    | scalar _ h' => exact Document.equal_trans h (Document.equal_symm hsrc hu h')
    | obj | list | set => cases hscalar
  | obj =>
    cases hs with
    | scalar ha h => cases Document.isScalar_of_equal ha h
    | obj => exact absurd ⟨rfl, rfl⟩ hap.1
  | list | set =>
    cases hs with
    | scalar ha h => cases Document.isScalar_of_equal ha h
    | list | set => exact absurd ⟨rfl, rfl⟩ hap.2

/-- Items that one set with strictly increasing keys holds equals of agree wherever their keys
do. -/
theorem equal_of_below_increasing {key : SortKey} {us : List Document} {x y : Document}
    (hus : Increasing key us) (hu : Document.Keyable (.arr us)) (hx : x.Keyable) (hy : y.Keyable)
    (hxu : ∃ v ∈ us, x.equal v = true) (hyu : ∃ w ∈ us, y.equal w = true)
    (hkey : key.key x = key.key y) : x.equal y = true := by
  obtain ⟨v, hv, hxv⟩ := hxu
  obtain ⟨w, hw, hyw⟩ := hyu
  have hvw : v = w := by
    refine hus.eq_of_key_eq hv hw ?_
    rw [← key.key_eq_of_equal hx (hu.item hv) hxv, ← key.key_eq_of_equal hy (hu.item hw) hyw]
    exact hkey
  subst hvw
  exact Document.equal_trans hxv (Document.equal_symm hy.distinct (hu.item hw).distinct hyw)

/-- Two documents below one orderly document have no conflict. -/
theorem conflicts_eq_nil_of_below (hdst : dst.Keyable) (hsrc : src.Keyable) (hu : Orderly g t u)
    (hd : Below g t dst u) (hs : Below g t src u) : (mergeAt g t loc dst src).conflicts = [] := by
  induction t, loc, dst, src using merge_induction g generalizing u with
  | leaf t loc dst src hap =>
    rw [mergeAt_leaf hap,
      mergeLeaf_of_equal (equal_of_below_of_apart hap hd hs hsrc.distinct hu.distinct)]
  | set t loc key dst src hk =>
    rw [mergeAt_set hk, conflicts_mergeSet]
    obtain ⟨us, rfl⟩ := hd.arr_right
    have hdu := (Below.set_iff hk).1 hd
    have hsu := (Below.set_iff hk).1 hs
    -- whatever is held or comes in has its equal in the bound, whose keys tell its items apart
    refine conflicts_mergeSetItems_eq_nil (fun d hmem item hitem hkey => ?_) fun k d h => ?_
    · have hside : d ∈ dst ∨ d ∈ src := by
        rcases hmem with hmem | ⟨k, hmem⟩
        · exact .inr hmem
        · exact .inl (get?_keyItems_origin hmem).1
      have hdk : d.Keyable := hside.elim hdst.item hsrc.item
      have hdu : ∃ v ∈ us, d.equal v = true := hside.elim (hdu d) (hsu d)
      exact equal_of_below_increasing ((everySet_set hk).1 hu.increasing) hu.keyable hdk
        (hsrc.item hitem) hdu (hsu item hitem) hkey
    · exact (get?_keyItems_origin h).2
  | list t loc dst src hk ih =>
    rw [mergeAt_list hk]
    obtain ⟨us, rfl⟩ := hd.arr_right
    obtain ⟨hlen, hdu⟩ := (Below.list_iff hk).1 hd
    obtain ⟨-, hsu⟩ := (Below.list_iff hk).1 hs
    refine conflicts_mergeItems_eq_nil_iff.2 fun i x y hx hy _ => ?_
    obtain ⟨w, hw⟩ := exists_getElem?_of_length_le hlen hx
    exact ih i x y hx hy (hdst.item (List.mem_of_getElem? hx)) (hsrc.item (List.mem_of_getElem? hy))
      (hu.item hk (List.mem_of_getElem? hw)) (hdu i x w hx hw) (hsu i y w hy hw)
  | obj t loc dst src ih =>
    obtain ⟨hn, -⟩ := Document.distinct_obj.1 hsrc.distinct
    rw [mergeAt_obj]
    obtain ⟨us, rfl⟩ := hd.obj_right
    obtain ⟨hkeys, hdu⟩ := Below.obj_iff.1 hd
    obtain ⟨-, hsu⟩ := Below.obj_iff.1 hs
    refine (conflicts_mergeMembers_eq_nil_iff hn).2 fun k x y hx hy => ?_
    have hgy := Members.get?_of_mem hn hy
    obtain ⟨w, hw⟩ := Members.exists_get?_of_mem_keys (hkeys k (Members.mem_keys_of_get? hx))
    exact ih k x y hx hy (hdst.get? hx) (hsrc.get? hgy) (hu.member (Members.mem_of_get? hw))
      (hdu k x w hx hw) (hsu k y w hgy hw)

/-! ## Whole documents -/

/-- An operation with tags, in a document of its own. -/
def taggedOperation (tags : List String) : Document :=
  .obj [("paths", .obj [("/p", .obj [("get", .obj [("tags", .arr (tags.map .str))])])])]

/-- A conflict-free merge is the least document above both sides, and where the first value always
stays, the destination is below the merged value in any case. -/
theorem merge_least {g : Grammar} {dst src : Document} (hdst : dst.Distinct) (hsrc : src.Distinct)
    (hsets : EverySet g Consistent g.entry dst) :
    ((merge g dst src).conflicts = [] →
      Below g g.entry dst (merge g dst src).value ∧
      Below g g.entry src (merge g dst src).value ∧
      ∀ u, Below g g.entry dst u → Below g g.entry src u →
        Below g g.entry (merge g dst src).value u) ∧
    (g.KeepsFirst → Below g g.entry dst (merge g dst src).value) := by
  constructor
  · intro h
    refine ⟨below_mergeAt_left hdst hsrc hsets (.inl h), below_mergeAt_right hdst hsrc h, ?_⟩
    exact fun u hd hs => mergeAt_below hsrc hd hs
  · intro h
    exact below_mergeAt_left hdst hsrc hsets (.inr ⟨h, rfl⟩)

/-- Two sets of tags have a least union. -/
theorem merge_least_tags :
    (Below .openApi Grammar.openApi.entry (taggedOperation ["b", "a"])
        (merge .openApi (taggedOperation ["b", "a"]) (taggedOperation ["a", "c"])).value ∧
      Below .openApi Grammar.openApi.entry (taggedOperation ["a", "c"])
        (merge .openApi (taggedOperation ["b", "a"]) (taggedOperation ["a", "c"])).value ∧
      ∀ u, Below .openApi Grammar.openApi.entry (taggedOperation ["b", "a"]) u →
        Below .openApi Grammar.openApi.entry (taggedOperation ["a", "c"]) u →
        Below .openApi Grammar.openApi.entry
          (merge .openApi (taggedOperation ["b", "a"]) (taggedOperation ["a", "c"])).value u) ∧
    Below .openApi Grammar.openApi.entry (taggedOperation ["b", "a"])
      (merge .openApi (taggedOperation ["b", "a"]) (taggedOperation ["a", "c"])).value := by
  have hsets : EverySet .openApi Consistent Grammar.openApi.entry (taggedOperation ["b", "a"]) := by
    decide +kernel
  have hsrc : (taggedOperation ["a", "c"]).Distinct := by decide
  have h := merge_least (by decide) hsrc hsets
  exact ⟨h.1 (by decide +kernel), h.2 Grammar.openApi_keepsFirst⟩

end SchemaLoom
