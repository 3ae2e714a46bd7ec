import Mathlib.Data.List.Perm.Subperm
import SchemaLoom.Proofs.Merge.UpperBound

/-!
# Merging again

A merged value takes nothing new from what it was made of.  Merged with its destination it is the
same and has no conflict; merged with its source it is the same, and the conflicts that the first
merge settled come up again, since the source still disagrees.  This holds where the first value
always stays, and for sets that stand in strictly increasing order of their keys.

- `mergeAt_self`: a document merged with itself, under any policy.
- `mergeAt_again_left`: a merged value merged with the destination.
- `conflicts_eq_nil_of_value_equal`: a merged value that equals the source had no conflict.
- `mergeAt_again_right`: a merged value merged with the source.
- `merge_again`: the three for whole documents.
-/

namespace SchemaLoom

variable {g : Grammar} {t : Transition} {loc : Location} {dst src d : Document}

/-! ## Steps that change nothing -/

theorem Members.insert_of_get? {ms : Members} {k : String} {v : Document}
    (h : Members.get? k ms = some v) : Members.insert k v ms = ms := by
  induction ms with
  | nil => cases h
  | cons m ms ih =>
    obtain ⟨k', w⟩ := m
    rw [Members.get?_cons] at h
    rw [Members.insert]
    split
    next hk =>
      rw [if_pos hk] at h
      cases h
      rfl
    next hk =>
      rw [if_neg hk] at h
      rw [ih h]

/-- If no member of the source changes the value under its key, the object stays as it is, and the
conflicts are those of each member. -/
theorem mergeMembers_of_steps {node : NodeId} {dst src : Members}
    (h : ∀ k y, (k, y) ∈ src → ∃ x, Members.get? k dst = some x ∧
      (mergeAt g (g.child node k) (loc.push k) x y).value = x) :
    mergeMembers g node loc dst src =
      (dst, src.flatMap fun m => (memberStep g node loc dst m.1 m.2).conflicts) := by
  induction src with
  | nil => rfl
  | cons m rest ih =>
    obtain ⟨k, y⟩ := m
    obtain ⟨x, hx, hvalue⟩ := h k y List.mem_cons_self
    have hinsert : Members.insert k (memberStep g node loc dst k y).value dst = dst := by
      rw [memberStep_of_some hx, hvalue, Members.insert_of_get? hx]
    rw [mergeMembers_cons, hinsert, ih fun k y hm => h k y (List.mem_cons_of_mem _ hm),
      List.flatMap_cons]

/-- The same for a source that has no conflicts either. -/
theorem mergeMembers_of_absorbed {node : NodeId} {dst src : Members}
    (h : ∀ k y, (k, y) ∈ src → ∃ x, Members.get? k dst = some x ∧
      mergeAt g (g.child node k) (loc.push k) x y = ⟨x, []⟩) :
    mergeMembers g node loc dst src = (dst, []) := by
  have hsteps : ∀ k y, (k, y) ∈ src → ∃ x, Members.get? k dst = some x ∧
      (mergeAt g (g.child node k) (loc.push k) x y).value = x := by
    intro k y hm
    obtain ⟨x, hx, hstep⟩ := h k y hm
    exact ⟨x, hx, congrArg Merged.value hstep⟩
  have hconflicts : (src.flatMap fun m => (memberStep g node loc dst m.1 m.2).conflicts) = [] := by
    refine List.flatMap_eq_nil_iff.2 fun m hm => ?_
    obtain ⟨x, hx, hstep⟩ := h m.1 m.2 hm
    rw [memberStep_of_some hx, hstep]
  rw [mergeMembers_of_steps hsteps, hconflicts]

/-- An ordered array that no item of a source changes or contradicts stays as it is. -/
theorem mergeItems_of_absorbed {n : Nat} {dst src : List Document}
    (hlen : src.length ≤ dst.length)
    (h : ∀ i x y, dst[i]? = some x → src[i]? = some y →
      itemStep g t loc (n + i) x y = ⟨x, []⟩) :
    mergeItems g t loc n dst src = (dst, []) := by
  induction src generalizing dst n with
  | nil => rw [mergeItems]
  | cons s src ih =>
    cases dst with
    | nil => cases hlen
    | cons d dst =>
      have hstep : itemStep g t loc n d s = ⟨d, []⟩ := h 0 d s rfl rfl
      have hrest : mergeItems g t loc (n + 1) dst src = (dst, []) := by
        refine ih (Nat.le_of_succ_le_succ hlen) fun i x y hx hy => ?_
        rw [Nat.add_right_comm, Nat.add_assoc]
        exact h (i + 1) x y hx hy
      rw [mergeItems_cons, hstep, hrest, List.nil_append]

/-- An ordered array merged with itself: equal items are left alone. -/
theorem mergeItems_self {items : List Document} (hd : ∀ d ∈ items, Document.Distinct d) (n : Nat) :
    mergeItems g t loc n items items = (items, []) := by
  refine mergeItems_of_absorbed (Nat.le_refl _) fun i x y hx hy => ?_
  rw [hx] at hy
  cases hy
  exact itemStep_of_equal (Document.equal_refl (hd x (List.mem_of_getElem? hx)))

/-! ## A document merged with itself -/

/-- A set merged with itself: the equal of every item is held under its key. -/
theorem mergeSet_self {key : SortKey} {policy : Policy} {items : List Document}
    (hinc : Increasing key items) (hd : ∀ d ∈ items, Document.Distinct d) :
    mergeSet key policy loc items items = ⟨.arr items, []⟩ := by
  have hheld : ∀ d ∈ items, ∃ held, (keyItems key items).get? (key.key d) = some held ∧
      held.equal d = true :=
    fun d hm => ⟨d, get?_keyItems_of_mem hinc.nodup_map hm, Document.equal_refl (hd d hm)⟩
  rw [mergeSet, mergeSetItems_of_equal hheld, values_keyItems hinc]

/-- A document merged with itself is itself, without a conflict. -/
theorem mergeAt_self (hd : d.Distinct) (hsets : EverySet g Increasing t d) :
    mergeAt g t loc d d = ⟨d, []⟩ := by
  induction d using Document.induction generalizing t loc with
  | null | bool | num | str =>
    refine (mergeAt_leaf ?_).trans (mergeLeaf_of_equal (Document.equal_refl hd))
    exact ⟨fun h => (nomatch h.1), fun h => (nomatch h.1)⟩
  | arr items ih =>
    rw [Document.distinct_arr] at hd
    cases hk : t.behavior.sortKey with
    | none => rw [mergeAt_list hk, mergeItems_self hd]
    | some key =>
      rw [everySet_set hk] at hsets
      rw [mergeAt_set hk, mergeSet_self hsets hd]
  | obj members ih =>
    obtain ⟨hn, hd⟩ := Document.distinct_obj.1 hd
    rw [everySet_obj] at hsets
    rw [mergeAt_obj, mergeMembers_of_absorbed fun k v hm => ?_]
    exact ⟨v, Members.get?_of_mem hn hm, ih (k, v) hm (hd (k, v) hm) (hsets (k, v) hm)⟩

/-! ## Merged with the destination -/

theorem KeepsAt.child (h : KeepsAt g t) (k : String) : KeepsAt g (g.child t.node k) :=
  ⟨h.1, h.1 t.node k⟩

/-- A merged value takes nothing from its destination. -/
theorem mergeAt_again_left (hk : KeepsAt g t) (hdst : dst.Distinct) (hsrc : src.Distinct)
    (hsets : EverySet g Increasing t dst) :
    mergeAt g t loc (mergeAt g t loc dst src).value dst =
      ⟨(mergeAt g t loc dst src).value, []⟩ := by
  induction t, loc, dst, src using merge_induction g with
  | leaf t loc dst src hap =>
    rw [mergeAt_leaf hap, value_mergeLeaf (.inr hk.2)]
    exact mergeAt_self hdst hsets
  | set t loc key dst src hkey =>
    rw [Document.distinct_arr] at hdst
    rw [everySet_set hkey] at hsets
    -- every item of the destination was held before, and is held still
    have hheld : ∀ x ∈ dst, ∃ held,
        (mergeSetItems key .keep loc (keyItems key dst) src).1.get? (key.key x) = some held ∧
          held.equal x = true := by
      intro x hx
      refine ⟨x, get?_mergeSetItems_kept (.inl rfl) ?_, Document.equal_refl (hdst x hx)⟩
      exact get?_keyItems_of_mem hsets.nodup_map hx
    rw [mergeAt_set hkey, value_mergeSet, mergeAt_set hkey, hk.2, mergeSet, keyItems_unitedItems,
      mergeSetItems_of_equal hheld]
    rfl
  | list t loc dst src hkey ih =>
    rw [Document.distinct_arr] at hdst hsrc
    rw [everySet_list hkey] at hsets
    have hlen : dst.length ≤ (mergeItems g t loc 0 dst src).1.length := by
      rw [length_mergeItems]
      exact Nat.le_max_left ..
    rw [mergeAt_list hkey, mergeAt_list hkey, mergeItems_of_absorbed hlen]
    intro i z x hz hx
    have hmx := List.mem_of_getElem? hx
    have hself : itemStep g t loc (0 + i) x x = ⟨x, []⟩ :=
      itemStep_of_equal (Document.equal_refl (hdst x hmx))
    rcases getElem?_mergeItems_cases hz with
      ⟨hx', -⟩ | ⟨hx', -⟩ | ⟨x', y, hx', hy, ⟨-, rfl⟩ | ⟨-, rfl⟩⟩ <;>
      rw [hx] at hx' <;> cases hx'
    · exact hself
    · exact hself
    · by_cases he : (mergeAt g t (loc.pushIndex i) x y).value.equal x = true
      · exact itemStep_of_equal he
      · rw [itemStep_of_not_equal he, Nat.zero_add]
        exact ih i x y hx hy hk (hdst x hmx) (hsrc y (List.mem_of_getElem? hy)) (hsets x hmx)
  | obj t loc dst src ih =>
    obtain ⟨hn, hdst⟩ := Document.distinct_obj.1 hdst
    obtain ⟨hns, hsrc⟩ := Document.distinct_obj.1 hsrc
    rw [everySet_obj] at hsets
    rw [mergeAt_obj, mergeAt_obj, mergeMembers_of_absorbed fun k x hm => ?_]
    have hx := Members.get?_of_mem hn hm
    rw [get?_mergeMembers hns]
    cases hy : Members.get? k src with
    | none => exact ⟨x, hx, mergeAt_self (hdst (k, x) hm) (hsets (k, x) hm)⟩
    | some y =>
      have hmy := Members.mem_of_get? hy
      refine ⟨_, rfl, ?_⟩
      rw [memberStep_of_some hx]
      exact ih k x y hx hmy (hk.child k) (hdst (k, x) hm) (hsrc (k, y) hmy) (hsets (k, x) hm)

/-! ## Merged with the source -/

/-- Two sets in strictly increasing order of their keys have the same keys, if they are of one size
and the first one has all keys of the second. -/
theorem map_key_eq_of_subset {key : SortKey} {xs ys : List Document} (hxs : Increasing key xs)
    (hys : Increasing key ys) (hsub : ys.map key.key ⊆ xs.map key.key)
    (hlen : xs.length = ys.length) : xs.map key.key = ys.map key.key := by
  have hperm : (ys.map key.key).Perm (xs.map key.key) := by
    refine (hys.nodup_map.subperm hsub).perm_of_length_le ?_
    rw [List.length_map, List.length_map]
    exact Nat.le_of_eq hlen
  exact hxs.map_key_eq_of_perm hys hperm.symm

/-- A merged set that equals the source had no conflict. -/
theorem conflicts_mergeSet_eq_nil_of_value_equal {key : SortKey} {dst src : List Document}
    (hsrc : Increasing key src)
    (h : (mergeSet key .keep loc dst src).value.equal (.arr src) = true) :
    (mergeSet key .keep loc dst src).conflicts = [] := by
  rw [value_mergeSet, Document.equal_arr, forall₂_iff_getElem?] at h
  obtain ⟨hlen, hitems⟩ := h
  have hunited : Increasing key (unitedItems key .keep loc dst src) := pairwise_unitedItems dst src
  -- the union has the keys of the source, and no others, since it is no larger
  have hkeys : (unitedItems key .keep loc dst src).map key.key = src.map key.key := by
    refine map_key_eq_of_subset hunited hsrc (fun k hk => ?_) hlen
    obtain ⟨y, hy, rfl⟩ := List.mem_map.1 hk
    obtain ⟨x, hx⟩ : ∃ x, (mergeSetItems key .keep loc (keyItems key dst) src).1.get?
        (key.key y) = some x := exists_get?_mergeSetItems_iff.2 (.inr ⟨y, hy, rfl⟩)
    rw [← key_of_get?_mergeSetItems hx]
    exact List.mem_map_of_mem (SortedMap.mem_values_iff.2 ⟨_, hx⟩)
  rw [conflicts_mergeSet, conflicts_mergeSetItems hsrc.nodup_map, List.flatMap_eq_nil_iff]
  intro y hy
  refine List.eq_nil_iff_forall_not_mem.2 fun c hc => ?_
  obtain ⟨x, hx, hne, -⟩ := mem_conflicts_mergeSetItem.1 hc
  -- so what was held under the key of an item stands in the place of that item
  obtain ⟨i, hi⟩ := List.mem_iff_getElem?.1 hy
  obtain ⟨z, hz⟩ := exists_getElem?_of_length_le (Nat.le_of_eq hlen.symm) hi
  have hxu : x ∈ unitedItems key .keep loc dst src :=
    SortedMap.mem_values_iff.2 ⟨_, get?_mergeSetItems_kept (.inl rfl) hx⟩
  have hzx : z = x := by
    have hat : ((unitedItems key .keep loc dst src).map key.key)[i]? = (src.map key.key)[i]? := by
      rw [hkeys]
    rw [List.getElem?_map, List.getElem?_map, hz, hi] at hat
    refine hunited.eq_of_key_eq (List.mem_of_getElem? hz) hxu ?_
    rw [Option.some.inj hat, (get?_keyItems_origin hx).2]
  rw [← hzx, hitems i z y hz hi] at hne
  cases hne

/-- A merged value that equals the source had no conflict, if the first value stays: what is at the
place of a conflict is then the value of the destination. -/
theorem conflicts_eq_nil_of_value_equal (hk : KeepsAt g t) (hsrc : src.Distinct)
    (hsets : EverySet g Increasing t src)
    (h : (mergeAt g t loc dst src).value.equal src = true) :
    (mergeAt g t loc dst src).conflicts = [] := by
  induction t, loc, dst, src using merge_induction g with
  | leaf t loc dst src hap =>
    rw [mergeAt_leaf hap] at h ⊢
    rw [value_mergeLeaf (.inr hk.2)] at h
    rw [mergeLeaf_of_equal h]
  | set t loc key dst src hkey =>
    rw [everySet_set hkey] at hsets
    rw [mergeAt_set hkey, hk.2] at h ⊢
    exact conflicts_mergeSet_eq_nil_of_value_equal hsets h
  | list t loc dst src hkey ih =>
    rw [Document.distinct_arr] at hsrc
    rw [everySet_list hkey] at hsets
    rw [mergeAt_list hkey, Document.equal_arr, forall₂_iff_getElem?] at h
    rw [mergeAt_list hkey]
    refine conflicts_mergeItems_eq_nil_iff.2 fun i x y hx hy he => ?_
    have hz : (mergeItems g t loc 0 dst src).1[i]? =
        some (mergeAt g t (loc.pushIndex i) x y).value := by
      rw [getElem?_mergeItems, hx, hy, Nat.zero_add]
      exact congrArg (fun step => some step.value) (itemStep_of_not_equal he)
    have hmy := List.mem_of_getElem? hy
    exact ih i x y hx hy hk (hsrc y hmy) (hsets y hmy) (h.2 i _ y hz hy)
  | obj t loc dst src ih =>
    obtain ⟨hn, hsrc⟩ := Document.distinct_obj.1 hsrc
    rw [everySet_obj] at hsets
    rw [mergeAt_obj, Document.equal_obj] at h
    rw [mergeAt_obj]
    refine (conflicts_mergeMembers_eq_nil_iff hn).2 fun k x y hx hm => ?_
    have hy := Members.get?_of_mem hn hm
    have hz : Members.get? k (mergeMembers g t.node loc dst src).1 =
        some (mergeAt g (g.child t.node k) (loc.push k) x y).value := by
      rw [get?_mergeMembers hn, hy, ← memberStep_of_some hx]
    obtain ⟨y', hy', he⟩ := h.2 _ (Members.mem_of_get? hz)
    rw [hy] at hy'
    cases hy'
    exact ih k x y hx hm (hk.child k) (hsrc (k, y) hm) (hsets (k, y) hm) he

/-- A set that was united with a source takes nothing more from it, and contradicts it as before. -/
theorem mergeSet_again {key : SortKey} {dst src : List Document} (hsrc : Increasing key src)
    (hd : ∀ d ∈ src, Document.Distinct d) :
    mergeSet key .keep loc (unitedItems key .keep loc dst src) src =
      mergeSet key .keep loc dst src := by
  have hvalue : (mergeSetItems key .keep loc
      (mergeSetItems key .keep loc (keyItems key dst) src).1 src).1 =
        (mergeSetItems key .keep loc (keyItems key dst) src).1 :=
    mergeSetItems_of_held fun y hy => exists_get?_mergeSetItems_iff.2 (.inr ⟨y, hy, rfl⟩)
  have hconflicts : (mergeSetItems key .keep loc
      (mergeSetItems key .keep loc (keyItems key dst) src).1 src).2 =
        (mergeSetItems key .keep loc (keyItems key dst) src).2 := by
    rw [conflicts_mergeSetItems hsrc.nodup_map, conflicts_mergeSetItems hsrc.nodup_map]
    refine List.flatMap_congr fun y hy => ?_
    cases hg : (keyItems key dst).get? (key.key y) with
    | some x =>
      refine conflicts_mergeSetItem_congr ?_
      rw [hg, get?_mergeSetItems_kept (.inl rfl) hg]
    | none =>
      -- an item that was new the first time equals itself the second time
      have hnew : (mergeSetItems key .keep loc (keyItems key dst) src).1.get? (key.key y) =
          some y := get?_mergeSetItems_new hsrc.nodup_map hy hg
      unfold mergeSetItem
      rw [hnew, hg]
      dsimp only
      rw [Document.beq_def, if_pos (Document.equal_refl (hd y hy))]
  rw [mergeSet, mergeSet, keyItems_unitedItems, hvalue, hconflicts]

/-- An ordered array that was merged with a source is merged with it again step by step. -/
theorem mergeItems_again {n : Nat} {dst src : List Document}
    (hd : ∀ d ∈ src, Document.Distinct d)
    (h : ∀ i x y, dst[i]? = some x → src[i]? = some y →
      itemStep g t loc (n + i) (itemStep g t loc (n + i) x y).value y =
        itemStep g t loc (n + i) x y) :
    mergeItems g t loc n (mergeItems g t loc n dst src).1 src = mergeItems g t loc n dst src := by
  induction src generalizing dst n with
  | nil => rw [mergeItems, mergeItems]
  | cons s src ih =>
    cases dst with
    | nil => exact mergeItems_self hd n
    | cons d dst =>
      have hstep := h 0 d s rfl rfl
      have hrest : mergeItems g t loc (n + 1) (mergeItems g t loc (n + 1) dst src).1 src =
          mergeItems g t loc (n + 1) dst src := by
        refine ih (fun d hm => hd d (List.mem_cons_of_mem _ hm)) fun i x y hx hy => ?_
        rw [Nat.add_right_comm, Nat.add_assoc]
        exact h (i + 1) x y hx hy
      rw [Nat.add_zero] at hstep
      rw [mergeItems_cons, mergeItems_cons, hstep, hrest]

/-- A merged value takes nothing more from its source, and contradicts it as before. -/
theorem mergeAt_again_right (hk : KeepsAt g t) (hsrc : src.Distinct)
    (hsets : EverySet g Increasing t src) :
    mergeAt g t loc (mergeAt g t loc dst src).value src = mergeAt g t loc dst src := by
  induction t, loc, dst, src using merge_induction g with
  | leaf t loc dst src hap =>
    have hvalue : (mergeAt g t loc dst src).value = dst := by
      rw [mergeAt_leaf hap, value_mergeLeaf (.inr hk.2)]
    rw [hvalue]
  | set t loc key dst src hkey =>
    rw [Document.distinct_arr] at hsrc
    rw [everySet_set hkey] at hsets
    rw [mergeAt_set hkey, value_mergeSet, mergeAt_set hkey, hk.2]
    exact mergeSet_again hsets hsrc
  | list t loc dst src hkey ih =>
    rw [Document.distinct_arr] at hsrc
    rw [everySet_list hkey] at hsets
    rw [mergeAt_list hkey, mergeAt_list hkey, mergeItems_again hsrc]
    intro i x y hx hy
    have hmy := List.mem_of_getElem? hy
    rw [Nat.zero_add]
    by_cases he : x.equal y = true
    · rw [itemStep_of_equal he, itemStep_of_equal he]
    · rw [itemStep_of_not_equal he]
      by_cases hz : (mergeAt g t (loc.pushIndex i) x y).value.equal y = true
      · -- equal items are left alone, and then there was nothing to tell the first time either
        have hnil := conflicts_eq_nil_of_value_equal hk (hsrc y hmy) (hsets y hmy) hz
        rw [itemStep_of_equal hz, ← hnil]
      · rw [itemStep_of_not_equal hz]
        exact ih i x y hx hy hk (hsrc y hmy) (hsets y hmy)
  | obj t loc dst src ih =>
    obtain ⟨hn, hsrc⟩ := Document.distinct_obj.1 hsrc
    rw [everySet_obj] at hsets
    -- under each key of the source the second step repeats the first one
    have hagain : ∀ k y, (k, y) ∈ src → ∃ z,
        Members.get? k (mergeMembers g t.node loc dst src).1 = some z ∧
          mergeAt g (g.child t.node k) (loc.push k) z y =
            memberStep g t.node loc dst k y ∧ (memberStep g t.node loc dst k y).value = z := by
      intro k y hm
      rw [get?_mergeMembers hn, Members.get?_of_mem hn hm]
      refine ⟨_, rfl, ?_, rfl⟩
      cases hx : Members.get? k dst with
      | none =>
        rw [memberStep_of_none hx]
        exact mergeAt_self (hsrc (k, y) hm) (hsets (k, y) hm)
      | some x =>
        rw [memberStep_of_some hx]
        exact ih k x y hx hm (hk.child k) (hsrc (k, y) hm) (hsets (k, y) hm)
    rw [mergeAt_obj, mergeAt_obj, mergeMembers_of_steps fun k y hm => ?_]
    · refine congrArg _ ?_
      rw [conflicts_mergeMembers hn]
      refine List.flatMap_congr fun m hm => ?_
      obtain ⟨z, hz, hstep, -⟩ := hagain m.1 m.2 hm
      rw [memberStep_of_some hz, hstep]
    · obtain ⟨z, hz, hstep, hvalue⟩ := hagain k y hm
      exact ⟨z, hz, by rw [hstep, hvalue]⟩

/-! ## Whole documents -/

/-- Where the first value always stays, a merged value takes nothing from the documents that it was
made of: merged with its destination it has no conflict, merged with its source it has those of the
first merge, and both times it stays as it is.  A document merged with itself stays as it is, too. -/
theorem merge_again (hg : g.KeepsFirst) (hdst : dst.Distinct) (hsrc : src.Distinct)
    (hdsts : EverySet g Increasing g.entry dst) (hsrcs : EverySet g Increasing g.entry src) :
    merge g (merge g dst src).value dst = ⟨(merge g dst src).value, []⟩ ∧
      merge g (merge g dst src).value src =
        ⟨(merge g dst src).value, (merge g dst src).conflicts⟩ ∧
      merge g dst dst = ⟨dst, []⟩ := by
  have hk : KeepsAt g g.entry := ⟨hg, rfl⟩
  exact ⟨mergeAt_again_left hk hdst hsrc hdsts, mergeAt_again_right hk hsrc hsrcs,
    mergeAt_self hdst hdsts⟩

/-- Two titles and two parameters of one name are in conflict, and each side has a server and a
parameter that the other one lacks. -/
theorem merge_again_parameters :
    let parameter (name kind : String) : Document :=
      .obj [("name", .str name), ("in", .str "query"), ("schema", .obj [("type", .str kind)])]
    let dst : Document := .obj [("info", .obj [("title", .str "a")]),
      ("servers", .arr [.obj [("url", .str "u")]]),
      ("paths", .obj [("/p", .obj [("parameters",
        .arr [parameter "from" "string", parameter "limit" "string"])])])]
    let src : Document := .obj [("servers", .arr [.obj [("url", .str "u")], .obj []]),
      ("paths", .obj [("/p", .obj [("parameters",
        .arr [parameter "limit" "integer", parameter "to" "string"])])]),
      ("info", .obj [("title", .str "b")])]
    let r := (merge .openApi dst src).value
    (dst.Distinct ∧ src.Distinct ∧ EverySet .openApi Increasing Grammar.openApi.entry dst ∧
        EverySet .openApi Increasing Grammar.openApi.entry src) ∧
      merge .openApi r dst = ⟨r, []⟩ ∧
      merge .openApi r src = ⟨r, (merge .openApi dst src).conflicts⟩ ∧
      merge .openApi dst dst = ⟨dst, []⟩ ∧
      (merge .openApi dst src).conflicts.map Conflict.location =
        [⟨["paths", "/p", "parameters"]⟩, ⟨["info", "title"]⟩] := by
  intro parameter dst src r
  have hdst : dst.Distinct := by decide
  have hsrc : src.Distinct := by decide
  have hdsts : EverySet .openApi Increasing Grammar.openApi.entry dst := by decide +kernel
  have hsrcs : EverySet .openApi Increasing Grammar.openApi.entry src := by decide +kernel
  obtain ⟨hleft, hright, hself⟩ := merge_again Grammar.openApi_keepsFirst hdst hsrc hdsts hsrcs
  refine ⟨⟨hdst, hsrc, hdsts, hsrcs⟩, hleft, hright, hself, ?_⟩
  decide +kernel

end SchemaLoom
