import SchemaLoom.Proofs.Merge.Conflicts
import SchemaLoom.Proofs.Merge.Order

/-!
# Conflicts and the order of two documents

Which of two documents comes first decides which values stay, the order of the keys and the order in
which conflicts are met.  It does not decide what the conflicts are: whatever the policies, the
conflicts one way round are those the other way round with their two values exchanged.

Sets have to stand in strictly increasing order of their keys.  Where a set holds a key twice, only
the last of its items is compared as a destination, but every one of them as a source.

- `nodup_conflicts_mergeAt`: a merge reports no conflict twice.
- `exchange_mem_conflicts`: a conflict one way round is one the other way round.
- `merge_conflicts_exchange`: the conflicts of two merges as permutations of each other.
-/

namespace SchemaLoom

variable {g : Grammar} {t : Transition} {loc : Location} {dst src : Document}
variable {key : SortKey} {policy : Policy}

/-- The same conflict from the other side. -/
def Conflict.exchange (c : Conflict) : Conflict :=
  ⟨c.location, c.source, c.destination⟩

theorem Conflict.exchange_exchange (c : Conflict) : c.exchange.exchange = c := rfl

theorem Conflict.exchange_injective : Function.Injective Conflict.exchange :=
  Function.LeftInverse.injective Conflict.exchange_exchange

/-! ## No conflict comes twice -/

/-- What the entries of a list bring forth comes once, if it does so for each entry, and tells from
which entry it comes. -/
theorem nodup_flatMap_of_tag {α β γ : Type} {f : α → List β} (tag : α → γ) (own : β → Option γ)
    {xs : List α} (hn : (xs.map tag).Nodup)
    (h : ∀ x ∈ xs, (f x).Nodup ∧ ∀ b ∈ f x, own b = some (tag x)) : (xs.flatMap f).Nodup := by
  refine List.nodup_flatMap.2 ⟨fun x hx => (h x hx).1, ?_⟩
  refine (List.pairwise_map.1 hn).imp_of_mem fun {x y} hx hy hne b hb hb' => ?_
  exact hne (Option.some.inj (((h x hx).2 b hb).symm.trans ((h y hy).2 b hb')))

theorem nodup_conflicts_mergeSet {dst src : List Document} (hsrc : Increasing key src) :
    (mergeSet key policy loc dst src).conflicts.Nodup := by
  rw [conflicts_mergeSet, conflicts_mergeSetItems hsrc.nodup_map]
  refine nodup_flatMap_of_tag id (fun c => some c.source) ?_ fun y _ => ⟨?_, fun c hc => ?_⟩
  · rw [List.map_id]
    exact hsrc.nodup_map.of_map
  · rcases mergeSetItem_cases key policy loc (keyItems key dst) y with
      ⟨-, e⟩ | ⟨held, -, ⟨-, e⟩ | ⟨-, -, e⟩ | ⟨-, -, e⟩⟩ <;> rw [e]
    · exact List.nodup_nil
    · exact List.nodup_nil
    · exact List.nodup_singleton _
    · exact List.nodup_singleton _
  · obtain ⟨held, -, -, rfl⟩ := mem_conflicts_mergeSetItem.1 hc
    rfl

/-- A merge reports no conflict twice. -/
theorem nodup_conflicts_mergeAt (hsrc : src.Distinct) (hsets : EverySet g Increasing t src) :
    (mergeAt g t loc dst src).conflicts.Nodup := by
  induction t, loc, dst, src using merge_induction g with
  | leaf t loc dst src hap =>
    rw [mergeAt_leaf hap, conflicts_mergeLeaf]
    split
    · exact List.nodup_nil
    · exact List.nodup_singleton _
  | set t loc key dst src hk =>
    rw [everySet_set hk] at hsets
    rw [mergeAt_set hk]
    exact nodup_conflicts_mergeSet hsets
  | list t loc dst src hk ih =>
    rw [Document.distinct_arr] at hsrc
    rw [everySet_list hk] at hsets
    rw [mergeAt_list hk, conflicts_mergeItems]
    -- a conflict tells its index by the segment of its location
    refine nodup_flatMap_of_tag (toString ∘ Prod.snd)
      (fun c => c.location.segments[loc.segments.length]?) ?_ ?_
    · rw [← List.map_map, List.zipIdx_map_snd]
      exact List.Nodup.map (fun _ _ h => Location.eq_of_toString_eq h) List.nodup_range'
    · rintro ⟨⟨x, y⟩, i⟩ hp
      obtain ⟨hx, hy⟩ := List.getElem?_zip_eq_some.1 (List.mk_mem_zipIdx_iff_getElem?.1 hp)
      by_cases he : x.equal y = true
      · rw [itemStep_of_equal he]
        exact ⟨List.nodup_nil, fun c hc => absurd hc List.not_mem_nil⟩
      · rw [itemStep_of_not_equal he]
        have hmy := List.mem_of_getElem? hy
        exact ⟨ih i x y hx hy (hsrc y hmy) (hsets y hmy),
          fun c hc => getElem?_segments_of_mem_conflicts (hsrc y hmy) hc⟩
  | obj t loc dst src ih =>
    obtain ⟨hn, hsrc⟩ := Document.distinct_obj.1 hsrc
    rw [everySet_obj] at hsets
    rw [mergeAt_obj, conflicts_mergeMembers hn]
    refine nodup_flatMap_of_tag Prod.fst
      (fun c => c.location.segments[loc.segments.length]?) hn ?_
    rintro ⟨k, y⟩ hm
    cases hx : Members.get? k dst with
    | none =>
      rw [memberStep_of_none hx]
      exact ⟨List.nodup_nil, fun c hc => absurd hc List.not_mem_nil⟩
    | some x =>
      rw [memberStep_of_some hx]
      exact ⟨ih k x y hx hm (hsrc (k, y) hm) (hsets (k, y) hm),
        fun c hc => getElem?_segments_of_mem_conflicts (hsrc (k, y) hm) hc⟩

/-! ## The other way round -/

/-- The conflicts of two sets are between their unequal items of one key.  What an earlier conflict
puts in the place of an item is never compared again, since its key does not come again. -/
theorem mem_conflicts_mergeSet {dst src : List Document} (hdst : Increasing key dst)
    (hsrc : Increasing key src) {c : Conflict} :
    c ∈ (mergeSet key policy loc dst src).conflicts ↔ ∃ x ∈ dst, ∃ y ∈ src,
      key.key x = key.key y ∧ x.equal y = false ∧ c = ⟨loc, x, y⟩ := by
  rw [conflicts_mergeSet, conflicts_mergeSetItems hsrc.nodup_map, List.mem_flatMap]
  constructor
  · rintro ⟨y, hy, hc⟩
    obtain ⟨x, hx, hne, rfl⟩ := mem_conflicts_mergeSetItem.1 hc
    obtain ⟨hmx, hkey⟩ := get?_keyItems_origin hx
    exact ⟨x, hmx, y, hy, hkey, hne, rfl⟩
  · rintro ⟨x, hx, y, hy, hkey, hne, rfl⟩
    refine ⟨y, hy, mem_conflicts_mergeSetItem.2 ⟨x, ?_, hne, rfl⟩⟩
    rw [← hkey]
    exact get?_keyItems_of_mem hdst.nodup_map hx

/-- A conflict one way round is one the other way round. -/
theorem exchange_mem_conflicts (hdst : dst.Distinct) (hsrc : src.Distinct)
    (hdsts : EverySet g Increasing t dst) (hsrcs : EverySet g Increasing t src) {c : Conflict}
    (hc : c ∈ (mergeAt g t loc dst src).conflicts) :
    c.exchange ∈ (mergeAt g t loc src dst).conflicts := by
  induction t, loc, dst, src using merge_induction g with
  | leaf t loc dst src hap =>
    rw [mergeAt_leaf hap] at hc
    obtain ⟨hne, rfl⟩ := mem_conflicts_mergeLeaf.1 hc
    rw [Document.equal_comm hdst hsrc] at hne
    rw [mergeAt_leaf hap.symm]
    exact mem_conflicts_mergeLeaf.2 ⟨hne, rfl⟩
  | set t loc key dst src hk =>
    rw [Document.distinct_arr] at hdst hsrc
    rw [everySet_set hk] at hdsts hsrcs
    rw [mergeAt_set hk] at hc
    obtain ⟨x, hx, y, hy, hkey, hne, rfl⟩ := (mem_conflicts_mergeSet hdsts hsrcs).1 hc
    rw [Document.equal_comm (hdst x hx) (hsrc y hy)] at hne
    rw [mergeAt_set hk]
    exact (mem_conflicts_mergeSet hsrcs hdsts).2 ⟨y, hy, x, hx, hkey.symm, hne, rfl⟩
  | list t loc dst src hk ih =>
    rw [Document.distinct_arr] at hdst hsrc
    rw [everySet_list hk] at hdsts hsrcs
    rw [mergeAt_list hk] at hc
    obtain ⟨i, x, y, hx, hy, hne, hc⟩ := mem_conflicts_mergeItems.1 hc
    have hmx := List.mem_of_getElem? hx
    have hmy := List.mem_of_getElem? hy
    rw [Document.equal_comm (hdst x hmx) (hsrc y hmy)] at hne
    rw [mergeAt_list hk]
    refine mem_conflicts_mergeItems.2 ⟨i, y, x, hy, hx, hne, ?_⟩
    exact ih i x y hx hy (hdst x hmx) (hsrc y hmy) (hdsts x hmx) (hsrcs y hmy) hc
  | obj t loc dst src ih =>
    obtain ⟨hnd, hdst⟩ := Document.distinct_obj.1 hdst
    obtain ⟨hns, hsrc⟩ := Document.distinct_obj.1 hsrc
    rw [everySet_obj] at hdsts hsrcs
    rw [mergeAt_obj] at hc
    obtain ⟨k, x, y, hx, hmy, hc⟩ := (mem_conflicts_mergeMembers hns).1 hc
    have hmx := Members.mem_of_get? hx
    rw [mergeAt_obj]
    refine (mem_conflicts_mergeMembers hnd).2 ⟨k, y, x, Members.get?_of_mem hns hmy, hmx, ?_⟩
    exact ih k x y hx hmy (hdst (k, x) hmx) (hsrc (k, y) hmy) (hdsts (k, x) hmx)
      (hsrcs (k, y) hmy) hc

/-! ## Whole documents -/

/-- The conflicts of two documents do not depend on which one comes first, but for the order in
which they are met, and for which of the two values is the destination's. -/
theorem merge_conflicts_exchange (hdst : dst.Distinct) (hsrc : src.Distinct)
    (hdsts : EverySet g Increasing g.entry dst) (hsrcs : EverySet g Increasing g.entry src) :
    (merge g src dst).conflicts.Perm ((merge g dst src).conflicts.map Conflict.exchange) := by
  have hleft : (merge g src dst).conflicts.Nodup := nodup_conflicts_mergeAt hdst hdsts
  have hright : ((merge g dst src).conflicts.map Conflict.exchange).Nodup :=
    (nodup_conflicts_mergeAt hsrc hsrcs).map Conflict.exchange_injective
  refine (List.perm_ext_iff_of_nodup hleft hright).2 fun c => ?_
  rw [List.mem_map]
  constructor
  · intro hc
    exact ⟨c.exchange, exchange_mem_conflicts hsrc hdst hsrcs hdsts hc, rfl⟩
  · rintro ⟨c', hc', rfl⟩
    exact exchange_mem_conflicts hdst hsrc hdsts hsrcs hc'

/-- A grammar of two places: a set of objects with names, where the value that comes in stays, and
free data. -/
def namedSetGrammar : Grammar where
  nodes := [.data, .object .root [("set", ⟨.data, ⟨some (.identity ["name"]), .replace⟩⟩)]]
  root := ⟨1⟩

/-- Two items of a set, a scalar and an item of a list are in conflict, whichever document comes
first, and they are met in another order. -/
theorem merge_conflicts_exchange_named :
    let item (name : String) (n : Int) : Document := .obj [("name", .str name), ("n", .num (.int n))]
    let dst : Document := .obj [("set", .arr [item "a" 1, item "b" 1, item "c" 1]),
      ("list", .arr [.null, .bool true]), ("title", .str "x")]
    let src : Document := .obj [("title", .str "y"), ("list", .arr [.null, .bool false, .null]),
      ("set", .arr [item "b" 2, item "c" 2])]
    (dst.Distinct ∧ src.Distinct ∧
        EverySet namedSetGrammar Increasing namedSetGrammar.entry dst ∧
        EverySet namedSetGrammar Increasing namedSetGrammar.entry src) ∧
      (merge namedSetGrammar src dst).conflicts.Perm
        ((merge namedSetGrammar dst src).conflicts.map Conflict.exchange) ∧
      (merge namedSetGrammar dst src).conflicts.map Conflict.location =
        [⟨["title"]⟩, ⟨["list", "1"]⟩, ⟨["set"]⟩, ⟨["set"]⟩] ∧
      (merge namedSetGrammar src dst).conflicts.map Conflict.location =
        [⟨["set"]⟩, ⟨["set"]⟩, ⟨["list", "1"]⟩, ⟨["title"]⟩] := by
  intro item dst src
  have hdst : dst.Distinct := by decide
  have hsrc : src.Distinct := by decide
  have hdsts : EverySet namedSetGrammar Increasing namedSetGrammar.entry dst := by decide +kernel
  have hsrcs : EverySet namedSetGrammar Increasing namedSetGrammar.entry src := by decide +kernel
  refine ⟨⟨hdst, hsrc, hdsts, hsrcs⟩, merge_conflicts_exchange hdst hsrc hdsts hsrcs, ?_, ?_⟩
  · decide +kernel
  · decide +kernel

/-- A source that holds a key twice is in conflict with itself, but not as a destination. -/
example :
    let repeated : Document := .obj [("set", .arr [.obj [("n", .null)], .obj []])]
    let lacking : Document := .obj [("set", .arr [])]
    (merge namedSetGrammar lacking repeated).conflicts.length = 1 ∧
      (merge namedSetGrammar repeated lacking).conflicts.length = 0 := by
  decide +kernel

end SchemaLoom
