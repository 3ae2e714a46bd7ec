import SchemaLoom.Grammar.OpenApi
import SchemaLoom.Proofs.Location
import SchemaLoom.Proofs.Merge.Sets
import SchemaLoom.Proofs.Merge.Steps

/-!
# The conflicts of a merge

A merge walks down its two sides together.  Where it stops at two values that cannot be united, or
at two sets, it reports the conflicts that are there, and it reports no others.

- `Meet`: the values at which two documents meet under the same segments.
- `Clash`: the values that can be in conflict where two documents meet.
- `exists_clash_of_mem_conflicts`: every conflict is such a clash, of unequal values.
- `filter_conflicts_of_key`, `filter_conflicts_of_index`: what is reported below one segment.
- `filter_conflicts_mergeAt`: unequal values that meet and cannot be united are one conflict.
- `merge_conflicts`: both for whole documents, with the locations followed from their roots.
- `merge_skips_mixed_places`: a location may lead through an object in one document and through an
  array in the other; a merge stops above such a place.
-/

namespace SchemaLoom

variable {g : Grammar} {t t' : Transition} {loc : Location} {dst src d s : Document}
variable {path : List String}

/-! ## Where two documents meet -/

/-- Segments that lead from two values at a place to two others: through objects by a key of both,
and through ordered arrays by an index of both.  Nothing leads into sets. -/
inductive Meet (g : Grammar) : Transition → Document → Document → List String →
    Transition → Document → Document → Prop where
  | here {t : Transition} {dst src : Document} : Meet g t dst src [] t dst src
  | key {t t' : Transition} {xs ys : Members} {k : String} {x y d s : Document}
      {path : List String} (hx : Members.get? k xs = some x) (hy : Members.get? k ys = some y)
      (h : Meet g (g.child t.node k) x y path t' d s) :
      Meet g t (.obj xs) (.obj ys) (k :: path) t' d s
  | index {t t' : Transition} {xs ys : List Document} {i : Nat} {x y d s : Document}
      {path : List String} (hk : t.behavior.sortKey = none) (hx : xs[i]? = some x)
      (hy : ys[i]? = some y) (h : Meet g t x y path t' d s) :
      Meet g t (.arr xs) (.arr ys) (toString i :: path) t' d s

theorem Meet.symm (h : Meet g t dst src path t' d s) : Meet g t src dst path t' s d := by
  induction h with
  | here => exact .here
  | key hx hy _ ih => exact .key hy hx ih
  | index hk hx hy _ ih => exact .index hk hy hx ih

/-- Following the segments leads to where the documents meet. -/
theorem Meet.resolve (h : Meet g t dst src path t' d s) (hdst : dst.Addressable) :
    Location.resolveSegments path dst = some d ∧ Location.resolveSegments path src = some s := by
  induction h with
  | here => exact ⟨rfl, rfl⟩
  | key hx hy _ ih =>
    rw [Document.addressable_obj] at hdst
    obtain ⟨hd, hs⟩ := ih (hdst _ (Members.mem_of_get? hx))
    rw [Location.resolveSegments, Location.resolveSegments, Location.step?, Location.step?, hx, hy]
    exact ⟨hd, hs⟩
  | @index t t' xs ys i x y d s path hk hx hy _ ih =>
    rw [Document.addressable_arr] at hdst
    obtain ⟨hd, hs⟩ := ih (hdst.2 _ (List.mem_of_getElem? hx))
    have hi : i < Numeral.wordLimit :=
      Nat.lt_of_lt_of_le (List.getElem?_eq_some_iff.1 hx).1 hdst.1
    rw [Location.resolveSegments, Location.resolveSegments, Location.step?, Location.step?,
      Location.index?_toString hi, Option.bind_some, Option.bind_some, hx, hy]
    exact ⟨hd, hs⟩

/-- Equal documents meet at equal values only. -/
theorem Meet.equal (h : Meet g t dst src path t' d s) (he : dst.equal src = true) :
    d.equal s = true := by
  induction h with
  | here => exact he
  | key hx hy _ ih =>
    obtain ⟨y', hy', hxy⟩ := (Document.equal_obj.1 he).2 _ (Members.mem_of_get? hx)
    rw [hy] at hy'
    cases hy'
    exact ih hxy
  | index hk hx hy _ ih =>
    have hitems := (forall₂_iff_getElem?.1 (Document.equal_arr.1 he)).2
    exact ih (hitems _ _ _ hx hy)

/-! ## What a conflict is -/

/-- Two values that can be in conflict where a destination and a source meet: these themselves, if
they cannot be united; or, if they are sets, an item of the source with an item of the destination
or an earlier one of the source that has the same sort key. -/
inductive Clash (t : Transition) : Document → Document → Document → Document → Prop where
  | leaf {d s : Document} (h : Apart d s) : Clash t d s d s
  | item {key : SortKey} {xs pre post : List Document} {x y : Document}
      (hk : t.behavior.sortKey = some key) (hkey : key.key x = key.key y)
      (hx : x ∈ xs ∨ x ∈ pre) : Clash t (.arr xs) (.arr (pre ++ y :: post)) x y

theorem conflicts_mergeLeaf {policy : Policy} :
    (mergeLeaf policy loc dst src).conflicts =
      if dst.equal src = true then [] else [⟨loc, dst, src⟩] := by
  unfold mergeLeaf
  rw [Document.beq_def]
  by_cases he : dst.equal src = true
  · rw [if_pos he, if_pos he]
  · rw [if_neg he, if_neg he]
    cases policy <;> rfl

theorem mem_conflicts_mergeLeaf {policy : Policy} {c : Conflict} :
    c ∈ (mergeLeaf policy loc dst src).conflicts ↔
      dst.equal src = false ∧ c = ⟨loc, dst, src⟩ := by
  rw [conflicts_mergeLeaf]
  cases dst.equal src <;> simp

/-- A conflict of two sets is between an item of the source and one that came before it. -/
theorem mem_conflicts_mergeSetItems {key : SortKey} {policy : Policy} {seen : KeyedItems}
    {items : List Document} {c : Conflict}
    (hkeyed : ∀ k x, seen.get? k = some x → key.key x = k)
    (hc : c ∈ (mergeSetItems key policy loc seen items).2) :
    c.location = loc ∧ c.destination.equal c.source = false ∧
      key.key c.destination = key.key c.source ∧
      ∃ pre post, items = pre ++ c.source :: post ∧
        ((∃ k, seen.get? k = some c.destination) ∨ c.destination ∈ pre) := by
  induction items generalizing seen with
  | nil => cases hc
  | cons item rest ih =>
    rw [mergeSetItems_cons, List.mem_append] at hc
    rcases hc with hc | hc
    · -- a conflict of this item is with what is held under its key
      obtain ⟨held, hg, hne, rfl⟩ := mem_conflicts_mergeSetItem.1 hc
      exact ⟨rfl, hne, hkeyed _ _ hg, [], rest, rfl, .inl ⟨_, hg⟩⟩
    · -- a conflict of a later item is with what this item has left
      have hkeyed' : ∀ k x, (mergeSetItem key policy loc seen item).1.get? k = some x →
          key.key x = k := by
        intro k x h
        rcases get?_mergeSetItem_origin h with h | ⟨rfl, hk⟩
        · exact hkeyed k x h
        · exact hk
      obtain ⟨hloc, hne, hkey, pre, post, rfl, hfrom⟩ := ih hkeyed' hc
      refine ⟨hloc, hne, hkey, item :: pre, post, rfl, ?_⟩
      rcases hfrom with ⟨k, h⟩ | h
      · rcases get?_mergeSetItem_origin h with h | ⟨h, -⟩
        · exact .inl ⟨k, h⟩
        · exact .inr (h ▸ List.mem_cons_self)
      · exact .inr (List.mem_cons_of_mem _ h)

/-- Every conflict of a merge is between unequal values that clash where the sides meet. -/
theorem exists_clash_of_mem_conflicts (hsrc : src.Distinct) {c : Conflict}
    (hc : c ∈ (mergeAt g t loc dst src).conflicts) :
    ∃ path t' d s, Meet g t dst src path t' d s ∧ c.location = ⟨loc.segments ++ path⟩ ∧
      c.destination.equal c.source = false ∧ Clash t' d s c.destination c.source := by
  induction t, loc, dst, src using merge_induction g with
  | leaf t loc dst src hap =>
    rw [mergeAt_leaf hap] at hc
    obtain ⟨hne, rfl⟩ := mem_conflicts_mergeLeaf.1 hc
    exact ⟨[], t, dst, src, .here, by rw [List.append_nil], hne, .leaf hap⟩
  | set t loc key dst src hk =>
    rw [mergeAt_set hk, conflicts_mergeSet] at hc
    have hkeyed : ∀ k x, (keyItems key dst).get? k = some x → key.key x = k :=
      fun k x h => (get?_keyItems_origin h).2
    obtain ⟨hloc, hne, hkey, pre, post, rfl, hfrom⟩ := mem_conflicts_mergeSetItems hkeyed hc
    refine ⟨[], t, .arr dst, _, .here, by rw [List.append_nil, hloc], hne, .item hk hkey ?_⟩
    exact hfrom.imp_left fun ⟨_, h⟩ => (get?_keyItems_origin h).1
  | list t loc dst src hk ih =>
    rw [Document.distinct_arr] at hsrc
    rw [mergeAt_list hk] at hc
    obtain ⟨i, x, y, hx, hy, -, hc⟩ := mem_conflicts_mergeItems.1 hc
    obtain ⟨path, t', d, s, hmeet, hloc, hclash⟩ :=
      ih i x y hx hy (hsrc y (List.mem_of_getElem? hy)) hc
    refine ⟨toString i :: path, t', d, s, .index hk hx hy hmeet, ?_, hclash⟩
    rw [hloc, Location.pushIndex, Location.push, List.append_assoc]
    rfl
  | obj t loc dst src ih =>
    have hn := (Document.distinct_obj.1 hsrc).1
    rw [mergeAt_obj] at hc
    obtain ⟨k, x, y, hx, hm, hc⟩ := (mem_conflicts_mergeMembers hn).1 hc
    have hy : Members.get? k src = some y := Members.get?_of_mem hn hm
    obtain ⟨path, t', d, s, hmeet, hloc, hclash⟩ := ih k x y hx hm (hsrc.get? hy) hc
    refine ⟨k :: path, t', d, s, .key hx hy hmeet, ?_, hclash⟩
    rw [hloc, Location.push, List.append_assoc]
    rfl

/-! ## Every conflict once -/

/-- If the entries of a list have different tags, what one tag alone brings forth comes once. -/
theorem flatMap_eq_of_tag {α β γ : Type} {f : α → List β} {tag : α → γ} {xs : List α} {x : α}
    (hn : (xs.map tag).Nodup) (hx : x ∈ xs) (h : ∀ y ∈ xs, tag y ≠ tag x → f y = []) :
    xs.flatMap f = f x := by
  induction xs with
  | nil => cases hx
  | cons a as ih =>
    obtain ⟨hhead, htail⟩ := List.nodup_cons.1 hn
    rw [List.flatMap_cons]
    rcases List.mem_cons.1 hx with rfl | hx
    · have hrest : as.flatMap f = [] := by
        refine List.flatMap_eq_nil_iff.2 fun y hy => h y (List.mem_cons_of_mem _ hy) fun e => ?_
        exact hhead (e ▸ List.mem_map_of_mem hy)
      rw [hrest, List.append_nil]
    · have hfirst : f a = [] :=
        h a List.mem_cons_self fun e => hhead (e ▸ List.mem_map_of_mem hx)
      rw [hfirst, List.nil_append]
      exact ih htail hx fun y hy => h y (List.mem_cons_of_mem _ hy)

/-- Whether a conflict is at a location. -/
def Conflict.isAt (loc : Location) (c : Conflict) : Bool :=
  c.location == loc

/-- The conflicts of a merge below a segment have that segment in their locations. -/
theorem getElem?_segments_of_mem_conflicts {k : String} (hsrc : src.Distinct) {c : Conflict}
    (hc : c ∈ (mergeAt g t (loc.push k) dst src).conflicts) :
    c.location.segments[loc.segments.length]? = some k := by
  obtain ⟨path, _, _, _, -, hloc, -⟩ := exists_clash_of_mem_conflicts hsrc hc
  simp [hloc, Location.push]

/-- A merge below one segment reports nothing below another. -/
theorem filter_conflicts_of_ne {k k' : String} (hk : k' ≠ k) (hsrc : src.Distinct) :
    (mergeAt g t (loc.push k') dst src).conflicts.filter
      (Conflict.isAt ⟨loc.segments ++ k :: path⟩) = [] := by
  refine List.filter_eq_nil_iff.2 fun c hc hat => ?_
  have hsegment := getElem?_segments_of_mem_conflicts hsrc hc
  rw [beq_iff_eq.1 hat] at hsegment
  exact hk (by simpa using hsegment.symm)

/-- What two objects report below a key of both is what the values under the key report there. -/
theorem filter_conflicts_of_key {xs ys : Members} {k : String} {x y : Document}
    (hx : Members.get? k xs = some x) (hy : Members.get? k ys = some y)
    (hsrc : Document.Distinct (.obj ys)) :
    (mergeAt g t loc (.obj xs) (.obj ys)).conflicts.filter
        (Conflict.isAt ⟨loc.segments ++ k :: path⟩) =
      (mergeAt g (g.child t.node k) (loc.push k) x y).conflicts.filter
        (Conflict.isAt ⟨loc.segments ++ k :: path⟩) := by
  obtain ⟨hn, hdistinct⟩ := Document.distinct_obj.1 hsrc
  have hm : (k, y) ∈ ys := Members.mem_of_get? hy
  -- other members report below other keys
  have hother : ∀ m ∈ ys, m.1 ≠ k → (memberStep g t.node loc xs m.1 m.2).conflicts.filter
      (Conflict.isAt ⟨loc.segments ++ k :: path⟩) = [] := by
    intro m hm hk
    cases hx' : Members.get? m.1 xs with
    | none =>
      rw [memberStep_of_none hx']
      rfl
    | some x' =>
      rw [memberStep_of_some hx']
      exact filter_conflicts_of_ne hk (hdistinct m hm)
  rw [mergeAt_obj, conflicts_mergeMembers hn, List.filter_flatMap,
    flatMap_eq_of_tag hn hm hother, memberStep_of_some hx]

/-- What two ordered arrays report below an index of both is what the items there report. -/
theorem filter_conflicts_of_index {xs ys : List Document} {i : Nat} {x y : Document}
    (hk : t.behavior.sortKey = none) (hx : xs[i]? = some x) (hy : ys[i]? = some y)
    (hsrc : Document.Distinct (.arr ys)) :
    (mergeAt g t loc (.arr xs) (.arr ys)).conflicts.filter
        (Conflict.isAt ⟨loc.segments ++ toString i :: path⟩) =
      (itemStep g t loc i x y).conflicts.filter
        (Conflict.isAt ⟨loc.segments ++ toString i :: path⟩) := by
  rw [Document.distinct_arr] at hsrc
  have hm : ((x, y), i) ∈ (xs.zip ys).zipIdx :=
    List.mk_mem_zipIdx_iff_getElem?.2 (List.getElem?_zip_eq_some.2 ⟨hx, hy⟩)
  have hn : ((xs.zip ys).zipIdx.map Prod.snd).Nodup := by
    rw [List.zipIdx_map_snd]
    exact List.nodup_range'
  -- other items report below other indices
  have hother : ∀ p ∈ (xs.zip ys).zipIdx, p.2 ≠ i →
      (itemStep g t loc p.2 p.1.1 p.1.2).conflicts.filter
        (Conflict.isAt ⟨loc.segments ++ toString i :: path⟩) = [] := by
    rintro ⟨⟨x', y'⟩, j⟩ hp hj
    obtain ⟨-, hy'⟩ := List.getElem?_zip_eq_some.1 (List.mk_mem_zipIdx_iff_getElem?.1 hp)
    by_cases he : x'.equal y' = true
    · rw [itemStep_of_equal he]
      rfl
    · rw [itemStep_of_not_equal he]
      exact filter_conflicts_of_ne (fun e => hj (Location.eq_of_toString_eq e))
        (hsrc y' (List.mem_of_getElem? hy'))
  rw [mergeAt_list hk, conflicts_mergeItems, List.filter_flatMap, flatMap_eq_of_tag hn hm hother]

/-- Unequal values that meet and cannot be united are reported, and are all that is reported at their
location. -/
theorem filter_conflicts_mergeAt (h : Meet g t dst src path t' d s) (hsrc : src.Distinct)
    (hap : Apart d s) (hne : d.equal s = false) (loc : Location) :
    (mergeAt g t loc dst src).conflicts.filter (Conflict.isAt ⟨loc.segments ++ path⟩) =
      [⟨⟨loc.segments ++ path⟩, d, s⟩] := by
  induction h generalizing loc with
  | @here t dst src =>
    have hconflicts : (mergeAt g t loc dst src).conflicts = [⟨loc, dst, src⟩] := by
      rw [mergeAt_leaf hap, conflicts_mergeLeaf, hne, if_neg Bool.false_ne_true]
    rw [hconflicts, List.append_nil]
    exact List.filter_cons_of_pos (beq_iff_eq.2 rfl)
  | @key t t' xs ys k x y d s path hx hy hmeet ih =>
    have hstep := ih (hsrc.get? hy) hap hne (loc.push k)
    rw [Location.push, List.append_assoc] at hstep
    rw [filter_conflicts_of_key hx hy hsrc]
    exact hstep
  | @index t t' xs ys i x y d s path hk hx hy hmeet ih =>
    -- equal items are left alone, but nothing unequal meets below them
    have he : ¬ x.equal y = true := by
      intro he
      rw [hmeet.equal he] at hne
      cases hne
    have hstep := ih (Document.distinct_arr.1 hsrc y (List.mem_of_getElem? hy)) hap hne
      (loc.pushIndex i)
    rw [Location.pushIndex, Location.push, List.append_assoc] at hstep
    rw [filter_conflicts_of_index hk hx hy hsrc, itemStep_of_not_equal he]
    exact hstep

/-! ## Whole documents -/

/-- A merge reports the real conflicts.  Each one is between unequal values that clash at its
location: these are what the location leads to in the two documents, and they cannot be united, or
they are items with one sort key of the sets that it leads to.  And where two documents meet at
unequal values that cannot be united, these are reported, once. -/
theorem merge_conflicts (g : Grammar) (hdst : dst.Addressable) (hsrc : src.Distinct) :
    (∀ c ∈ (merge g dst src).conflicts, c.destination.equal c.source = false ∧
      ∃ t d s, Meet g g.entry dst src c.location.segments t d s ∧
        c.location.resolve dst = some d ∧ c.location.resolve src = some s ∧
        Clash t d s c.destination c.source) ∧
    ∀ loc t d s, Meet g g.entry dst src loc.segments t d s → Apart d s → d.equal s = false →
      (merge g dst src).conflicts.filter (Conflict.isAt loc) = [⟨loc, d, s⟩] := by
  constructor
  · intro c hc
    obtain ⟨path, t, d, s, hmeet, hloc, hne, hclash⟩ := exists_clash_of_mem_conflicts hsrc hc
    have hpath : c.location.segments = path := by
      rw [hloc]
      rfl
    obtain ⟨hd, hs⟩ := hmeet.resolve hdst
    rw [Location.resolve, Location.resolve, hpath]
    exact ⟨hne, t, d, s, hmeet, hd, hs, hclash⟩
  · intro loc t d s hmeet hap hne
    exact filter_conflicts_mergeAt hmeet hsrc hap hne .root

/-- A schema with a title that requires one property. -/
def requiringSchema (property : Document) (title : String) : Document :=
  .obj [("required", .arr [property]), ("title", .str title)]

/-- The string `1` and the number 1 have one sort key, so they are in conflict as the titles are. -/
theorem merge_conflicts_required :
    let dst := requiringSchema (.str "1") "a"
    let src := requiringSchema (.num (.int 1)) "b"
    (merge .jsonSchema dst src).conflicts.length = 2 ∧
      (∀ c ∈ (merge .jsonSchema dst src).conflicts,
        ∃ t d s, c.location.resolve dst = some d ∧ c.location.resolve src = some s ∧
          Clash t d s c.destination c.source) ∧
      (merge .jsonSchema dst src).conflicts.filter (Conflict.isAt ⟨["title"]⟩) =
        [⟨⟨["title"]⟩, .str "a", .str "b"⟩] := by
  have hdst : (requiringSchema (.str "1") "a").Addressable :=
    ⟨⟨by decide, trivial, trivial⟩, trivial, trivial⟩
  have hsrc : (requiringSchema (.num (.int 1)) "b").Distinct := by decide
  obtain ⟨hclash, honce⟩ := merge_conflicts .jsonSchema hdst hsrc
  refine ⟨by decide +kernel, fun c hc => ?_, ?_⟩
  · obtain ⟨-, t, d, s, -, hd, hs, h⟩ := hclash c hc
    exact ⟨t, d, s, hd, hs, h⟩
  · exact honce ⟨["title"]⟩ _ _ _ (.key rfl rfl .here) ⟨by decide, by decide⟩ (by decide)

/-- The first item of an array and the value under the key `0` of an object have one location, but
they do not meet: the merge stops at the array and the object. -/
theorem merge_skips_mixed_places :
    let dst : Document := .obj [("x", .obj [("0", .num (.int 1))])]
    let src : Document := .obj [("x", .arr [.num (.int 2)])]
    let loc : Location := ⟨["x", "0"]⟩
    (∀ keys ∈ [[], ["x"], ["x", "0"]],
        (Grammar.openApi.follow Grammar.openApi.entry keys).behavior.sortKey = none) ∧
      loc.resolve dst = some (.num (.int 1)) ∧ loc.resolve src = some (.num (.int 2)) ∧
      Apart (.num (.int 1)) (.num (.int 2)) ∧
      (Document.num (.int 1)).equal (.num (.int 2)) = false ∧
      (merge .openApi dst src).conflicts.map Conflict.location = [⟨["x"]⟩] ∧
      (merge .openApi dst src).conflicts.filter (Conflict.isAt loc) = [] :=
  ⟨by decide, rfl, rfl, ⟨by decide, by decide⟩, by decide, rfl, rfl⟩

end SchemaLoom
