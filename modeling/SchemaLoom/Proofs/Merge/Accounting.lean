import SchemaLoom.Proofs.Document.Parts
import SchemaLoom.Proofs.Merge.Conflicts
import SchemaLoom.Proofs.Merge.KeyedUnion
import SchemaLoom.Proofs.Normalization.OrderInvariance

/-!
# Items that a union of sets loses

An item of a set is accounted for when the union holds an equal one or a conflict names it.  Every
item of the source is, since it is compared with what is held under its key.  The items of the
destination are only put under their keys, and one that has a later item of the destination under
its key is dropped there without a conflict.

- `Accounted`: the union or the conflicts know of an item.
- `accounted_of_held`, `accounted_of_mem_source`: what is held when the source is read is accounted
  for, and so is what is read.
- `accounted_unitedItems`: which items of a destination are.
- `Merged.GivesAt`: what a merge gives at the end of some segments.
- `givesAt_of_meet`: where two documents meet, a merge of them gives a merge of what meets there.
- `mergeAt_accounts`: both together, for the sets of any two documents.
- `merge_drops_twin`: a parameter that is lost.
-/

namespace SchemaLoom

variable {g : Grammar} {t t' : Transition} {key : SortKey} {policy : Policy} {loc : Location}
variable {dst src d s : Document} {path : List String} {seen : KeyedItems}

/-! ## Two sets -/

/-- Some items or some conflicts know of a value: one of the items equals it, or it is one side of a
conflict. -/
def Accounted (items : List Document) (conflicts : List Conflict) (d : Document) : Prop :=
  (∃ e ∈ items, e.equal d = true) ∨
    ∃ c ∈ conflicts, c.destination.equal d = true ∨ c.source.equal d = true

theorem Accounted.mono {items : List Document} {conflicts more : List Conflict}
    (h : Accounted items conflicts d) (hsub : ∀ c ∈ conflicts, c ∈ more) :
    Accounted items more d :=
  h.imp_right fun ⟨c, hc, hd⟩ => ⟨c, hsub c hc, hd⟩

theorem Accounted.of_equal {items : List Document} {conflicts : List Conflict} {e : Document}
    (h : Accounted items conflicts e) (he : e.equal d = true) : Accounted items conflicts d := by
  rcases h with ⟨x, hx, hxe⟩ | ⟨c, hc, hce⟩
  · exact .inl ⟨x, hx, Document.equal_trans hxe he⟩
  · refine .inr ⟨c, hc, hce.imp ?_ ?_⟩
    · exact fun h => Document.equal_trans h he
    · exact fun h => Document.equal_trans h he

/-- What is held before an item of the source stays held, or is the destination of a conflict. -/
theorem held_or_mem_conflicts {k : String} {held : Document} (item : Document)
    (h : seen.get? k = some held) :
    (mergeSetItem key policy loc seen item).1.get? k = some held ∨
      ⟨loc, held, item⟩ ∈ (mergeSetItem key policy loc seen item).2 := by
  by_cases hconflict : (mergeSetItem key policy loc seen item).2 = []
  · exact .inl (get?_mergeSetItem_kept (.inr hconflict) h)
  · by_cases hk : key.key item = k
    · obtain ⟨c, hc⟩ := List.exists_mem_of_ne_nil _ hconflict
      obtain ⟨held', hg, -, rfl⟩ := mem_conflicts_mergeSetItem.1 hc
      rw [hk, h] at hg
      cases hg
      exact .inr hc
    · rw [get?_mergeSetItem_of_ne hk]
      exact .inl h

/-- What is held when the source is read is accounted for in the end. -/
theorem accounted_of_held {k : String} {held : Document} (items : List Document)
    (hd : held.Distinct) (h : seen.get? k = some held) :
    Accounted (mergeSetItems key policy loc seen items).1.values
      (mergeSetItems key policy loc seen items).2 held := by
  induction items generalizing seen with
  | nil => exact .inl ⟨held, SortedMap.mem_values_iff.2 ⟨k, h⟩, Document.equal_refl hd⟩
  | cons item rest ih =>
    rw [mergeSetItems_cons]
    rcases held_or_mem_conflicts item h with h | hc
    · exact (ih h).mono fun c hc => List.mem_append_right _ hc
    · exact .inr ⟨_, List.mem_append_left _ hc, .inl (Document.equal_refl hd)⟩

/-- What is read is accounted for in the end. -/
theorem accounted_of_mem_source {items : List Document} (hitems : ∀ y ∈ items, y.Distinct)
    (hseen : ∀ k held, seen.get? k = some held → held.Distinct) {y : Document} (hy : y ∈ items) :
    Accounted (mergeSetItems key policy loc seen items).1.values
      (mergeSetItems key policy loc seen items).2 y := by
  induction items generalizing seen with
  | nil => cases hy
  | cons item rest ih =>
    obtain ⟨hitem, hrest⟩ := List.forall_mem_cons.1 hitems
    have hafter : ∀ k held, (mergeSetItem key policy loc seen item).1.get? k = some held →
        held.Distinct := by
      intro k held h
      rcases get?_mergeSetItem_origin h with h | ⟨rfl, -⟩
      · exact hseen k held h
      · exact hitem
    rcases List.mem_cons.1 hy with rfl | hy
    · -- the item is held from now on, or an equal one is, or it is the source of a conflict
      cases hg : seen.get? (key.key y) with
      | none =>
        have hnew : (mergeSetItem key policy loc seen y).1.get? (key.key y) = some y := by
          unfold mergeSetItem
          rw [hg]
          exact SortedMap.get?_insert_self ..
        rw [mergeSetItems_cons]
        exact (accounted_of_held rest hitem hnew).mono fun c hc => List.mem_append_right _ hc
      | some held =>
        by_cases he : held.equal y = true
        · exact (accounted_of_held (y :: rest) (hseen _ _ hg) hg).of_equal he
        · have hc : ⟨loc, held, y⟩ ∈ (mergeSetItem key policy loc seen y).2 :=
            mem_conflicts_mergeSetItem.2 ⟨held, hg, Bool.eq_false_iff.2 he, rfl⟩
          rw [mergeSetItems_cons]
          exact .inr ⟨_, List.mem_append_left _ hc, .inr (Document.equal_refl hitem)⟩
    · rw [mergeSetItems_cons]
      exact (ih hrest hafter hy).mono fun c hc => List.mem_append_right _ hc

/-- Only items of the source, and last items of the destination with their keys, are known of in the
end. -/
theorem exists_of_accounted {xs ys : List Document}
    (h : Accounted (unitedItems key policy loc xs ys)
      (mergeSetItems key policy loc (keyItems key xs) ys).2 d) :
    (∃ y ∈ ys, y.equal d = true) ∨
      ∃ x ∈ xs, lastWith key xs (key.key x) = some x ∧ x.equal d = true := by
  -- what is held at first is the last item with its key
  have hlast : ∀ k x, (keyItems key xs).get? k = some x →
      x ∈ xs ∧ lastWith key xs (key.key x) = some x := by
    intro k x hx
    obtain ⟨hmem, hk⟩ := get?_keyItems_origin hx
    rw [get?_keyItems] at hx
    exact ⟨hmem, hk ▸ hx⟩
  rcases h with ⟨e, he, hed⟩ | ⟨c, hc, hcd⟩
  · rcases get?_mergeSetItems_origin (mem_unitedItems_iff.1 he) with h | ⟨he, -⟩
    · obtain ⟨hmem, hl⟩ := hlast _ _ h
      exact .inr ⟨e, hmem, hl, hed⟩
    · exact .inl ⟨e, he, hed⟩
  · obtain ⟨-, -, -, pre, post, rfl, hfrom⟩ :=
      mem_conflicts_mergeSetItems (fun k x h => (get?_keyItems_origin h).2) hc
    rcases hcd with hcd | hcd
    · rcases hfrom with ⟨k, h⟩ | h
      · obtain ⟨hmem, hl⟩ := hlast _ _ h
        exact .inr ⟨_, hmem, hl, hcd⟩
      · exact .inl ⟨_, List.mem_append_left _ h, hcd⟩
    · exact .inl ⟨_, List.mem_append_right _ List.mem_cons_self, hcd⟩

/-- Every item of the source is accounted for, and one of the destination is exactly when it equals
an item of the source or the last item of the destination with some key. -/
theorem accounted_unitedItems {xs ys : List Document} (hxs : ∀ x ∈ xs, x.Distinct)
    (hys : ∀ y ∈ ys, y.Distinct) :
    (∀ y ∈ ys, Accounted (unitedItems key policy loc xs ys)
      (mergeSetItems key policy loc (keyItems key xs) ys).2 y) ∧
    ∀ x ∈ xs, (Accounted (unitedItems key policy loc xs ys)
        (mergeSetItems key policy loc (keyItems key xs) ys).2 x ↔
      (∃ y ∈ ys, y.equal x = true) ∨
        ∃ e ∈ xs, lastWith key xs (key.key e) = some e ∧ e.equal x = true) := by
  have hseen : ∀ k held, (keyItems key xs).get? k = some held → held.Distinct :=
    fun k held h => hxs held (get?_keyItems_origin h).1
  have hsource : ∀ y ∈ ys, Accounted (unitedItems key policy loc xs ys)
      (mergeSetItems key policy loc (keyItems key xs) ys).2 y :=
    fun y hy => accounted_of_mem_source hys hseen hy
  refine ⟨hsource, fun x _ => ⟨exists_of_accounted, ?_⟩⟩
  rintro (⟨y, hy, hyx⟩ | ⟨e, he, hlast, hex⟩)
  · exact (hsource y hy).of_equal hyx
  · have hheld : (keyItems key xs).get? (key.key e) = some e := (get?_keyItems xs _).trans hlast
    exact Accounted.of_equal (accounted_of_held ys (hxs e he) hheld) hex

/-! ## What a merge gives below a place -/

/-- What a merge gives at the end of some segments: the value there and the conflicts that are
reported there. -/
structure Merged.GivesAt (m : Merged) (loc : Location) (path : List String) (part : Merged) :
    Prop where
  value : m.value.at? path = some part.value
  conflicts : m.conflicts.filter (Conflict.isAt ⟨loc.segments ++ path⟩) =
    part.conflicts.filter (Conflict.isAt ⟨loc.segments ++ path⟩)

/-- What is given below a key of both objects is given by the merge of the values under the key. -/
theorem givesAt_of_key {xs ys : Members} {k : String} {x y : Document} {part : Merged}
    (hx : Members.get? k xs = some x) (hy : Members.get? k ys = some y)
    (hsrc : Document.Distinct (.obj ys))
    (h : (mergeAt g (g.child t.node k) (loc.push k) x y).GivesAt (loc.push k) path part) :
    (mergeAt g t loc (.obj xs) (.obj ys)).GivesAt loc (k :: path) part := by
  obtain ⟨hvalue, hconflicts⟩ := h
  rw [Location.push, List.append_assoc] at hconflicts
  constructor
  · have hpart : (mergeAt g t loc (.obj xs) (.obj ys)).value.part? k =
        some (mergeAt g (g.child t.node k) (loc.push k) x y).value := by
      rw [mergeAt_obj, Document.part?_obj, get?_mergeMembers (Document.distinct_obj.1 hsrc).1, hy]
      exact congrArg (fun step => some step.value) (memberStep_of_some hx)
    rw [Document.at?_cons_of_part? hpart, hvalue]
  · rw [filter_conflicts_of_key hx hy hsrc]
    exact hconflicts

/-- What is given below an index of both arrays is given by what becomes of the items there. -/
theorem givesAt_of_index {xs ys : List Document} {i : Nat} {x y : Document} {part : Merged}
    (hk : t.behavior.sortKey = none) (hx : xs[i]? = some x) (hy : ys[i]? = some y)
    (hsrc : Document.Distinct (.arr ys))
    (h : (itemStep g t loc i x y).GivesAt (loc.pushIndex i) path part) :
    (mergeAt g t loc (.arr xs) (.arr ys)).GivesAt loc (toString i :: path) part := by
  obtain ⟨hvalue, hconflicts⟩ := h
  rw [Location.pushIndex, Location.push, List.append_assoc] at hconflicts
  constructor
  · have hpart : (mergeAt g t loc (.arr xs) (.arr ys)).value.part? (toString i) =
        some (itemStep g t loc i x y).value := by
      rw [mergeAt_list hk, Document.part?_arr, getElem?_mergeItems, hx, hy, Nat.zero_add]
    rw [Document.at?_cons_of_part? hpart, hvalue]
  · rw [filter_conflicts_of_index hk hx hy hsrc]
    exact hconflicts

/-- Where two documents meet, the destination is found at the end of the segments. -/
theorem Meet.at? (h : Meet g t dst src path t' d s) : dst.at? path = some d := by
  induction h with
  | here => rfl
  | key hx _ _ ih =>
    rw [Document.at?_cons_of_part? ((Document.part?_obj _ _).trans hx), ih]
  | index _ hx _ _ ih =>
    rw [Document.at?_cons_of_part? ((Document.part?_arr _ _).trans hx), ih]

/-- Where two documents meet, a merge of them gives the merge of what meets there; but below equal
items of ordered arrays it leaves the destination as it is. -/
theorem givesAt_of_meet (h : Meet g t dst src path t' d s) (hsrc : src.Distinct)
    (loc : Location) :
    (mergeAt g t loc dst src).GivesAt loc path (mergeAt g t' ⟨loc.segments ++ path⟩ d s) ∨
      d.equal s = true ∧ (mergeAt g t loc dst src).GivesAt loc path ⟨d, []⟩ := by
  induction h generalizing loc with
  | here =>
    rw [List.append_nil]
    exact .inl ⟨rfl, rfl⟩
  | @key t t' xs ys k x y d s path hx hy hmeet ih =>
    have hbelow := ih (hsrc.get? hy) (loc.push k)
    rw [Location.push, List.append_assoc] at hbelow
    rcases hbelow with hgives | ⟨he, hgives⟩
    · exact .inl (givesAt_of_key hx hy hsrc hgives)
    · exact .inr ⟨he, givesAt_of_key hx hy hsrc hgives⟩
  | @index t t' xs ys i x y d s path hk hx hy hmeet ih =>
    by_cases he : x.equal y = true
    · refine .inr ⟨hmeet.equal he, givesAt_of_index hk hx hy hsrc ?_⟩
      rw [itemStep_of_equal he]
      exact ⟨hmeet.at?, rfl⟩
    · have hbelow := ih (Document.distinct_arr.1 hsrc y (List.mem_of_getElem? hy)) (loc.pushIndex i)
      rw [← itemStep_of_not_equal he, Location.pushIndex, Location.push,
        List.append_assoc] at hbelow
      rcases hbelow with hgives | ⟨he, hgives⟩
      · exact .inl (givesAt_of_index hk hx hy hsrc hgives)
      · exact .inr ⟨he, givesAt_of_index hk hx hy hsrc hgives⟩

/-! ## Sets of two documents -/

theorem filter_conflicts_mergeSet (xs ys : List Document) :
    (mergeSet key policy loc xs ys).conflicts.filter (Conflict.isAt loc) =
      (mergeSetItems key policy loc (keyItems key xs) ys).2 := by
  rw [conflicts_mergeSet, List.filter_eq_self]
  intro c hc
  exact beq_iff_eq.2 (mem_conflicts_mergeSetItems (fun k x h => (get?_keyItems_origin h).2) hc).1

/-- Where two sets meet, a merge gives a set there.  Every item of the source equals one of its
items or is one side of a conflict that is reported there.  Of the items of the destination this is
true of exactly those that equal an item of the source or the last item of the destination with some
key; any other one is lost silently. -/
theorem mergeAt_accounts {xs ys : List Document}
    (hmeet : Meet g t dst src path t' (.arr xs) (.arr ys)) (hk : t'.behavior.sortKey = some key)
    (hdst : dst.Distinct) (hsrc : src.Distinct) (loc : Location) :
    ∃ items, (mergeAt g t loc dst src).value.at? path = some (.arr items) ∧
      (∀ y ∈ ys, Accounted items ((mergeAt g t loc dst src).conflicts.filter
        (Conflict.isAt ⟨loc.segments ++ path⟩)) y) ∧
      ∀ x ∈ xs, (Accounted items ((mergeAt g t loc dst src).conflicts.filter
          (Conflict.isAt ⟨loc.segments ++ path⟩)) x ↔
        (∃ y ∈ ys, y.equal x = true) ∨
          ∃ e ∈ xs, lastWith key xs (key.key e) = some e ∧ e.equal x = true) := by
  have hxs : ∀ x ∈ xs, x.Distinct := Document.distinct_arr.1 (hdst.at? hmeet.at?)
  have hys : ∀ y ∈ ys, y.Distinct := Document.distinct_arr.1 (hsrc.at? hmeet.symm.at?)
  rcases givesAt_of_meet hmeet hsrc loc with ⟨hvalue, hconflicts⟩ | ⟨he, hvalue, hconflicts⟩
  · rw [mergeAt_set hk] at hvalue hconflicts
    rw [filter_conflicts_mergeSet] at hconflicts
    rw [hconflicts]
    exact ⟨_, hvalue, accounted_unitedItems hxs hys⟩
  · -- the two sets are equal, and the destination's stays
    rw [Document.equal_arr] at he
    rw [hconflicts]
    refine ⟨xs, hvalue, fun y hy => .inl (exists_mem_of_forall₂ he hy), fun x hx => ?_⟩
    obtain ⟨y, hy, hxy⟩ := exists_mem_of_forall₂ he.flip hx
    refine iff_of_true (.inl ⟨x, hx, Document.equal_refl (hxs x hx)⟩) (.inl ⟨y, hy, ?_⟩)
    exact Document.equal_symm (hxs x hx) (hys y hy) hxy

/-- The parameters of one operation in two documents meet. -/
theorem meet_operationWith (xs ys : List Document) :
    Meet .openApi Grammar.openApi.entry (operationWith xs) (operationWith ys)
      ["paths", "/p", "get", "parameters"]
      (Grammar.openApi.follow Grammar.openApi.entry ["paths", "/p", "get", "parameters"])
      (.arr xs) (.arr ys) :=
  .key rfl rfl (.key rfl rfl (.key rfl rfl (.key rfl rfl .here)))

/-- A merge of two such documents unites the parameters. -/
theorem value_merge_operationWith (xs ys : List Document) :
    (merge .openApi (operationWith xs) (operationWith ys)).value =
      operationWith (unitedItems (.identity ["in", "name"]) .keep
        ⟨["paths", "/p", "get", "parameters"]⟩ xs ys) :=
  rfl

/-- The source has an equal of the first of two parameters with one name, and both are accounted
for. -/
theorem mergeAt_accounts_twins :
    let first := queryParameter "a" "first"
    let second := queryParameter "a" "second"
    let dst := operationWith [first, second]
    let src := operationWith [first]
    (dst.Distinct ∧ src.Distinct) ∧
      ∃ items, (merge .openApi dst src).value.at? ["paths", "/p", "get", "parameters"] =
          some (.arr items) ∧
        ∀ x ∈ [first, second], Accounted items ((merge .openApi dst src).conflicts.filter
          (Conflict.isAt ⟨["paths", "/p", "get", "parameters"]⟩)) x := by
  intro first second dst src
  have hdst : dst.Distinct := by decide
  have hsrc : src.Distinct := by decide
  obtain ⟨items, hvalue, -, hiff⟩ :=
    mergeAt_accounts (meet_operationWith [first, second] [first]) rfl hdst hsrc .root
  refine ⟨⟨hdst, hsrc⟩, items, hvalue, fun x hx => (hiff x hx).2 ?_⟩
  rcases List.mem_pair.1 hx with rfl | rfl
  · exact .inl ⟨_, List.mem_singleton_self _, by decide⟩
  · exact .inr ⟨_, List.mem_cons_of_mem _ (List.mem_singleton_self _), rfl, by decide⟩

/-- Of two items with one key only the later one is held. -/
theorem values_keyItems_pair {a b : Document} (h : key.key a = key.key b) :
    (keyItems key [a, b]).values = [b] := by
  have hcompare : compare (key.key b) (key.key a) = .eq := by
    rw [h]
    exact Std.ReflCmp.compare_self
  show (SortedMap.place (key.key b) b [(key.key a, a)]).map Prod.snd = [b]
  rw [SortedMap.place, hcompare]
  rfl

/-- Of two parameters of the destination with one name the first is lost: the merge holds only the
second and reports no conflict, so nothing accounts for the first. -/
theorem merge_drops_twin :
    let first := queryParameter "a" "first"
    let second := queryParameter "a" "second"
    let merged := merge .openApi (operationWith [first, second]) (operationWith [])
    ((operationWith [first, second]).Distinct ∧ (operationWith []).Distinct) ∧
      merged.value = operationWith [second] ∧ merged.conflicts = [] ∧
      ¬ Accounted [second] (merged.conflicts.filter
        (Conflict.isAt ⟨["paths", "/p", "get", "parameters"]⟩)) first := by
  intro first second merged
  have hconflicts : merged.conflicts = [] := rfl
  have hheld : (keyItems (.identity ["in", "name"]) [first, second]).values = [second] :=
    values_keyItems_pair rfl
  have hvalue : merged.value = operationWith [second] :=
    (value_merge_operationWith [first, second] []).trans (congrArg operationWith hheld)
  refine ⟨⟨by decide, by decide⟩, hvalue, hconflicts, ?_⟩
  rw [hconflicts]
  rintro (⟨e, he, hequal⟩ | ⟨c, hc, -⟩)
  · rw [List.mem_singleton.1 he] at hequal
    exact absurd hequal (by decide)
  · cases hc

end SchemaLoom
