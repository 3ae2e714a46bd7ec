import SchemaLoom.Merge
import SchemaLoom.Proofs.Document.Canonical
import SchemaLoom.Proofs.SortedMap

/-!
# Merging sets

The items of two sets are held by their keys.  One item of the source does one of four things
(`mergeSetItem_cases`), and from that follows what all of them do:

- `get?_mergeSetItems_origin`: every item held comes from one of the sides.
- `exists_get?_mergeSetItems_iff`: the keys held are those of the sides.
- `get?_mergeSetItems_kept`: what is held stays, unless a conflict replaces it.
- `exists_get?_mergeSetItems`: without conflicts every item of the source has its equal.
- `conflicts_mergeSetItems_eq_nil`: sides that agree wherever their keys do have no conflict.
- `conflicts_mergeSetItems`: where no key comes twice, each item of the source has its own conflict.
- `mergeSetItems_of_equal`: a source of which the destination holds everything changes nothing.
- `pairwise_unitedItems`: the items of the union stand in strictly increasing order of their keys.
-/

namespace SchemaLoom

variable {key : SortKey} {policy : Policy} {loc : Location}

/-! ## Items by their keys -/

/-- The last item with a key is the one that is held. -/
theorem get?_keyItems (items : List Document) (k : String) :
    (keyItems key items).get? k = items.reverse.find? fun d => key.key d = k := by
  rw [keyItems, SortedMap.get?_ofList, ← List.map_reverse, List.find?_map, Option.map_map]
  exact Option.map_id_apply

theorem get?_keyItems_origin {items : List Document} {k : String} {d : Document}
    (h : (keyItems key items).get? k = some d) : d ∈ items ∧ key.key d = k := by
  rw [get?_keyItems] at h
  exact ⟨List.mem_reverse.1 (List.mem_of_find?_eq_some h), by simpa using List.find?_some h⟩

theorem exists_get?_keyItems {items : List Document} {d : Document} (h : d ∈ items) :
    ∃ e ∈ items, key.key e = key.key d ∧ (keyItems key items).get? (key.key d) = some e := by
  cases hg : (keyItems key items).get? (key.key d) with
  | none =>
    rw [get?_keyItems, List.find?_eq_none] at hg
    exact absurd (by simp) (hg d (List.mem_reverse.2 h))
  | some e =>
    obtain ⟨he, hk⟩ := get?_keyItems_origin hg
    exact ⟨e, he, hk, rfl⟩

/-- Where no key comes twice, every item is held. -/
theorem get?_keyItems_of_mem {items : List Document} (hn : (items.map key.key).Nodup)
    {d : Document} (h : d ∈ items) : (keyItems key items).get? (key.key d) = some d := by
  obtain ⟨e, he, hkey, hget⟩ := exists_get?_keyItems h
  rw [hget, List.inj_on_of_nodup_map hn he h hkey]

/-- Items that are held under their own keys can be listed and held again. -/
theorem keyItems_values {m : KeyedItems} (h : ∀ k d, m.get? k = some d → key.key d = k) :
    keyItems key m.values = m := by
  have hpairs : m.values.map (fun d => (key.key d, d)) = m.entries := by
    rw [SortedMap.values, List.map_map]
    refine (List.map_congr_left fun e he => ?_).trans (List.map_id _)
    exact Prod.ext (h e.1 e.2 (SortedMap.get?_eq_some_iff.2 he)) rfl
  rw [keyItems, hpairs, SortedMap.ofList_entries]

/-- Items in strictly increasing order of their keys are listed in the order in which they came. -/
theorem values_keyItems {items : List Document}
    (h : items.Pairwise fun a b => key.key a < key.key b) : (keyItems key items).values = items := by
  have hsorted : (items.map fun d => (key.key d, d)).Pairwise
      fun a b => compare a.1 b.1 = .lt :=
    List.pairwise_map.2 (h.imp fun hab => compareOfLessAndEq_eq_lt.2 hab)
  have hentries := SortedMap.ofList_entries ⟨_, hsorted⟩
  rw [keyItems, hentries, SortedMap.values, List.map_map]
  exact List.map_id _

/-! ## One item of the source -/

/-- One item of a source is new, or equals what is held under its key, or is a conflict that the
policy settles. -/
theorem mergeSetItem_cases (key : SortKey) (policy : Policy) (loc : Location) (seen : KeyedItems)
    (item : Document) :
    (seen.get? (key.key item) = none ∧
      mergeSetItem key policy loc seen item = (seen.insert (key.key item) item, [])) ∨
    ∃ held, seen.get? (key.key item) = some held ∧
      (held.equal item = true ∧ mergeSetItem key policy loc seen item = (seen, []) ∨
      held.equal item = false ∧ policy = .keep ∧
        mergeSetItem key policy loc seen item = (seen, [⟨loc, held, item⟩]) ∨
      held.equal item = false ∧ policy = .replace ∧
        mergeSetItem key policy loc seen item =
          (seen.insert (key.key item) item, [⟨loc, held, item⟩])) := by
  unfold mergeSetItem
  cases hg : seen.get? (key.key item) with
  | none => exact .inl ⟨rfl, rfl⟩
  | some held =>
    refine .inr ⟨held, rfl, ?_⟩
    simp only [Document.beq_def]
    by_cases he : held.equal item = true
    · rw [if_pos he]
      exact .inl ⟨he, rfl⟩
    · have hne : held.equal item = false := Bool.eq_false_iff.2 he
      rw [if_neg he]
      cases policy with
      | keep => exact .inr (.inl ⟨hne, rfl, rfl⟩)
      | replace => exact .inr (.inr ⟨hne, rfl, rfl⟩)

theorem mergeSetItems_cons (seen : KeyedItems) (item : Document) (rest : List Document) :
    mergeSetItems key policy loc seen (item :: rest) =
      ((mergeSetItems key policy loc (mergeSetItem key policy loc seen item).1 rest).1,
        (mergeSetItem key policy loc seen item).2 ++
          (mergeSetItems key policy loc (mergeSetItem key policy loc seen item).1 rest).2) := rfl

/-- What is held after one item was held before or is the item. -/
theorem get?_mergeSetItem_origin {seen : KeyedItems} {item : Document} {k : String} {d : Document}
    (h : (mergeSetItem key policy loc seen item).1.get? k = some d) :
    seen.get? k = some d ∨ d = item ∧ key.key item = k := by
  have hins : (seen.insert (key.key item) item).get? k = some d →
      seen.get? k = some d ∨ d = item ∧ key.key item = k := by
    intro hd
    by_cases hk : key.key item = k
    · rw [hk, SortedMap.get?_insert_self] at hd
      exact .inr ⟨(Option.some.inj hd).symm, hk⟩
    · rw [SortedMap.get?_insert_of_ne _ hk] at hd
      exact .inl hd
  rcases mergeSetItem_cases key policy loc seen item with
    ⟨-, e⟩ | ⟨held, -, ⟨-, e⟩ | ⟨-, -, e⟩ | ⟨-, -, e⟩⟩
  · rw [e] at h
    exact hins h
  · rw [e] at h
    exact .inl h
  · rw [e] at h
    exact .inl h
  · rw [e] at h
    exact hins h

/-- What is held stays, unless a conflict replaces it. -/
theorem get?_mergeSetItem_kept {seen : KeyedItems} {item : Document} {k : String} {d : Document}
    (hkeep : policy = .keep ∨ (mergeSetItem key policy loc seen item).2 = [])
    (h : seen.get? k = some d) : (mergeSetItem key policy loc seen item).1.get? k = some d := by
  rcases mergeSetItem_cases key policy loc seen item with
    ⟨hnone, e⟩ | ⟨held, -, ⟨-, e⟩ | ⟨-, -, e⟩ | ⟨-, hp, e⟩⟩
  · rw [e]
    have hne : key.key item ≠ k := by
      rintro rfl
      rw [hnone] at h
      cases h
    rw [SortedMap.get?_insert_of_ne _ hne]
    exact h
  · rw [e]
    exact h
  · rw [e]
    exact h
  · rw [e, hp] at hkeep
    rcases hkeep with hk | hc
    · cases hk
    · cases hc

/-- What is held under other keys than that of the item is as it was. -/
theorem get?_mergeSetItem_of_ne {seen : KeyedItems} {item : Document} {k : String}
    (h : key.key item ≠ k) : (mergeSetItem key policy loc seen item).1.get? k = seen.get? k := by
  rcases mergeSetItem_cases key policy loc seen item with
    ⟨-, e⟩ | ⟨held, -, ⟨-, e⟩ | ⟨-, -, e⟩ | ⟨-, -, e⟩⟩
  · rw [e, SortedMap.get?_insert_of_ne _ h]
  · rw [e]
  · rw [e]
  · rw [e, SortedMap.get?_insert_of_ne _ h]

/-- One item makes its own key held, and no other one. -/
theorem exists_get?_mergeSetItem_iff {seen : KeyedItems} {item : Document} {k : String} :
    (∃ d, (mergeSetItem key policy loc seen item).1.get? k = some d) ↔
      (∃ d, seen.get? k = some d) ∨ key.key item = k := by
  by_cases hk : key.key item = k
  · subst hk
    refine iff_of_true ?_ (.inr rfl)
    rcases mergeSetItem_cases key policy loc seen item with
      ⟨-, e⟩ | ⟨held, hg, ⟨-, e⟩ | ⟨-, -, e⟩ | ⟨-, -, e⟩⟩
    · rw [e]
      exact ⟨item, SortedMap.get?_insert_self ..⟩
    · rw [e]
      exact ⟨held, hg⟩
    · rw [e]
      exact ⟨held, hg⟩
    · rw [e]
      exact ⟨item, SortedMap.get?_insert_self ..⟩
  · rw [get?_mergeSetItem_of_ne hk, or_iff_left hk]

/-- An item or one that equals it is held from then on, unless there is a conflict that keeps what
was held. -/
theorem exists_get?_mergeSetItem {seen : KeyedItems} {item : Document}
    (h : policy = .replace ∨ (mergeSetItem key policy loc seen item).2 = [])
    (hitem : item.Distinct) :
    ∃ d, (mergeSetItem key policy loc seen item).1.get? (key.key item) = some d ∧
      d.equal item = true := by
  rcases mergeSetItem_cases key policy loc seen item with
    ⟨-, e⟩ | ⟨held, hg, ⟨he, e⟩ | ⟨-, hp, e⟩ | ⟨-, -, e⟩⟩
  · rw [e]
    exact ⟨item, SortedMap.get?_insert_self .., Document.equal_refl hitem⟩
  · rw [e]
    exact ⟨held, hg, he⟩
  · rw [e, hp] at h
    rcases h with h | h
    · cases h
    · cases h
  · rw [e]
    exact ⟨item, SortedMap.get?_insert_self .., Document.equal_refl hitem⟩

/-- The conflicts of an item hang on nothing but what is held under its key. -/
theorem conflicts_mergeSetItem_congr {seen seen' : KeyedItems} {item : Document}
    (h : seen.get? (key.key item) = seen'.get? (key.key item)) :
    (mergeSetItem key policy loc seen item).2 = (mergeSetItem key policy loc seen' item).2 := by
  unfold mergeSetItem
  rw [h]
  cases seen'.get? (key.key item) with
  | none => rfl
  | some held =>
    dsimp only
    split
    · rfl
    · cases policy <;> rfl

/-- An item has a conflict exactly when an unequal one is held under its key. -/
theorem mem_conflicts_mergeSetItem {seen : KeyedItems} {item : Document} {c : Conflict} :
    c ∈ (mergeSetItem key policy loc seen item).2 ↔
      ∃ held, seen.get? (key.key item) = some held ∧ held.equal item = false ∧
        c = ⟨loc, held, item⟩ := by
  rcases mergeSetItem_cases key policy loc seen item with
    ⟨hg, e⟩ | ⟨held, hg, ⟨he, e⟩ | ⟨he, -, e⟩ | ⟨he, -, e⟩⟩
  · simp [e, hg]
  · simp [e, hg, he]
  · simp [e, hg, he]
  · simp [e, hg, he]

/-! ## All items of the source -/

/-- Every item held comes from one of the sides. -/
theorem get?_mergeSetItems_origin {src : List Document} {seen : KeyedItems} {k : String}
    {d : Document} (h : (mergeSetItems key policy loc seen src).1.get? k = some d) :
    seen.get? k = some d ∨ d ∈ src ∧ key.key d = k := by
  induction src generalizing seen with
  | nil => exact .inl h
  | cons item rest ih =>
    rw [mergeSetItems_cons] at h
    rcases ih h with h | ⟨hd, hk⟩
    · rcases get?_mergeSetItem_origin h with h | ⟨rfl, hk⟩
      · exact .inl h
      · exact .inr ⟨List.mem_cons_self, hk⟩
    · exact .inr ⟨List.mem_cons_of_mem _ hd, hk⟩

/-- The keys held in the end are those held before and those of the source. -/
theorem exists_get?_mergeSetItems_iff {src : List Document} {seen : KeyedItems} {k : String} :
    (∃ d, (mergeSetItems key policy loc seen src).1.get? k = some d) ↔
      (∃ d, seen.get? k = some d) ∨ ∃ y ∈ src, key.key y = k := by
  induction src generalizing seen with
  | nil => simp [mergeSetItems]
  | cons y rest ih =>
    rw [mergeSetItems_cons, ih, exists_get?_mergeSetItem_iff, or_assoc, List.exists_mem_cons_iff]

/-- What is held stays, unless a conflict replaces it. -/
theorem get?_mergeSetItems_kept {src : List Document} {seen : KeyedItems} {k : String}
    {d : Document} (hkeep : policy = .keep ∨ (mergeSetItems key policy loc seen src).2 = [])
    (h : seen.get? k = some d) : (mergeSetItems key policy loc seen src).1.get? k = some d := by
  induction src generalizing seen with
  | nil => exact h
  | cons item rest ih =>
    rw [mergeSetItems_cons, List.append_eq_nil_iff] at hkeep
    rw [mergeSetItems_cons]
    exact ih (hkeep.imp_right And.right) (get?_mergeSetItem_kept (hkeep.imp_right And.left) h)

/-- Without conflicts every item of the source has its equal in the union. -/
theorem exists_get?_mergeSetItems {src : List Document} {seen : KeyedItems}
    (hc : (mergeSetItems key policy loc seen src).2 = []) {item : Document} (hi : item ∈ src)
    (hd : Document.Distinct item) :
    ∃ d, (mergeSetItems key policy loc seen src).1.get? (key.key item) = some d ∧
      d.equal item = true := by
  induction src generalizing seen with
  | nil => cases hi
  | cons head rest ih =>
    rw [mergeSetItems_cons, List.append_eq_nil_iff] at hc
    obtain ⟨hhead, hrest⟩ := hc
    rw [mergeSetItems_cons]
    rcases List.mem_cons.1 hi with rfl | hi
    · -- the head has its equal at once, and nothing that follows replaces it
      obtain ⟨d, hg, he⟩ := exists_get?_mergeSetItem (.inr hhead) hd
      exact ⟨d, get?_mergeSetItems_kept (.inr hrest) hg, he⟩
    · exact ih hrest hi

/-- Sides that agree wherever their keys do have no conflict. -/
theorem conflicts_mergeSetItems_eq_nil {src : List Document} {seen : KeyedItems}
    (hagree : ∀ d, (d ∈ src ∨ ∃ k, seen.get? k = some d) → ∀ item ∈ src,
      key.key d = key.key item → d.equal item = true)
    (hkeyed : ∀ k d, seen.get? k = some d → key.key d = k) :
    (mergeSetItems key policy loc seen src).2 = [] := by
  induction src generalizing seen with
  | nil => rfl
  | cons item rest ih =>
    have hstep : (mergeSetItem key policy loc seen item).2 = [] := by
      rcases mergeSetItem_cases key policy loc seen item with
        ⟨-, e⟩ | ⟨held, hg, ⟨-, e⟩ | ⟨he, -, -⟩ | ⟨he, -, -⟩⟩
      · rw [e]
      · rw [e]
      all_goals
        have := hagree held (.inr ⟨_, hg⟩) item List.mem_cons_self (hkeyed _ _ hg)
        rw [this] at he
        cases he
    rw [mergeSetItems_cons, hstep, List.nil_append]
    refine ih (fun d hd other hm => hagree d ?_ other (List.mem_cons_of_mem _ hm)) fun k d h => ?_
    · rcases hd with hd | ⟨k, h⟩
      · exact .inl (List.mem_cons_of_mem _ hd)
      · rcases get?_mergeSetItem_origin h with h | ⟨rfl, -⟩
        · exact .inr ⟨k, h⟩
        · exact .inl List.mem_cons_self
    · rcases get?_mergeSetItem_origin h with h | ⟨rfl, hk⟩
      · exact hkeyed k d h
      · exact hk

/-- Where no key comes twice in the source, the conflicts are those that each of its items has with
what was held before. -/
theorem conflicts_mergeSetItems {src : List Document} {seen : KeyedItems}
    (hn : (src.map key.key).Nodup) :
    (mergeSetItems key policy loc seen src).2 =
      src.flatMap fun item => (mergeSetItem key policy loc seen item).2 := by
  induction src generalizing seen with
  | nil => rfl
  | cons item rest ih =>
    obtain ⟨hkey, hrest⟩ := List.nodup_cons.1 hn
    rw [mergeSetItems_cons, ih hrest, List.flatMap_cons]
    refine congrArg _ (List.flatMap_congr fun other hother => ?_)
    have hne : key.key item ≠ key.key other := fun e => hkey (e ▸ List.mem_map_of_mem hother)
    exact conflicts_mergeSetItem_congr (get?_mergeSetItem_of_ne hne)

/-- A new item whose key comes once in the source is held from then on, if what is held stays. -/
theorem get?_mergeSetItems_new {src : List Document} {seen : KeyedItems} {item : Document}
    (hn : (src.map key.key).Nodup) (hi : item ∈ src) (hnew : seen.get? (key.key item) = none) :
    (mergeSetItems key .keep loc seen src).1.get? (key.key item) = some item := by
  induction src generalizing seen with
  | nil => cases hi
  | cons head rest ih =>
    obtain ⟨hkey, hrest⟩ := List.nodup_cons.1 hn
    rw [mergeSetItems_cons]
    rcases List.mem_cons.1 hi with rfl | hi
    · refine get?_mergeSetItems_kept (.inl rfl) ?_
      rcases mergeSetItem_cases key .keep loc seen item with ⟨-, e⟩ | ⟨held, hg, -⟩
      · rw [e]
        exact SortedMap.get?_insert_self ..
      · rw [hnew] at hg
        cases hg
    · have hne : key.key head ≠ key.key item := fun e => hkey (e ▸ List.mem_map_of_mem hi)
      exact ih hrest hi ((get?_mergeSetItem_of_ne hne).trans hnew)

/-- If a key is held for every item of the source, and what is held stays, nothing comes in. -/
theorem mergeSetItems_of_held {src : List Document} {seen : KeyedItems}
    (h : ∀ item ∈ src, ∃ held, seen.get? (key.key item) = some held) :
    (mergeSetItems key .keep loc seen src).1 = seen := by
  induction src with
  | nil => rfl
  | cons item rest ih =>
    obtain ⟨hitem, hrest⟩ := List.forall_mem_cons.1 h
    have hstep : (mergeSetItem key .keep loc seen item).1 = seen := by
      rcases mergeSetItem_cases key .keep loc seen item with
        ⟨hnone, -⟩ | ⟨held, -, ⟨-, e⟩ | ⟨-, -, e⟩ | ⟨-, hp, -⟩⟩
      · obtain ⟨held, hg⟩ := hitem
        rw [hnone] at hg
        cases hg
      · rw [e]
      · rw [e]
      · cases hp
    rw [mergeSetItems_cons, hstep]
    exact ih hrest

/-- If the equal of every item of the source is held, nothing comes in and there is no conflict. -/
theorem mergeSetItems_of_equal {src : List Document} {seen : KeyedItems}
    (h : ∀ item ∈ src, ∃ held, seen.get? (key.key item) = some held ∧ held.equal item = true) :
    mergeSetItems key policy loc seen src = (seen, []) := by
  induction src with
  | nil => rfl
  | cons item rest ih =>
    obtain ⟨⟨held, hg, he⟩, hrest⟩ := List.forall_mem_cons.1 h
    have hstep : mergeSetItem key policy loc seen item = (seen, []) := by
      unfold mergeSetItem
      rw [hg]
      exact if_pos he
    rw [mergeSetItems_cons, hstep, ih hrest, List.nil_append]

/-! ## The union -/

/-- The items of the union of two sets. -/
def unitedItems (key : SortKey) (policy : Policy) (loc : Location) (dst src : List Document) :
    List Document :=
  (mergeSetItems key policy loc (keyItems key dst) src).1.values

theorem value_mergeSet (dst src : List Document) :
    (mergeSet key policy loc dst src).value = .arr (unitedItems key policy loc dst src) := rfl

theorem conflicts_mergeSet (dst src : List Document) :
    (mergeSet key policy loc dst src).conflicts =
      (mergeSetItems key policy loc (keyItems key dst) src).2 := rfl

/-- Every item held is held under its own key. -/
theorem key_of_get?_mergeSetItems {dst src : List Document} {k : String} {d : Document}
    (h : (mergeSetItems key policy loc (keyItems key dst) src).1.get? k = some d) :
    key.key d = k := by
  rcases get?_mergeSetItems_origin h with h | ⟨-, hk⟩
  · exact (get?_keyItems_origin h).2
  · exact hk

/-- The items of a union, held by their keys, are what was held at the end of the merge. -/
theorem keyItems_unitedItems (dst src : List Document) :
    keyItems key (unitedItems key policy loc dst src) =
      (mergeSetItems key policy loc (keyItems key dst) src).1 :=
  keyItems_values fun _ _ h => key_of_get?_mergeSetItems h

theorem mem_unitedItems {dst src : List Document} {d : Document}
    (h : d ∈ unitedItems key policy loc dst src) : d ∈ dst ∨ d ∈ src := by
  obtain ⟨k, hk⟩ := SortedMap.mem_values_iff.1 h
  rcases get?_mergeSetItems_origin hk with hk | ⟨hd, -⟩
  · exact .inl (get?_keyItems_origin hk).1
  · exact .inr hd

/-- The items of the union stand in strictly increasing order of their keys. -/
theorem pairwise_unitedItems (dst src : List Document) :
    (unitedItems key policy loc dst src).Pairwise fun a b => key.key a < key.key b := by
  refine List.pairwise_map.2 ?_
  refine (mergeSetItems key policy loc (keyItems key dst) src).1.sorted.imp_of_mem ?_
  intro a b ha hb hab
  have hkey : ∀ e ∈ (mergeSetItems key policy loc (keyItems key dst) src).1.entries,
      key.key e.2 = e.1 :=
    fun e he => key_of_get?_mergeSetItems (SortedMap.get?_eq_some_iff.2 he)
  rw [hkey a ha, hkey b hb]
  exact compareOfLessAndEq_eq_lt.1 hab

end SchemaLoom
