import Mathlib.Data.List.Forall2
import Mathlib.Data.List.Induction
import Mathlib.Data.List.Nodup
import SchemaLoom.SortedMap

/-!
# The entries of a sorted map

- `SortedMap.get?_eq_some_iff`: a look-up finds exactly the entries.
- `SortedMap.mem_values_iff`: the values are what look-ups find.
- `SortedMap.size_insert`: setting a new key makes one entry more.
- `SortedMap.get?_ofList`: of the pairs with one key, the last one stays.
- `SortedMap.get?_ofList_eq_some_iff`: where pairs with one key are equal, each pair is found.
- `SortedMap.ofList_entries`: a map can be made again from its entries.
- `SortedMap.forall₂_entries_iff`: maps are in step exactly when their look-ups are.
-/

namespace SchemaLoom

universe u v

open Std (TransOrd LawfulEqOrd)

namespace SortedMap

variable {κ : Type u} {β γ : Type v} [Ord κ]

/-- Entries in step answer every look-up in step. -/
theorem rel_find?_of_forall₂ {R : β → γ → Prop} {es : List (κ × β)} {fs : List (κ × γ)}
    (h : List.Forall₂ (fun x y => x.1 = y.1 ∧ R x.2 y.2) es fs) (key : κ) :
    Option.Rel R (find? key es) (find? key fs) := by
  induction h with
  | nil => exact .none
  | @cons x y _ _ hxy _ ih =>
    obtain ⟨k, v⟩ := x
    obtain ⟨k', w⟩ := y
    obtain ⟨rfl, hR⟩ := hxy
    unfold find?
    split
    · exact .some hR
    · exact ih

variable [LawfulEqOrd κ]

theorem find?_eq_some_iff {es : List (κ × β)}
    (hs : es.Pairwise fun a b => compare a.1 b.1 = .lt) {key : κ} {value : β} :
    find? key es = some value ↔ (key, value) ∈ es := by
  induction es with
  | nil => simp [find?]
  | cons e es ih =>
    obtain ⟨k, v⟩ := e
    obtain ⟨he, hs⟩ := List.pairwise_cons.1 hs
    rw [find?]
    split
    next h =>
      have hk : k = key := LawfulEqOrd.eq_of_compare h
      subst hk
      have hnot : (k, value) ∉ es := by
        intro hm
        have hlt : compare k k = .lt := he _ hm
        rw [h] at hlt
        cases hlt
      simp [hnot, eq_comm]
    next h =>
      have hne : key ≠ k := by
        rintro rfl
        exact h Std.ReflCmp.compare_self
      simp [ih hs, hne]

/-- A look-up finds exactly the entries. -/
theorem get?_eq_some_iff {m : SortedMap κ β} {key : κ} {value : β} :
    m.get? key = some value ↔ (key, value) ∈ m.entries :=
  find?_eq_some_iff m.sorted

/-- Sorted entries are determined by which they are. -/
theorem entries_eq_of_mem_iff [TransOrd κ] {es fs : List (κ × β)}
    (hes : es.Pairwise fun a b => compare a.1 b.1 = .lt)
    (hfs : fs.Pairwise fun a b => compare a.1 b.1 = .lt) (h : ∀ e, e ∈ es ↔ e ∈ fs) : es = fs := by
  refine entries_eq_of_find? hes hfs fun key => Option.ext fun value => ?_
  rw [find?_eq_some_iff hes, find?_eq_some_iff hfs, h]

theorem mem_values_iff {m : SortedMap κ β} {value : β} :
    value ∈ m.values ↔ ∃ key, m.get? key = some value := by
  simp [values, get?_eq_some_iff]

theorem nodup_keys (m : SortedMap κ β) : m.keys.Nodup := by
  refine List.pairwise_map.2 (m.sorted.imp fun {a b} hlt he => ?_)
  have hself : compare a.1 b.1 = .eq := he ▸ Std.ReflCmp.compare_self
  rw [hlt] at hself
  cases hself

theorem mem_keys_iff {m : SortedMap κ β} {key : κ} :
    key ∈ m.keys ↔ (m.get? key).isSome = true := by
  rw [Option.isSome_iff_exists]
  simp [keys, get?_eq_some_iff]

/-- A map without entries is one that answers no look-up. -/
theorem isEmpty_iff_get? {m : SortedMap κ β} : m.isEmpty = true ↔ ∀ key, m.get? key = none := by
  rw [isEmpty, List.isEmpty_iff, List.eq_nil_iff_forall_not_mem]
  constructor
  · exact fun h key => Option.eq_none_iff_forall_ne_some.2 fun value hv =>
      h (key, value) (get?_eq_some_iff.1 hv)
  · rintro h ⟨key, value⟩ hm
    have hv : m.get? key = some value := get?_eq_some_iff.2 hm
    rw [h key] at hv
    cases hv

variable [TransOrd κ]

theorem get?_insert_self (m : SortedMap κ β) (key : κ) (value : β) :
    (m.insert key value).get? key = some value := by
  rw [get?_insert, if_pos Std.ReflCmp.compare_self]

theorem get?_insert_of_ne (m : SortedMap κ β) {key k : κ} (h : k ≠ key) (value : β) :
    (m.insert k value).get? key = m.get? key := by
  rw [get?_insert, if_neg fun e => h (LawfulEqOrd.eq_of_compare e)]

/-- A key that was not there makes one entry more. -/
theorem size_insert {m : SortedMap κ β} {key : κ} (h : m.get? key = none) (value : β) :
    (m.insert key value).size = m.size + 1 := by
  have hplace : ∀ es : List (κ × β), find? key es = none →
      (place key value es).length = es.length + 1 := by
    intro es
    induction es with
    | nil => exact fun _ => rfl
    | cons e es ih =>
      obtain ⟨k, v⟩ := e
      intro hnone
      rw [find?] at hnone
      unfold place
      split
      next => rfl
      next heq =>
        rw [LawfulEqOrd.eq_of_compare heq, if_pos Std.ReflCmp.compare_self] at hnone
        cases hnone
      next =>
        split at hnone
        · cases hnone
        · rw [List.length_cons, List.length_cons, ih hnone]
  exact hplace m.entries h

theorem ofList_append_singleton (pairs : List (κ × β)) (p : κ × β) :
    ofList (pairs ++ [p]) = (ofList pairs).insert p.1 p.2 := by
  rw [ofList, ofList, List.foldl_append, List.foldl_cons, List.foldl_nil]

/-- Of the pairs with one key, the last one stays. -/
theorem get?_ofList [DecidableEq κ] (pairs : List (κ × β)) (key : κ) :
    (ofList pairs).get? key = (pairs.reverse.find? fun p => p.1 = key).map Prod.snd := by
  induction pairs using List.reverseRecOn with
  | nil => rfl
  | append_singleton pairs p ih =>
    rw [ofList_append_singleton, List.reverse_append, List.reverse_singleton,
      List.singleton_append, List.find?_cons]
    by_cases h : p.1 = key
    · subst h
      rw [get?_insert_self]
      simp
    · rw [get?_insert_of_ne _ h, ih]
      simp [h]

/-- Where pairs with one key are equal, a look-up finds exactly the pairs. -/
theorem get?_ofList_eq_some_iff [DecidableEq κ] {pairs : List (κ × β)}
    (h : ∀ p ∈ pairs, ∀ q ∈ pairs, p.1 = q.1 → p = q) {key : κ} {value : β} :
    (ofList pairs).get? key = some value ↔ (key, value) ∈ pairs := by
  rw [get?_ofList, Option.map_eq_some_iff]
  constructor
  · rintro ⟨⟨k, v⟩, hfind, rfl⟩
    have hmem : (k, v) ∈ pairs := List.mem_reverse.1 (List.mem_of_find?_eq_some hfind)
    have hk : k = key := by simpa using List.find?_some hfind
    exact hk ▸ hmem
  · intro hmem
    cases hfind : pairs.reverse.find? fun p => p.1 = key with
    | none =>
      have hne := List.find?_eq_none.1 hfind _ (List.mem_reverse.2 hmem)
      simp at hne
    | some p =>
      have hp : p ∈ pairs := List.mem_reverse.1 (List.mem_of_find?_eq_some hfind)
      have hk : p.1 = key := by simpa using List.find?_some hfind
      exact ⟨p, rfl, congrArg Prod.snd (h p hp _ hmem hk)⟩

/-- The map of the entries of a map is the map itself. -/
theorem ofList_entries [DecidableEq κ] (m : SortedMap κ β) : ofList m.entries = m := by
  have huniq : ∀ p ∈ m.entries, ∀ q ∈ m.entries, p.1 = q.1 → p = q :=
    fun p hp q hq => List.inj_on_of_nodup_map m.nodup_keys hp hq
  refine ext_get? fun key => Option.ext fun value => ?_
  rw [get?_ofList_eq_some_iff huniq, get?_eq_some_iff]

/-! ## Maps in step -/

/-- Maps that answer the same look-ups list the same keys. -/
theorem keys_eq_of_isSome {m : SortedMap κ β} {n : SortedMap κ γ}
    (h : ∀ key, (m.get? key).isSome = (n.get? key).isSome) : m.keys = n.keys := by
  have hperm : m.keys.Perm n.keys := by
    refine (List.perm_ext_iff_of_nodup m.nodup_keys n.nodup_keys).2 fun key => ?_
    rw [mem_keys_iff, mem_keys_iff, h]
  have hantisymm : ∀ a b, a ∈ m.keys → b ∈ n.keys → compare a b = .lt → compare b a = .lt →
      a = b := by
    intro a b _ _ hab hba
    rw [Std.OrientedCmp.gt_of_lt hba] at hab
    cases hab
  exact hperm.eq_of_pairwise hantisymm (List.pairwise_map.2 m.sorted) (List.pairwise_map.2 n.sorted)

/-- Two maps list related values under the same keys exactly when they answer every look-up with
related values, or with none. -/
theorem forall₂_entries_iff {R : β → γ → Prop} {m : SortedMap κ β} {n : SortedMap κ γ} :
    List.Forall₂ (fun x y => x.1 = y.1 ∧ R x.2 y.2) m.entries n.entries ↔
      ∀ key, Option.Rel R (m.get? key) (n.get? key) := by
  constructor
  · exact fun h => rel_find?_of_forall₂ h
  · intro h
    have hkeys : m.keys = n.keys := by
      refine keys_eq_of_isSome fun key => ?_
      have hkey := h key
      cases hm : m.get? key <;> cases hn : n.get? key <;> simp_all
    have hlen : m.entries.length = n.entries.length := by
      simpa [keys] using congrArg List.length hkeys
    refine List.forall₂_iff_get.2 ⟨hlen, fun i hi hj => ?_⟩
    have hfst : (m.entries.get ⟨i, hi⟩).1 = (n.entries.get ⟨i, hj⟩).1 := by
      have hat := congrArg (fun ks => ks[i]?) hkeys
      simpa [keys, hi, hj] using hat
    -- what stands at one index of the two lists is what both answer to its key
    have hrel := h (m.entries.get ⟨i, hi⟩).1
    rw [get?_eq_some_iff.2 (List.get_mem m.entries ⟨i, hi⟩), hfst,
      get?_eq_some_iff.2 (List.get_mem n.entries ⟨i, hj⟩), Option.rel_some_some] at hrel
    exact ⟨hfst, hrel⟩

end SortedMap

end SchemaLoom
