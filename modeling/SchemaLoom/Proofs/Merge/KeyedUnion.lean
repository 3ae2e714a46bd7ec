import SchemaLoom.Grammar.OpenApi
import SchemaLoom.Proofs.Merge.Order
import SchemaLoom.Proofs.Merge.Sets
import SchemaLoom.Proofs.Merge.Steps

/-!
# Which items a union of sets holds

The items of a union are held by their keys while the source is read, item by item.  So under each
key of either side there is one item in the end, and which one it is hangs on the policy and on the
order in which the items with that key came.

- `firstWith`, `lastWith`: the first and the last item of a list with a key.
- `Stays`: the item that a union keeps under a key, by the policy.
- `get?_mergeSetItems_keep`, `get?_mergeSetItems_replace`: what is held under a key in the end.
- `exists_mem_unitedItems_iff`: the keys of a union are those of its sides.
- `mergeAt_keyedUnion`: all of this for two arrays at a place with a sort key.
-/

namespace SchemaLoom

variable {g : Grammar} {t : Transition} {key : SortKey} {policy : Policy} {loc : Location}
variable {seen : KeyedItems} {item : Document} {k : String}

/-! ## The first and the last item with a key -/

/-- The first item of a list with a key. -/
def firstWith (key : SortKey) (items : List Document) (k : String) : Option Document :=
  items.find? fun d => key.key d = k

/-- The last item of a list with a key. -/
def lastWith (key : SortKey) (items : List Document) (k : String) : Option Document :=
  items.reverse.find? fun d => key.key d = k

theorem firstWith_cons (d : Document) (ds : List Document) :
    firstWith key (d :: ds) k = if key.key d = k then some d else firstWith key ds k := by
  rw [firstWith, List.find?_cons]
  by_cases hk : key.key d = k
  · rw [if_pos hk, decide_eq_true hk]
  · rw [if_neg hk, decide_eq_false hk]
    rfl

/-- An item in front is the last one with its key only if no other item has the key. -/
theorem lastWith_cons (d : Document) (ds : List Document) :
    lastWith key (d :: ds) k =
      (lastWith key ds k).or (if key.key d = k then some d else none) := by
  rw [lastWith, List.reverse_cons, List.find?_append, lastWith]
  congr 1
  by_cases hk : key.key d = k
  · rw [if_pos hk, List.find?_singleton, decide_eq_true hk, if_pos rfl]
  · rw [if_neg hk, List.find?_singleton, decide_eq_false hk, if_neg Bool.false_ne_true]

/-- The item that a union of two sets keeps under a key.  What was there first is the last item of
the destination, since its items replace each other before the source is read, or else the first
item of the source; what comes in last is the last item of the source, or one that equals it. -/
def Stays (key : SortKey) (dst src : List Document) (k : String) (d : Document) : Policy → Prop
  | .keep => (lastWith key dst k).or (firstWith key src k) = some d
  | .replace =>
    match lastWith key src k with
    | some item => d.equal item = true
    | none => lastWith key dst k = some d

/-! ## One item of the source -/

/-- Where what was first stays, an item is held only if its key is new. -/
theorem get?_mergeSetItem_keep :
    (mergeSetItem key .keep loc seen item).1.get? k =
      (seen.get? k).or (if key.key item = k then some item else none) := by
  by_cases hk : key.key item = k
  · subst hk
    rw [if_pos rfl]
    cases hg : seen.get? (key.key item) with
    | some held => exact get?_mergeSetItem_kept (.inl rfl) hg
    | none =>
      rcases mergeSetItem_cases key .keep loc seen item with ⟨-, e⟩ | ⟨held, hg', -⟩
      · rw [e]
        exact SortedMap.get?_insert_self ..
      · rw [hg] at hg'
        cases hg'
  · rw [get?_mergeSetItem_of_ne hk, if_neg hk, Option.or_none]

/-! ## All items of the source -/

/-- Where what was first stays, what is held in the end was held before, or else it is the first
item of the source with its key. -/
theorem get?_mergeSetItems_keep (src : List Document) :
    (mergeSetItems key .keep loc seen src).1.get? k =
      (seen.get? k).or (firstWith key src k) := by
  induction src generalizing seen with
  | nil => exact Option.or_none.symm
  | cons y rest ih =>
    rw [mergeSetItems_cons, ih, get?_mergeSetItem_keep, Option.or_assoc, firstWith_cons]
    congr 1
    by_cases hk : key.key y = k
    · rw [if_pos hk, if_pos hk, Option.some_or]
    · rw [if_neg hk, if_neg hk, Option.none_or]

/-- Where what comes in stays, what is held in the end equals the last item of the source with its
key, or else it was held before. -/
theorem get?_mergeSetItems_replace {src : List Document} (hsrc : ∀ y ∈ src, y.Distinct)
    (key : SortKey) (loc : Location) (seen : KeyedItems) (k : String) :
    match lastWith key src k with
    | some y => ∃ d, (mergeSetItems key .replace loc seen src).1.get? k = some d ∧ d.equal y = true
    | none => (mergeSetItems key .replace loc seen src).1.get? k = seen.get? k := by
  induction src generalizing seen with
  | nil => rfl
  | cons y rest ih =>
    obtain ⟨hy, hrest⟩ := List.forall_mem_cons.1 hsrc
    have hend := ih hrest (mergeSetItem key .replace loc seen y).1
    rw [mergeSetItems_cons, lastWith_cons]
    cases hlast : lastWith key rest k with
    | some y' =>
      rw [hlast] at hend
      exact hend
    | none =>
      rw [hlast] at hend
      rw [Option.none_or]
      by_cases hk : key.key y = k
      · subst hk
        obtain ⟨d, hd, he⟩ : ∃ d, (mergeSetItem key .replace loc seen y).1.get? (key.key y) =
            some d ∧ d.equal y = true := exists_get?_mergeSetItem (.inl rfl) hy
        rw [if_pos rfl]
        exact ⟨d, hend.trans hd, he⟩
      · rw [if_neg hk]
        exact hend.trans (get?_mergeSetItem_of_ne hk)

/-! ## Arrays at a place with a sort key -/

theorem mem_unitedItems_iff {dst src : List Document} {d : Document} :
    d ∈ unitedItems key policy loc dst src ↔
      (mergeSetItems key policy loc (keyItems key dst) src).1.get? (key.key d) = some d := by
  rw [unitedItems, SortedMap.mem_values_iff]
  constructor
  · rintro ⟨k, hk⟩
    rw [key_of_get?_mergeSetItems hk]
    exact hk
  · exact fun h => ⟨_, h⟩

/-- The keys of a union are those of its sides. -/
theorem exists_mem_unitedItems_iff {dst src : List Document} :
    (∃ d ∈ unitedItems key policy loc dst src, key.key d = k) ↔
      (∃ x ∈ dst, key.key x = k) ∨ ∃ y ∈ src, key.key y = k := by
  have hheld : (∃ d ∈ unitedItems key policy loc dst src, key.key d = k) ↔
      ∃ d, (mergeSetItems key policy loc (keyItems key dst) src).1.get? k = some d := by
    constructor
    · rintro ⟨d, hd, rfl⟩
      exact ⟨d, mem_unitedItems_iff.1 hd⟩
    · rintro ⟨d, hd⟩
      exact ⟨d, SortedMap.mem_values_iff.2 ⟨k, hd⟩, key_of_get?_mergeSetItems hd⟩
  rw [hheld, exists_get?_mergeSetItems_iff]
  refine or_congr_left ⟨?_, ?_⟩
  · rintro ⟨d, hd⟩
    exact ⟨d, get?_keyItems_origin hd⟩
  · rintro ⟨x, hx, rfl⟩
    exact (exists_get?_keyItems hx).imp fun d hd => hd.2.2

/-- Every item of a union is the one that stays under its key. -/
theorem stays_of_mem_unitedItems {dst src : List Document} (hsrc : ∀ y ∈ src, y.Distinct)
    {d : Document} (h : d ∈ unitedItems key policy loc dst src) :
    Stays key dst src (key.key d) d policy := by
  rw [mem_unitedItems_iff] at h
  cases policy with
  | keep =>
    rw [get?_mergeSetItems_keep, get?_keyItems] at h
    exact h
  | replace =>
    have hend := get?_mergeSetItems_replace hsrc key loc (keyItems key dst) (key.key d)
    unfold Stays
    cases hlast : lastWith key src (key.key d) with
    | some y =>
      rw [hlast] at hend
      obtain ⟨d', hd', he⟩ := hend
      rw [h] at hd'
      cases hd'
      exact he
    | none =>
      rw [hlast, h, get?_keyItems] at hend
      exact hend.symm

/-- Two arrays under a sort key are united by it.  The keys of the union increase strictly, and they
are the keys of the two sides; each item comes from one of the sides, and it is the one that stays
under its key. -/
theorem mergeAt_keyedUnion {dst src : List Document} (hk : t.behavior.sortKey = some key)
    (hsrc : Document.Distinct (.arr src)) (loc : Location) :
    ∃ items, (mergeAt g t loc (.arr dst) (.arr src)).value = .arr items ∧
      items.Pairwise (fun a b => key.key a < key.key b) ∧
      (∀ k, (∃ d ∈ items, key.key d = k) ↔
        (∃ x ∈ dst, key.key x = k) ∨ ∃ y ∈ src, key.key y = k) ∧
      (∀ d ∈ items, d ∈ dst ∨ d ∈ src) ∧
      ∀ d ∈ items, Stays key dst src (key.key d) d t.behavior.policy := by
  refine ⟨unitedItems key t.behavior.policy loc dst src, ?_, pairwise_unitedItems dst src,
    fun _ => exists_mem_unitedItems_iff, fun _ => mem_unitedItems, fun d hd => ?_⟩
  · rw [mergeAt_set hk, value_mergeSet]
  · exact stays_of_mem_unitedItems (Document.distinct_arr.1 hsrc) hd

/-- A server variable with a default. -/
def namedDefault (name value : String) : Document :=
  .obj [("name", .str name), ("default", .str value)]

/-- A name that comes twice on each side: what comes in last stays. -/
theorem mergeAt_keyedUnion_replace :
    let key : SortKey := .identity ["name"]
    let t : Transition := ⟨.data, ⟨some key, .replace⟩⟩
    let dst := [namedDefault "port" "80", namedDefault "host" "a", namedDefault "port" "81"]
    let src := [namedDefault "port" "82", namedDefault "zone" "b", namedDefault "port" "83"]
    (t.behavior.sortKey = some key ∧ Document.Distinct (.arr src)) ∧
      ∃ items, (mergeAt .openApi t .root (.arr dst) (.arr src)).value = .arr items ∧
        items.map key.key = ["host", "port", "zone"] ∧
        (∀ d ∈ items, key.key d = "port" → d.equal (namedDefault "port" "83") = true) ∧
        ∀ d ∈ items, key.key d = "host" → d = namedDefault "host" "a" := by
  intro key t dst src
  have hsrc : Document.Distinct (.arr src) := by decide
  have hkeys : (mergeAt .openApi t .root (.arr dst) (.arr src)).value.asArray?.map
      (List.map key.key) = some ["host", "port", "zone"] := by decide +kernel
  obtain ⟨items, hitems, -, -, -, hstays⟩ :=
    @mergeAt_keyedUnion .openApi t key dst src rfl hsrc .root
  rw [hitems] at hkeys
  refine ⟨⟨rfl, hsrc⟩, items, hitems, Option.some.inj hkeys, fun d hd hk => ?_, fun d hd hk => ?_⟩
  · have hstay := hstays d hd
    rw [hk] at hstay
    exact hstay
  · have hstay := hstays d hd
    rw [hk] at hstay
    exact (Option.some.inj hstay).symm

end SchemaLoom
