/-!
# Sorted maps

A map whose entries are listed in strictly increasing order of their keys.  The order is part of
the type, so two maps with the same entries are equal and a map can be shown as it is held.

- `SortedMap.get?`, `SortedMap.insert`: look up a key and set its value.
- `SortedMap.sorted`: the invariant.
- `SortedMap.get?_insert`: what a look-up finds after setting a value.
- `SortedMap.ext_get?`: maps that answer every look-up alike are equal.
-/

namespace SchemaLoom

universe u v

open Std (TransOrd LawfulEqOrd)

/-- A map from keys to values as the list of its entries, sorted by key. -/
structure SortedMap (κ : Type u) (β : Type v) [Ord κ] where
  entries : List (κ × β)
  sorted : entries.Pairwise fun a b => compare a.1 b.1 = .lt

namespace SortedMap

variable {κ : Type u} {β : Type v} [Ord κ]

instance [DecidableEq κ] [DecidableEq β] : DecidableEq (SortedMap κ β) := fun a b =>
  if h : a.entries = b.entries then
    isTrue (by cases a; cases b; cases h; rfl)
  else isFalse fun e => h (e ▸ rfl)

@[ext] theorem ext {a b : SortedMap κ β} (h : a.entries = b.entries) : a = b := by
  cases a; cases b; cases h; rfl

/-- The map without entries. -/
def empty : SortedMap κ β := ⟨[], List.Pairwise.nil⟩

instance : EmptyCollection (SortedMap κ β) := ⟨empty⟩

instance : Inhabited (SortedMap κ β) := ⟨empty⟩

def size (m : SortedMap κ β) : Nat := m.entries.length

def isEmpty (m : SortedMap κ β) : Bool := m.entries.isEmpty

def keys (m : SortedMap κ β) : List κ := m.entries.map Prod.fst

def values (m : SortedMap κ β) : List β := m.entries.map Prod.snd

/-- The value of a key in a list of entries. -/
def find? (key : κ) : List (κ × β) → Option β
  | [] => none
  | (k, v) :: rest => if compare k key = .eq then some v else find? key rest

/-- The value of a key. -/
def get? (m : SortedMap κ β) (key : κ) : Option β :=
  find? key m.entries

def contains (m : SortedMap κ β) (key : κ) : Bool :=
  (m.get? key).isSome

/-- Set the value of a key in a sorted list of entries. -/
def place (key : κ) (value : β) : List (κ × β) → List (κ × β)
  | [] => [(key, value)]
  | (k, v) :: rest =>
    match compare key k with
    | .lt => (key, value) :: (k, v) :: rest
    | .eq => (key, value) :: rest
    | .gt => (k, v) :: place key value rest

theorem mem_place {key : κ} {value : β} {es : List (κ × β)} {e : κ × β}
    (h : e ∈ place key value es) : e = (key, value) ∨ e ∈ es := by
  induction es with
  | nil => exact .inl (List.mem_singleton.1 h)
  | cons x es ih =>
    obtain ⟨k, v⟩ := x
    simp only [place] at h
    split at h
    · rcases List.mem_cons.1 h with h | h
      · exact .inl h
      · exact .inr h
    · rcases List.mem_cons.1 h with h | h
      · exact .inl h
      · exact .inr (List.mem_cons_of_mem _ h)
    · rcases List.mem_cons.1 h with h | h
      · exact .inr (h ▸ List.mem_cons_self)
      · exact (ih h).imp_right (List.mem_cons_of_mem _)

theorem pairwise_place [TransOrd κ] [LawfulEqOrd κ] {key : κ} {value : β} {es : List (κ × β)}
    (h : es.Pairwise fun a b => compare a.1 b.1 = .lt) :
    (place key value es).Pairwise fun a b => compare a.1 b.1 = .lt := by
  induction es with
  | nil => simp [place]
  | cons x es ih =>
    obtain ⟨k, v⟩ := x
    obtain ⟨hx, hes⟩ := List.pairwise_cons.1 h
    simp only [place]
    split
    · next hlt =>
      refine List.pairwise_cons.2 ⟨fun e he => ?_, h⟩
      rcases List.mem_cons.1 he with rfl | he
      · exact hlt
      · exact Std.TransCmp.lt_trans hlt (hx e he)
    · next heq =>
      have : key = k := Std.LawfulEqCmp.eq_of_compare heq
      subst this
      exact List.pairwise_cons.2 ⟨hx, hes⟩
    · next hgt =>
      refine List.pairwise_cons.2 ⟨fun e he => ?_, ih hes⟩
      rcases mem_place he with rfl | he
      · exact Std.OrientedCmp.lt_of_gt hgt
      · exact hx e he

/-- Set the value of a key. -/
def insert [TransOrd κ] [LawfulEqOrd κ] (m : SortedMap κ β) (key : κ) (value : β) :
    SortedMap κ β :=
  ⟨place key value m.entries, pairwise_place m.sorted⟩

/-- The map of a list of pairs; of two with one key the later one stays. -/
def ofList [TransOrd κ] [LawfulEqOrd κ] (pairs : List (κ × β)) : SortedMap κ β :=
  pairs.foldl (fun m p => m.insert p.1 p.2) empty

/-! ## Look-ups -/

theorem find?_place [TransOrd κ] [LawfulEqOrd κ] (key k : κ) (v : β) (es : List (κ × β)) :
    find? key (place k v es) = if compare k key = .eq then some v else find? key es := by
  induction es with
  | nil => simp [place, find?]
  | cons x es ih =>
    obtain ⟨k', v'⟩ := x
    simp only [place]
    split
    · simp [find?]
    · next heq =>
      have : k = k' := Std.LawfulEqCmp.eq_of_compare heq
      subst this
      by_cases h : compare k key = .eq <;> simp [find?, h]
    · next hgt =>
      by_cases h : compare k' key = .eq
      · have : k' = key := Std.LawfulEqCmp.eq_of_compare h
        subst this
        simp [find?, hgt]
      · simp [find?, h, ih]

/-- Setting a key changes the answer for that key alone. -/
theorem get?_insert [TransOrd κ] [LawfulEqOrd κ] (m : SortedMap κ β) (key k : κ) (v : β) :
    (m.insert k v).get? key = if compare k key = .eq then some v else m.get? key :=
  find?_place key k v m.entries

theorem find?_eq_none_of_lt [TransOrd κ] [LawfulEqOrd κ] {key : κ} {es : List (κ × β)}
    (h : ∀ e ∈ es, compare key e.1 = .lt) : find? key es = none := by
  induction es with
  | nil => rfl
  | cons x es ih =>
    obtain ⟨hx, hes⟩ := List.forall_mem_cons.1 h
    have hne : compare x.1 key ≠ .eq := by
      intro e
      have hk : x.1 = key := Std.LawfulEqCmp.eq_of_compare e
      have hself : compare key key = .eq := Std.ReflCmp.compare_self
      rw [hk, hself] at hx
      exact absurd hx (by decide)
    simp [find?, hne, ih hes]

/-- Sorted entries are determined by what they answer. -/
theorem entries_eq_of_find? [TransOrd κ] [LawfulEqOrd κ] :
    ∀ {as bs : List (κ × β)}, as.Pairwise (fun a b => compare a.1 b.1 = .lt) →
      bs.Pairwise (fun a b => compare a.1 b.1 = .lt) → (∀ k, find? k as = find? k bs) → as = bs
  | [], [], _, _, _ => rfl
  | [], (k, v) :: bs, _, _, h => by
    have := h k
    simp [find?] at this
  | (k, v) :: as, [], _, _, h => by
    have := h k
    simp [find?] at this
  | (k, v) :: as, (k', v') :: bs, ha, hb, h => by
    obtain ⟨ha1, ha2⟩ := List.pairwise_cons.1 ha
    obtain ⟨hb1, hb2⟩ := List.pairwise_cons.1 hb
    have hk : k = k' := by
      rcases hc : compare k k' with _ | _ | _
      · have hn : find? k ((k', v') :: bs) = none :=
          find?_eq_none_of_lt (List.forall_mem_cons.2
            ⟨hc, fun e he => Std.TransCmp.lt_trans hc (hb1 e he)⟩)
        have := h k
        rw [hn] at this
        simp [find?] at this
      · exact Std.LawfulEqCmp.eq_of_compare hc
      · have hc' : compare k' k = .lt := Std.OrientedCmp.lt_of_gt hc
        have hn : find? k' ((k, v) :: as) = none :=
          find?_eq_none_of_lt (List.forall_mem_cons.2
            ⟨hc', fun e he => Std.TransCmp.lt_trans hc' (ha1 e he)⟩)
        have := h k'
        rw [hn] at this
        simp [find?] at this
    subst hk
    have hv : v = v' := by
      have := h k
      simpa [find?] using this
    subst hv
    have hrest : ∀ key, find? key as = find? key bs := by
      intro key
      by_cases hkey : compare k key = .eq
      · have : k = key := Std.LawfulEqCmp.eq_of_compare hkey
        subst this
        rw [find?_eq_none_of_lt ha1, find?_eq_none_of_lt hb1]
      · have := h key
        simpa [find?, hkey] using this
    rw [entries_eq_of_find? ha2 hb2 hrest]

/-- Maps that answer every look-up alike are equal. -/
theorem ext_get? [TransOrd κ] [LawfulEqOrd κ] {a b : SortedMap κ β}
    (h : ∀ k, a.get? k = b.get? k) : a = b :=
  ext (entries_eq_of_find? a.sorted b.sorted h)

end SortedMap

end SchemaLoom
