import SchemaLoom.Grammar.OpenApi
import SchemaLoom.Proofs.Document.Parts
import SchemaLoom.Walk

/-!
# What a walk lists

A walk keeps a stack, and what it lists is the recursion over its documents: the stack stands for the
calls that are still open.  The location of a step leads, segment by segment, from the place where
the walk began to the value of the step.  So two steps at one location have one value, and in one
document no two steps are at one location.

- `walkAt_obj`, `walkAt_arr`: the steps through an object and through an array.
- `Walk.remaining`, `Walk.take_eq`: what a walk still has before it, and that it takes this.
- `walk_eq_flatMap`: a walk lists one document after the other.
- `within_of_mem_walkAt`: the steps of a walk are at the place where it began or below it.
- `foundFrom_of_mem_walkAt`, `found_of_mem_walk`: a step holds what is found at its location, at the
  node that the keys on its location lead to.
- `pairwise_walkAt`: different steps are at different locations.
- `walk_preorder`: all of this, of a walk through any documents.
-/

namespace SchemaLoom

variable {g : Grammar} {node : NodeId} {loc : Location} {step : Step}

theorem walkMembers_eq_flatMap (members : Members) :
    walkMembers g node loc members =
      members.flatMap fun m => walkAt g (g.child node m.1).node (loc.push m.1) m.2 := by
  induction members with
  | nil => rw [walkMembers, List.flatMap_nil]
  | cons m rest ih => rw [walkMembers, List.flatMap_cons, ih]

theorem walkItems_eq_flatMap (n : Nat) (items : List Document) :
    walkItems g node loc n items =
      (items.zipIdx n).flatMap fun p => walkAt g node (loc.pushIndex p.2) p.1 := by
  induction items generalizing n with
  | nil => rw [walkItems, List.zipIdx_nil, List.flatMap_nil]
  | cons d rest ih => rw [walkItems, List.zipIdx_cons, List.flatMap_cons, ih]

/-- The steps through an object are its own and those through its members. -/
theorem walkAt_obj (members : Members) :
    walkAt g node loc (.obj members) = ⟨.obj members, g.kind node, loc⟩ ::
      members.flatMap fun m => walkAt g (g.child node m.1).node (loc.push m.1) m.2 := by
  rw [walkAt, walkMembers_eq_flatMap]

/-- The steps through an array are its own and those through its items. -/
theorem walkAt_arr (items : List Document) :
    walkAt g node loc (.arr items) = ⟨.arr items, g.kind node, loc⟩ ::
      items.zipIdx.flatMap fun p => walkAt g node (loc.pushIndex p.2) p.1 := by
  rw [walkAt, walkItems_eq_flatMap]

/-- Anything else has no steps but its own. -/
theorem walkAt_scalar {d : Document} (harr : d.asArray? = none) (hobj : d.asObject? = none) :
    walkAt g node loc d = [⟨d, g.kind node, loc⟩] := by
  cases d with
  | arr => cases harr
  | obj => cases hobj
  | null | bool | num | str => rw [walkAt]

/-! ## The walk and the recursion -/

/-- There is a step for every value of the document. -/
theorem length_walkAt (d : Document) : (walkAt g node loc d).length = d.size := by
  induction d using Document.induction generalizing node loc with
  | null | bool | num | str =>
    rw [walkAt_scalar rfl rfl]
    rfl
  | arr items ih =>
    have hitems : ∀ n, (walkItems g node loc n items).length = Document.sizeItems items := by
      induction items with
      | nil => exact fun _ => rfl
      | cons d rest ihrest =>
        obtain ⟨hd, hrest⟩ := List.forall_mem_cons.1 ih
        intro n
        rw [walkItems, List.length_append, hd, ihrest hrest, Document.sizeItems]
    rw [walkAt, List.length_cons, hitems, Document.size]
  | obj members ih =>
    have hmembers : (walkMembers g node loc members).length = Document.sizeMembers members := by
      induction members with
      | nil => rfl
      | cons m rest ihrest =>
        obtain ⟨hm, hrest⟩ := List.forall_mem_cons.1 ih
        rw [walkMembers, List.length_append, hm, ihrest hrest, Document.sizeMembers]
    rw [walkAt, List.length_cons, hmembers, Document.size]

/-- There is a step for every value of the documents. -/
theorem length_flatMap_walkAt (trees : List Document) :
    (trees.flatMap fun d => walkAt g node loc d).length = Document.sizeItems trees := by
  induction trees with
  | nil => rfl
  | cons d trees ih =>
    rw [List.flatMap_cons, List.length_append, length_walkAt, ih, Document.sizeItems]

/-- The steps through a value that waits. -/
def Waiting.steps (g : Grammar) (x : Waiting) : List Step :=
  walkAt g x.node x.location x.value

/-- The steps through a value are its own and those through its parts. -/
theorem Waiting.steps_eq (x : Waiting) : x.steps g = x.step g :: (x.parts g).flatMap (steps g) := by
  obtain ⟨d, node, loc⟩ := x
  cases d with
  | null | bool | num | str => exact walkAt_scalar rfl rfl
  | arr items =>
    rw [steps, walkAt_arr, parts, List.flatMap_map]
    rfl
  | obj members =>
    rw [steps, walkAt_obj, parts, List.flatMap_map]
    rfl

namespace Walk

variable {w : Walk}

/-- The steps that a walk has still before it: those through the values on its stack, and those
through the documents that it has not begun. -/
def remaining (g : Grammar) (w : Walk) : List Step :=
  w.stack.flatMap (Waiting.steps g) ++ w.trees.flatMap fun d => walkAt g g.root .root d

/-- To begin a document takes no step. -/
theorem remaining_refill (w : Walk) : (w.refill g).remaining g = w.remaining g := by
  unfold refill
  split
  · simp [remaining, Waiting.steps]
  · rfl

/-- Only where no document is left is the stack empty. -/
theorem refill_cases (g : Grammar) (w : Walk) :
    w.refill g = ⟨[], []⟩ ∨ ∃ x rest trees, w.refill g = ⟨x :: rest, trees⟩ := by
  obtain ⟨stack, trees⟩ := w
  cases stack with
  | nil =>
    cases trees with
    | nil => exact .inl rfl
    | cons d trees => exact .inr ⟨_, _, _, rfl⟩
  | cons x rest => exact .inr ⟨_, _, _, rfl⟩

/-- A walk ends when nothing remains, and a step takes the first of what remains. -/
theorem remaining_eq (w : Walk) : w.remaining g =
    match w.next? g with
    | none => []
    | some (step, w') => step :: w'.remaining g := by
  rw [← remaining_refill, next?]
  rcases refill_cases g w with h | ⟨x, rest, trees, h⟩
  · rw [h]
    rfl
  · rw [h, remaining, List.flatMap_cons, Waiting.steps_eq]
    simp [remaining]

/-- A walk takes what remains, step by step. -/
theorem take_eq (n : Nat) (w : Walk) : w.take g n = (w.remaining g).take n := by
  induction n generalizing w with
  | zero => rw [take, List.take_zero]
  | succ n ih =>
    rw [take, remaining_eq]
    cases w.next? g with
    | none => rfl
    | some next =>
      rw [List.take_succ_cons, ← ih]

end Walk

/-- The steps through some documents are those through one document after the other. -/
theorem walk_eq_flatMap (trees : List Document) :
    walk g trees = trees.flatMap fun d => walkAt g g.root .root d := by
  have hlength : (trees.flatMap fun d => walkAt g g.root .root d).length =
      Document.sizeItems trees := length_flatMap_walkAt trees
  rw [walk, Walk.take_eq, ← hlength]
  exact List.take_length

theorem walk_singleton (d : Document) : walk g [d] = walkAt g g.root .root d := by
  rw [walk_eq_flatMap, List.flatMap_singleton]

theorem mem_walkAt_obj {members : Members} : step ∈ walkAt g node loc (.obj members) ↔
    step = ⟨.obj members, g.kind node, loc⟩ ∨
      ∃ m ∈ members, step ∈ walkAt g (g.child node m.1).node (loc.push m.1) m.2 := by
  rw [walkAt_obj, List.mem_cons, List.mem_flatMap]

theorem mem_walkAt_arr {items : List Document} : step ∈ walkAt g node loc (.arr items) ↔
    step = ⟨.arr items, g.kind node, loc⟩ ∨
      ∃ i x, items[i]? = some x ∧ step ∈ walkAt g node (loc.pushIndex i) x := by
  rw [walkAt_arr, List.mem_cons, List.mem_flatMap]
  refine or_congr Iff.rfl ⟨?_, ?_⟩
  · rintro ⟨⟨x, i⟩, hx, h⟩
    exact ⟨i, x, List.mk_mem_zipIdx_iff_getElem?.1 hx, h⟩
  · rintro ⟨i, x, hx, h⟩
    exact ⟨(x, i), List.mk_mem_zipIdx_iff_getElem?.2 hx, h⟩

/-- The steps of a walk are at the place where it began or below it. -/
theorem within_of_mem_walkAt {d : Document} (h : step ∈ walkAt g node loc d) :
    step.location.Within loc := by
  induction d using Document.induction generalizing node loc with
  | null | bool | num | str =>
    rw [walkAt_scalar rfl rfl] at h
    cases List.mem_singleton.1 h
    exact .refl loc
  | arr items ih =>
    rcases mem_walkAt_arr.1 h with rfl | ⟨i, x, hx, h⟩
    · exact .refl loc
    · exact (ih x (List.mem_of_getElem? hx) h).of_push
  | obj members ih =>
    rcases mem_walkAt_obj.1 h with rfl | ⟨m, hm, h⟩
    · exact .refl loc
    · exact (ih m hm h).of_push

/-! ## What is found at a step -/

/-- The keys among the segments of a location in a document, which lead out of its objects; the
indices, which lead out of its arrays, are left out. -/
def Document.keysAlong : List String → Document → List String
  | [], _ => []
  | segment :: path, d =>
    let below := ((d.part? segment).map (keysAlong path)).getD []
    if d.isObject then segment :: below else below

theorem Document.keysAlong_obj {members : Members} {key : String} {x : Document}
    (h : (Document.obj members).part? key = some x) (path : List String) :
    (Document.obj members).keysAlong (key :: path) = key :: x.keysAlong path := by
  rw [keysAlong, h]
  rfl

theorem Document.keysAlong_arr {items : List Document} {segment : String} {x : Document}
    (h : (Document.arr items).part? segment = some x) (path : List String) :
    (Document.arr items).keysAlong (segment :: path) = x.keysAlong path := by
  rw [keysAlong, h]
  rfl

/-- A step holds what is found in a document at the end of the segments that lead from a location to
the step, and is at the node that the keys among them lead to. -/
def FoundFrom (g : Grammar) (t : Transition) (loc : Location) (d : Document) (step : Step) : Prop :=
  ∃ path, step.location = ⟨loc.segments ++ path⟩ ∧ d.at? path = some step.value ∧
    step.kind = g.kind (g.follow t (d.keysAlong path)).node

theorem foundFrom_here (t : Transition) (d : Document) :
    FoundFrom g t loc d ⟨d, g.kind t.node, loc⟩ :=
  ⟨[], by rw [List.append_nil], rfl, by rw [Document.keysAlong, Grammar.follow, List.foldl_nil]⟩

/-- What is found in a part is found in the whole, with one segment more. -/
theorem FoundFrom.of_part {t t' : Transition} {d x : Document} {segment : String}
    (hx : d.part? segment = some x)
    (ht : ∀ path, g.follow t (d.keysAlong (segment :: path)) = g.follow t' (x.keysAlong path))
    (h : FoundFrom g t' (loc.push segment) x step) : FoundFrom g t loc d step := by
  obtain ⟨path, hloc, hvalue, hkind⟩ := h
  refine ⟨segment :: path, ?_, ?_, ?_⟩
  · rw [hloc, Location.push, List.append_assoc]
    rfl
  · rw [Document.at?_cons_of_part? hx, hvalue]
  · rw [hkind, ht]

/-- A step of a walk holds what is found at its location, at the node that the keys on its location
lead to. -/
theorem foundFrom_of_mem_walkAt {t : Transition} {d : Document} (hd : d.Distinct)
    (h : step ∈ walkAt g t.node loc d) : FoundFrom g t loc d step := by
  induction d using Document.induction generalizing t loc with
  | null | bool | num | str =>
    rw [walkAt_scalar rfl rfl] at h
    cases List.mem_singleton.1 h
    exact foundFrom_here _ _
  | arr items ih =>
    rw [Document.distinct_arr] at hd
    rcases mem_walkAt_arr.1 h with rfl | ⟨i, x, hx, h⟩
    · exact foundFrom_here _ _
    · have hpart : (Document.arr items).part? (toString i) = some x := by
        rw [Document.part?_arr, hx]
      have hmem := List.mem_of_getElem? hx
      -- an index leaves the node as it is
      refine .of_part hpart (fun path => ?_) (ih x hmem (hd x hmem) h)
      rw [Document.keysAlong_arr hpart]
  | obj members ih =>
    obtain ⟨hn, hd⟩ := Document.distinct_obj.1 hd
    rcases mem_walkAt_obj.1 h with rfl | ⟨m, hm, h⟩
    · exact foundFrom_here _ _
    · have hpart : (Document.obj members).part? m.1 = some m.2 := Members.get?_of_mem hn hm
      refine .of_part hpart (fun path => ?_) (ih m hm (hd m hm) h)
      rw [Document.keysAlong_obj hpart, Grammar.follow, List.foldl_cons]
      rfl

/-- A step through a document holds what is found at its location, at the node that the keys on its
location lead to. -/
theorem found_of_mem_walk {d : Document} (hd : d.Distinct) (h : step ∈ walk g [d]) :
    d.at? step.location.segments = some step.value ∧
      step.kind = g.kind (g.follow g.entry (d.keysAlong step.location.segments)).node := by
  rw [walk_singleton] at h
  obtain ⟨path, hloc, hfound⟩ := foundFrom_of_mem_walkAt (t := g.entry) hd h
  have hpath : step.location.segments = path := congrArg Location.segments hloc
  rw [hpath]
  exact hfound

/-- A step through a document holds what is found at its location. -/
theorem at?_of_mem_walk {d : Document} (hd : d.Distinct) (h : step ∈ walk g [d]) :
    d.at? step.location.segments = some step.value :=
  (found_of_mem_walk hd h).1

/-! ## Different steps are at different locations -/

/-- Steps that are related wherever they are apart are so below different parts of one place. -/
theorem pairwise_flatMap_of_apart {α : Type} {R : Step → Step → Prop}
    (hR : ∀ a b : Step, a.location.Apart b.location → R a b) (loc : Location) {xs : List α}
    {segment : α → String} {steps : α → List Step} (hsegments : (xs.map segment).Nodup)
    (hwithin : ∀ x ∈ xs, ∀ step ∈ steps x, step.location.Within (loc.push (segment x)))
    (hsteps : ∀ x ∈ xs, (steps x).Pairwise R) : (xs.flatMap steps).Pairwise R := by
  rw [List.pairwise_flatMap]
  refine ⟨hsteps, (List.pairwise_map.1 hsegments).imp_of_mem fun hx hy hne => ?_⟩
  intro a ha b hb
  exact hR a b (Location.apart_of_push hne (hwithin _ hx a ha) (hwithin _ hy b hb))

theorem nodup_map_toString_zipIdx (items : List Document) :
    (items.zipIdx.map fun p => toString p.2).Nodup := by
  have hindices : (items.zipIdx.map Prod.snd).Nodup := by
    rw [List.zipIdx_map_snd]
    exact List.nodup_range'
  have hmap : (items.zipIdx.map fun p => toString p.2) =
      (items.zipIdx.map Prod.snd).map toString := by
    rw [List.map_map]
    rfl
  rw [hmap]
  exact hindices.map fun _ _ h => Location.eq_of_toString_eq h

/-- No step below a place is at the place. -/
theorem location_ne_of_within_push {segment : String}
    (h : step.location.Within (loc.push segment)) : loc ≠ step.location := by
  rintro rfl
  exact Location.not_within_push _ segment h

/-- No two steps of a walk are at one location. -/
theorem pairwise_walkAt {d : Document} (hd : d.Distinct) :
    (walkAt g node loc d).Pairwise fun a b => a.location ≠ b.location := by
  induction d using Document.induction generalizing node loc with
  | null | bool | num | str =>
    rw [walkAt_scalar rfl rfl]
    exact List.pairwise_singleton _ _
  | arr items ih =>
    have hwithin : ∀ p ∈ items.zipIdx, ∀ step ∈ walkAt g node (loc.pushIndex p.2) p.1,
        step.location.Within (loc.push (toString p.2)) := fun p _ _ h => within_of_mem_walkAt h
    rw [walkAt_arr, List.pairwise_cons]
    constructor
    · intro step hstep
      obtain ⟨p, hp, hstep⟩ := List.mem_flatMap.1 hstep
      exact location_ne_of_within_push (hwithin p hp step hstep)
    · refine pairwise_flatMap_of_apart (fun _ _ h => h.ne) loc (nodup_map_toString_zipIdx items)
        hwithin fun p hp => ?_
      have hmem := List.fst_mem_of_mem_zipIdx hp
      exact ih p.1 hmem (Document.distinct_arr.1 hd _ hmem)
  | obj members ih =>
    obtain ⟨hkeys, hmembers⟩ := Document.distinct_obj.1 hd
    have hwithin : ∀ m ∈ members, ∀ step ∈ walkAt g (g.child node m.1).node (loc.push m.1) m.2,
        step.location.Within (loc.push m.1) := fun m _ _ h => within_of_mem_walkAt h
    rw [walkAt_obj, List.pairwise_cons]
    constructor
    · intro step hstep
      obtain ⟨m, hm, hstep⟩ := List.mem_flatMap.1 hstep
      exact location_ne_of_within_push (hwithin m hm step hstep)
    · exact pairwise_flatMap_of_apart (fun _ _ h => h.ne) loc hkeys hwithin
        fun m hm => ih m hm (hmembers m hm)

/-! ## The walk as a listing -/

/-- A walk lists one document after the other, each by recursion.  Asked for any number of steps it
gives the first of that listing, so it ends after as many steps as the documents have values.  The
steps through one document are at different locations, and each location leads to the value of its
step, the keys on it to the node that the step has its kind from. -/
theorem walk_preorder (g : Grammar) (trees : List Document) :
    walk g trees = (trees.flatMap fun d => walkAt g g.root .root d) ∧
    (∀ n, (Walk.start trees).take g n = (walk g trees).take n) ∧
    (walk g trees).length = Document.sizeItems trees ∧
    ∀ d ∈ trees, d.Distinct → d.Addressable →
      ((walkAt g g.root .root d).map Step.location).Nodup ∧
      ∀ step ∈ walkAt g g.root .root d,
        step.location.resolve d = some step.value ∧
        step.kind = g.kind (g.follow g.entry (d.keysAlong step.location.segments)).node := by
  have hwalk := walk_eq_flatMap (g := g) trees
  refine ⟨hwalk, fun n => ?_, ?_, fun d _ hd haddressable => ⟨?_, fun step hstep => ?_⟩⟩
  · rw [Walk.take_eq, hwalk]
    rfl
  · rw [hwalk, length_flatMap_walkAt]
  · exact List.pairwise_map.2 (pairwise_walkAt hd)
  · rw [← walk_singleton] at hstep
    obtain ⟨hvalue, hkind⟩ := found_of_mem_walk hd hstep
    exact ⟨Document.resolve_of_at? haddressable hvalue, hkind⟩

/-- A document with two servers, in an array. -/
def serversDocument : Document :=
  .obj [("servers", .arr [.obj [("url", .str "a")],
    .obj [("variables", .obj [("port", .obj [("enum", .arr [.str "80"])])])]])]

/-- The index of the second server is no key on the way to its port. -/
theorem walk_preorder_servers :
    let port : Location := ⟨["servers", "1", "variables", "port"]⟩
    let steps := walkAt .openApi Grammar.openApi.root .root serversDocument
    (serversDocument.Distinct ∧ serversDocument.Addressable) ∧
    (steps.map Step.location).Nodup ∧
    serversDocument.keysAlong port.segments = ["servers", "variables", "port"] ∧
    ∃ step ∈ steps, step.location = port ∧ port.resolve serversDocument = some step.value ∧
      step.kind = Grammar.openApi.kind
        (Grammar.openApi.follow Grammar.openApi.entry ["servers", "variables", "port"]).node := by
  intro port steps
  have hd : serversDocument.Distinct := by decide
  have haddressable : serversDocument.Addressable := by
    simp [serversDocument, Document.Addressable, Document.AddressableMembers,
      Document.AddressableItems, Numeral.wordLimit]
  have hkeys : serversDocument.keysAlong port.segments = ["servers", "variables", "port"] := by
    decide
  obtain ⟨-, -, -, hwalk⟩ := walk_preorder .openApi [serversDocument]
  obtain ⟨hnodup, hsteps⟩ := hwalk serversDocument List.mem_cons_self hd haddressable
  obtain ⟨step, hstep, hlocation⟩ : ∃ step ∈ steps, step.location = port :=
    ⟨_, List.mem_of_getElem? (show steps[6]? = _ from rfl), rfl⟩
  obtain ⟨hvalue, hkind⟩ := hsteps step hstep
  rw [hlocation] at hvalue hkind
  exact ⟨⟨hd, haddressable⟩, hnodup, hkeys, step, hstep, hlocation, hvalue, hkeys ▸ hkind⟩

end SchemaLoom
