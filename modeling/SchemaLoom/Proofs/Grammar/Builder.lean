import Mathlib.Data.List.Induction
import SchemaLoom.Grammar.Builder
import SchemaLoom.Proofs.Except
import SchemaLoom.Proofs.Grammar

/-!
# Building a grammar

A builder is used by a list of calls: some declare a node, and some tell a declared node where it
leads.  What a builder holds after these calls is read off the calls themselves: every declared node
has the kind that it was declared with, and leads where the last call that told it says.

- `GrammarBuilder.Call`, `GrammarBuilder.after`: the calls and the builder after them.
- `GrammarBuilder.declared`, `GrammarBuilder.lastForm?`: the nodes that the calls declared, by the
  numbers that were returned, and what a node was told last.
- `GrammarBuilder.Closed`: no call speaks of a node that was not declared.
- `GrammarBuilder.slots_after`: what the builder holds after some calls.
- `Grammar.follow_index_lt`, `Grammar.follow_data`: if every step from a node of a grammar stays in
  the grammar, so does every way, and no way leads out of the data node.
- `GrammarBuilder.build_closed`: when a grammar is built, and what it is.
-/

namespace SchemaLoom

/-! ## Ways in a grammar -/

namespace Grammar

variable {g : Grammar} {t : Transition} {node : NodeId}

theorem node_mem (h : node.index < g.nodes.length) : g.node node ∈ g.nodes := by
  rw [Grammar.node, List.getElem?_eq_getElem h, Option.getD_some]
  exact List.getElem_mem h

/-- If every node leads to nodes of the grammar only, then so does every way. -/
theorem follow_index_lt
    (hstep : ∀ n ∈ g.nodes, ∀ t ∈ n.transitions ++ n.fallbacks, t.node.index < g.nodes.length)
    (ht : t.node.index < g.nodes.length) (path : List String) :
    (g.follow t path).node.index < g.nodes.length := by
  induction path generalizing t with
  | nil => exact ht
  | cons key path ih =>
    refine ih (hstep _ (node_mem ht) (g.child t.node key) (List.mem_append.2 ?_))
    exact Node.child_mem _ key

/-- No way leads out of the data node, and no array on it is a set. -/
theorem follow_data (hdata : g.node .data = .data) (ht : t.node = .data) (key : String)
    (path : List String) : g.follow t (key :: path) = .data := by
  have hchild : g.child t.node key = .data := by
    rw [child, ht, hdata, Node.child]
  induction path generalizing t key with
  | nil => exact hchild
  | cons next path ih =>
    refine ih (t := g.child t.node key) ?_ next ?_
    · rw [hchild]
      rfl
    · rw [hchild, child]
      exact congrArg (Node.child next) hdata

theorem follow_append (t : Transition) (path rest : List String) :
    g.follow t (path ++ rest) = g.follow (g.follow t path) rest :=
  List.foldl_append

end Grammar

namespace GrammarBuilder

/-! ## Calls -/

/-- What a node is told about where it leads. -/
inductive Form where
  | map (child : Transition)
  | object (table : Table)
  | schema (keywords : Table) (fallback : NodeId)
deriving DecidableEq, Repr

namespace Form

/-- The node of a kind that was told a form. -/
def node (kind : Kind) : Form → Node
  | .map child => .map kind child
  | .object table => .object kind table
  | .schema keywords fallback => .schema kind keywords fallback

/-- The nodes that a form speaks of. -/
def targets : Form → List NodeId
  | .map child => [child.node]
  | .object table => table.map fun e => e.2.node
  | .schema keywords fallback => fallback :: keywords.map fun e => e.2.node

/-- Tell a node of a builder. -/
def tell (b : GrammarBuilder) (id : NodeId) : Form → GrammarBuilder
  | .map child => b.map id child
  | .object table => b.object id table
  | .schema keywords fallback => b.schema id keywords fallback

variable {kind : Kind} {form : Form} {t : Transition}

@[simp] theorem kind_node : (form.node kind).kind = kind := by
  cases form with
  | map | object | schema => rfl

theorem tell_eq_configure (b : GrammarBuilder) (id : NodeId) :
    form.tell b id = b.configure id fun kind => form.node kind := by
  cases form with
  | map | object | schema => rfl

/-- A node leads where its form says, or into data. -/
theorem node_eq_data_or_mem_targets
    (ht : t ∈ (form.node kind).transitions ++ (form.node kind).fallbacks) :
    t.node = .data ∨ t.node ∈ form.targets := by
  cases form with
  | map child =>
    rcases List.mem_singleton.1 ht with rfl
    exact .inr List.mem_cons_self
  | object table =>
    rcases List.mem_append.1 ht with ht | ht
    · obtain ⟨e, he, rfl⟩ := List.mem_map.1 ht
      exact .inr (List.mem_map.2 ⟨e, he, rfl⟩)
    · rcases List.mem_singleton.1 ht with rfl
      exact .inl rfl
  | schema keywords fallback =>
    rcases List.mem_append.1 ht with ht | ht
    · obtain ⟨e, he, rfl⟩ := List.mem_map.1 ht
      exact .inr (List.mem_cons_of_mem _ (List.mem_map.2 ⟨e, he, rfl⟩))
    · rcases List.mem_cons.1 ht with rfl | ht
      · exact .inl rfl
      · rcases List.mem_singleton.1 ht with rfl
        exact .inr List.mem_cons_self

end Form

/-- A call on a builder. -/
inductive Call where
  | declare (kind : Kind)
  | tell (id : NodeId) (form : Form)
deriving DecidableEq, Repr

namespace Call

/-- The builder after a call. -/
def run (b : GrammarBuilder) : Call → GrammarBuilder
  | .declare kind => (b.declare kind).2
  | .tell id form => form.tell b id

/-- The number that a call returns, if it declares a node, and the kind of the node. -/
def returned? (b : GrammarBuilder) : Call → Option (NodeId × Kind)
  | .declare kind => some ((b.declare kind).1, kind)
  | .tell _ _ => none

/-- What a call tells a node. -/
def form? (id : NodeId) : Call → Option Form
  | .declare _ => none
  | .tell target form => if target = id then some form else none

end Call

/-- The builder after some calls. -/
def after (calls : List Call) : GrammarBuilder :=
  calls.foldl Call.run new

/-- The nodes that some calls on a builder declare, by the numbers that they return, in their
order. -/
def declaredFrom (b : GrammarBuilder) : List Call → List (NodeId × Kind)
  | [] => []
  | call :: calls => (call.returned? b).toList ++ declaredFrom (call.run b) calls

/-- The nodes that some calls on a new builder declare. -/
def declared (calls : List Call) : List (NodeId × Kind) :=
  declaredFrom new calls

/-- The numbers that some calls on a new builder return. -/
def ids (calls : List Call) : List NodeId :=
  (declared calls).map Prod.fst

/-- What a node was told last. -/
def lastForm? (id : NodeId) : List Call → Option Form
  | [] => none
  | call :: calls => (lastForm? id calls).or (call.form? id)

/-- Only declared nodes are told anything, and only after they were declared. -/
inductive DeclaredFirst : List Call → Prop
  | nil : DeclaredFirst []
  | declare {calls : List Call} {kind : Kind} :
    DeclaredFirst calls → DeclaredFirst (calls ++ [.declare kind])
  | tell {calls : List Call} {id : NodeId} {form : Form} :
    DeclaredFirst calls → id ∈ ids calls → DeclaredFirst (calls ++ [.tell id form])

/-- Only declared nodes are told anything, and what they are told, and the root of the grammar, speak
of declared nodes and of the data node alone. -/
structure Closed (calls : List Call) (root : NodeId) : Prop where
  declaredFirst : DeclaredFirst calls
  targets : ∀ id form, .tell id form ∈ calls → ∀ target ∈ form.targets,
    target = .data ∨ target ∈ ids calls
  root : root = .data ∨ root ∈ ids calls

variable {calls : List Call} {call : Call} {root id : NodeId} {kind : Kind} {form : Form}
  {d : NodeId × Kind} {g : Grammar}

/-! ## The last call -/

theorem after_concat : after (calls ++ [call]) = call.run (after calls) := by
  rw [after, List.foldl_append]
  rfl

theorem declaredFrom_concat (b : GrammarBuilder) : declaredFrom b (calls ++ [call]) =
    declaredFrom b calls ++ (call.returned? (calls.foldl Call.run b)).toList := by
  induction calls generalizing b with
  | nil => simp [declaredFrom]
  | cons c calls ih => simp [declaredFrom, ih]

theorem declared_concat :
    declared (calls ++ [call]) = declared calls ++ (call.returned? (after calls)).toList :=
  declaredFrom_concat new

theorem declared_concat_tell : declared (calls ++ [.tell id form]) = declared calls := by
  rw [declared_concat]
  exact List.append_nil _

theorem lastForm?_concat :
    lastForm? id (calls ++ [call]) = (call.form? id).or (lastForm? id calls) := by
  induction calls with
  | nil => simp [lastForm?]
  | cons c calls ih => rw [List.cons_append, lastForm?, ih, lastForm?, Option.or_assoc]

theorem mem_of_lastForm? (h : lastForm? id calls = some form) : .tell id form ∈ calls := by
  induction calls with
  | nil => cases h
  | cons c calls ih =>
    rw [lastForm?, Option.or_eq_some_iff] at h
    rcases h with h | ⟨-, h⟩
    · exact List.mem_cons_of_mem _ (ih h)
    · cases c with
      | declare => cases h
      | tell target form' =>
        rw [Call.form?] at h
        split at h
        next htarget =>
          cases h
          rw [htarget]
          exact List.mem_cons_self
        next => cases h

/-! ## Numbers -/

/-- There is a slot for the data node and one for each declared node. -/
theorem length_slots_after (calls : List Call) :
    (after calls).slots.length = (declared calls).length + 1 := by
  induction calls using List.reverseRecOn with
  | nil => rfl
  | append_singleton calls call ih =>
    rw [after_concat, declared_concat, List.length_append]
    cases call with
    | declare kind =>
      rw [Call.run, declare, List.length_append, ih]
      rfl
    | tell id form =>
      rw [Call.run, Form.tell_eq_configure, configure, List.length_modify, ih]
      rfl

/-- Nodes are numbered in the order in which they are declared, from one on. -/
theorem index_of_declared {i : Nat} (h : (declared calls)[i]? = some d) : d.1.index = i + 1 := by
  induction calls using List.reverseRecOn with
  | nil => cases h
  | append_singleton calls call ih =>
    rw [declared_concat, List.getElem?_append] at h
    split at h
    next => exact ih h
    next hi =>
      cases call with
      | declare kind =>
        obtain ⟨hlast, hd⟩ := List.getElem?_eq_some_iff.1 h
        have hlast : i = (declared calls).length := by
          rw [Call.returned?, Option.toList_some, List.length_singleton] at hlast
          omega
        subst hlast
        rw [← hd]
        simp [Call.returned?, declare, length_slots_after]
      | tell => cases h

theorem index_le_of_mem_ids (h : id ∈ ids calls) :
    0 < id.index ∧ id.index ≤ (declared calls).length := by
  obtain ⟨d, hd, rfl⟩ := List.mem_map.1 h
  obtain ⟨i, hi⟩ := List.mem_iff_getElem?.1 hd
  have hlt : i < (declared calls).length := (List.getElem?_eq_some_iff.1 hi).1
  rw [index_of_declared hi]
  omega

/-! ## What a builder holds -/

theorem mem_ids_concat (h : id ∈ ids calls) : id ∈ ids (calls ++ [call]) := by
  rw [ids, declared_concat, List.map_append]
  exact List.mem_append_left _ h

/-- A node that was told something was declared. -/
theorem DeclaredFirst.mem_ids (h : DeclaredFirst calls) (hmem : .tell id form ∈ calls) :
    id ∈ ids calls := by
  induction h with
  | nil => cases hmem
  | declare _ ih =>
    rcases List.mem_append.1 hmem with hmem | hmem
    · exact mem_ids_concat (ih hmem)
    · cases List.mem_singleton.1 hmem
  | tell _ hid ih =>
    rcases List.mem_append.1 hmem with hmem | hmem
    · exact mem_ids_concat (ih hmem)
    · cases List.mem_singleton.1 hmem
      exact mem_ids_concat hid

/-- What a builder holds for a node: its kind until the node is told something, and then the node. -/
def slotOf (kind : Kind) : Option Form → Slot
  | none => .declared kind
  | some form => .ready (form.node kind)

theorem kind_slotOf (f : Option Form) : (slotOf kind f).kind = kind := by
  cases f with
  | none => rfl
  | some => exact Form.kind_node

/-- After some calls a builder holds the data node and then each declared node as it was told
last. -/
theorem slots_after (h : DeclaredFirst calls) : (after calls).slots =
    .ready .data :: (declared calls).map fun d => slotOf d.2 (lastForm? d.1 calls) := by
  induction h with
  | nil => rfl
  | @declare calls kind h ih =>
    have hnew : lastForm? ⟨(after calls).slots.length⟩ calls = none := by
      -- the number is new, and only declared nodes were told anything
      rw [Option.eq_none_iff_forall_ne_some]
      intro form hform
      have hle := (index_le_of_mem_ids (h.mem_ids (mem_of_lastForm? hform))).2
      rw [length_slots_after] at hle
      exact absurd hle (Nat.not_succ_le_self _)
    have hlast : ∀ id, lastForm? id (calls ++ [.declare kind]) = lastForm? id calls :=
      fun id => lastForm?_concat
    rw [after_concat, Call.run, declare, declared_concat, List.map_append, Call.returned?,
      Option.toList_some, List.map_singleton]
    simp only [hlast]
    rw [declare, hnew, ← List.cons_append, ← ih]
    rfl
  | @tell calls id form h hid ih =>
    rw [after_concat, Call.run, Form.tell_eq_configure, configure, declared_concat_tell, ih]
    refine List.ext_getElem? fun i => ?_
    rw [List.getElem?_modify]
    cases i with
    | zero =>
      have hpos : id.index ≠ 0 := Nat.ne_of_gt (index_le_of_mem_ids hid).1
      simp [hpos]
    | succ i =>
      rw [List.getElem?_cons_succ, List.getElem?_cons_succ, List.getElem?_map, List.getElem?_map]
      cases hd : (declared calls)[i]? with
      | none => rfl
      | some d =>
        have hindex : id.index = i + 1 ↔ id = d.1 := by
          rw [← index_of_declared hd]
          exact ⟨congrArg NodeId.mk, congrArg NodeId.index⟩
        rw [Option.map_some, Option.map_some, lastForm?_concat, Call.form?]
        by_cases heq : id = d.1
        · simp only [if_pos (hindex.2 heq), if_pos heq, Option.map_eq_map, Option.map_some,
            kind_slotOf]
          rfl
        · simp [mt hindex.1 heq, heq]

/-! ## The grammar -/

theorem nodes_ready (n : Node) (slots : List Slot) :
    nodes (.ready n :: slots) = (nodes slots).map (n :: ·) := by
  rw [nodes]
  cases nodes slots with
  | ok | error => rfl

theorem build_eq_map (b : GrammarBuilder) (root : NodeId) :
    b.build root = (nodes b.slots).map (⟨·, root⟩) := by
  rw [build]
  cases nodes b.slots with
  | ok | error => rfl

section Nodes

variable {ds : List (NodeId × Kind)} (told : NodeId → Option Form) {found : List Node}

/-- Nodes are missing exactly if one was told nothing, and the first such node is named. -/
theorem nodes_eq_error_iff : nodes (ds.map fun d => slotOf d.2 (told d.1)) = .error kind ↔
    ∃ before id rest, ds = before ++ (id, kind) :: rest ∧ told id = none ∧
      ∀ d ∈ before, told d.1 ≠ none := by
  induction ds with
  | nil => simp [nodes]
  | cons d ds ih =>
    obtain ⟨id, kind'⟩ := d
    rw [List.map_cons]
    cases htold : told id with
    | none =>
      rw [slotOf, nodes, Except.error.injEq]
      constructor
      · rintro rfl
        exact ⟨[], id, ds, rfl, htold, nofun⟩
      · rintro ⟨before, id', rest, hds, -, hbefore⟩
        cases before with
        | nil =>
          cases hds
          rfl
        | cons d before =>
          cases hds
          exact absurd htold (hbefore _ List.mem_cons_self)
    | some form =>
      rw [slotOf, nodes_ready, map_eq_error_iff, ih]
      constructor
      · rintro ⟨before, id', rest, rfl, hid', hbefore⟩
        refine ⟨(id, kind') :: before, id', rest, rfl, hid', List.forall_mem_cons.2 ⟨?_, hbefore⟩⟩
        rw [htold]
        nofun
      · rintro ⟨before, id', rest, hds, hid', hbefore⟩
        cases before with
        | nil =>
          cases hds
          rw [htold] at hid'
          cases hid'
        | cons d before =>
          cases hds
          exact ⟨before, id', rest, rfl, hid', (List.forall_mem_cons.1 hbefore).2⟩

/-- If no node is missing, each node leads where it was told. -/
theorem forall₂_of_nodes_eq_ok (h : nodes (ds.map fun d => slotOf d.2 (told d.1)) = .ok found) :
    List.Forall₂ (fun d n => ∃ form, told d.1 = some form ∧ n = form.node d.2) ds found := by
  induction ds generalizing found with
  | nil =>
    cases h
    exact .nil
  | cons d ds ih =>
    rw [List.map_cons] at h
    cases htold : told d.1 with
    | none =>
      rw [htold] at h
      cases h
    | some form =>
      rw [htold, slotOf, nodes_ready, map_eq_ok_iff] at h
      obtain ⟨rest, hrest, rfl⟩ := h
      exact .cons ⟨form, htold, rfl⟩ (ih hrest)

end Nodes

/-- No grammar is built exactly if a declared node was told nothing, and the kind of the first such
node is named. -/
theorem build_eq_error_iff (h : DeclaredFirst calls) : (after calls).build root = .error kind ↔
    ∃ before id rest, declared calls = before ++ (id, kind) :: rest ∧
      lastForm? id calls = none ∧ ∀ d ∈ before, lastForm? d.1 calls ≠ none := by
  rw [build_eq_map, map_eq_error_iff, slots_after h, nodes_ready, map_eq_error_iff]
  exact nodes_eq_error_iff fun id => lastForm? id calls

/-- The grammar that is built holds the data node, and then each declared node as it was told
last. -/
theorem exists_of_build_eq_ok (h : DeclaredFirst calls) (hg : (after calls).build root = .ok g) :
    ∃ found, g = ⟨.data :: found, root⟩ ∧
      List.Forall₂ (fun d n => ∃ form, lastForm? d.1 calls = some form ∧ n = form.node d.2)
        (declared calls) found := by
  rw [build_eq_map, map_eq_ok_iff, slots_after h, nodes_ready] at hg
  obtain ⟨nodes, hnodes, rfl⟩ := hg
  obtain ⟨found, hfound, rfl⟩ := map_eq_ok_iff.1 hnodes
  exact ⟨found, rfl, forall₂_of_nodes_eq_ok (fun id => lastForm? id calls) hfound⟩

/-- A declared node of the grammar leads where it was told last. -/
theorem exists_node_of_build_eq_ok (h : DeclaredFirst calls)
    (hg : (after calls).build root = .ok g) (hd : d ∈ declared calls) :
    ∃ form, lastForm? d.1 calls = some form ∧ g.node d.1 = form.node d.2 := by
  obtain ⟨found, rfl, hfound⟩ := exists_of_build_eq_ok h hg
  obtain ⟨i, hi⟩ := List.mem_iff_getElem?.1 hd
  obtain ⟨hlt, hdi⟩ := List.getElem?_eq_some_iff.1 hi
  have hlt' : i < found.length := hfound.length_eq ▸ hlt
  obtain ⟨form, hform, hn⟩ := hfound.get hlt hlt'
  rw [List.get_eq_getElem, List.get_eq_getElem, hdi] at hn
  rw [List.get_eq_getElem, hdi] at hform
  refine ⟨form, hform, ?_⟩
  rw [Grammar.node, index_of_declared hi, List.getElem?_cons_succ, List.getElem?_eq_getElem hlt']
  exact hn

/-- The numbers of the data node and of the declared nodes are in range. -/
theorem index_lt_of_build_eq_ok (h : DeclaredFirst calls) (hg : (after calls).build root = .ok g)
    (hid : id = .data ∨ id ∈ ids calls) : id.index < g.nodes.length := by
  obtain ⟨found, rfl, hfound⟩ := exists_of_build_eq_ok h hg
  rw [List.length_cons, ← hfound.length_eq]
  rcases hid with rfl | hid
  · exact Nat.succ_pos _
  · exact Nat.lt_succ_of_le (index_le_of_mem_ids hid).2

/-- Every node of the grammar leads to nodes of the grammar only. -/
theorem Closed.step_index_lt (h : Closed calls root) (hg : (after calls).build root = .ok g) :
    ∀ n ∈ g.nodes, ∀ t ∈ n.transitions ++ n.fallbacks, t.node.index < g.nodes.length := by
  intro n hn t ht
  refine index_lt_of_build_eq_ok h.declaredFirst hg ?_
  obtain ⟨found, rfl, hfound⟩ := exists_of_build_eq_ok h.declaredFirst hg
  rcases List.mem_cons.1 hn with rfl | hn
  · rcases List.mem_singleton.1 ht with rfl
    exact .inl rfl
  · obtain ⟨i, hi, rfl⟩ := List.mem_iff_getElem.1 hn
    obtain ⟨form, hform, hnode⟩ := hfound.get (hfound.length_eq ▸ hi) hi
    rw [List.get_eq_getElem] at hnode
    rw [hnode] at ht
    rcases Form.node_eq_data_or_mem_targets ht with hdata | hmem
    · exact .inl hdata
    · exact h.targets _ form (mem_of_lastForm? hform) _ hmem

/-- A grammar is built exactly if every declared node was told something; otherwise the kind of the
first one that was not is named.  In the grammar every node has the kind that it was declared with
and leads where it was told last, all ways from the root stay in the grammar, and no way leads out of
the data node. -/
theorem build_closed (h : Closed calls root) :
    (∀ kind, (after calls).build root = .error kind ↔
      ∃ before id rest, declared calls = before ++ (id, kind) :: rest ∧
        lastForm? id calls = none ∧ ∀ d ∈ before, lastForm? d.1 calls ≠ none) ∧
    ∀ g, (after calls).build root = .ok g →
      g.root = root ∧
      (∀ d ∈ declared calls, g.kind d.1 = d.2 ∧
        ∃ form, lastForm? d.1 calls = some form ∧ g.node d.1 = form.node d.2) ∧
      (∀ path, (g.follow g.entry path).node.index < g.nodes.length) ∧
      ∀ path key rest, (g.follow g.entry path).node = .data →
        g.follow g.entry (path ++ key :: rest) = .data := by
  refine ⟨fun kind => build_eq_error_iff h.declaredFirst, fun g hg => ?_⟩
  have hroot : g.root = root ∧ g.node .data = .data := by
    obtain ⟨found, rfl, -⟩ := exists_of_build_eq_ok h.declaredFirst hg
    exact ⟨rfl, rfl⟩
  refine ⟨hroot.1, fun d hd => ?_, fun path => ?_, fun path key rest hpath => ?_⟩
  · obtain ⟨form, hform, hnode⟩ := exists_node_of_build_eq_ok h.declaredFirst hg hd
    refine ⟨?_, form, hform, hnode⟩
    rw [Grammar.kind, hnode, Form.kind_node]
  · refine Grammar.follow_index_lt (h.step_index_lt hg) ?_ path
    refine index_lt_of_build_eq_ok h.declaredFirst hg ?_
    rw [Grammar.entry, hroot.1]
    exact h.root
  · rw [Grammar.follow_append]
    exact Grammar.follow_data hroot.2 hpath key rest

/-- Nodes that lead to each other in a cycle, one of them told twice and in two forms; and a node
that was told nothing. -/
theorem build_closed_cycle :
    let keywords : Table := [("required", .strings .data)]
    let dangling : List Call := [.declare .root, .declare .mapSchema, .declare .schema,
      .tell ⟨3⟩ (.object []), .tell ⟨1⟩ (.object [("items", .values ⟨2⟩)])]
    let calls : List Call := dangling ++ [.tell ⟨2⟩ (.map (.plain ⟨3⟩)),
      .tell ⟨3⟩ (.schema keywords ⟨2⟩)]
    let g : Grammar := ⟨[.data, .object .root [("items", .values ⟨2⟩)],
      .map .mapSchema (.plain ⟨3⟩), .schema .schema keywords ⟨2⟩], ⟨1⟩⟩
    (Closed dangling ⟨1⟩ ∧ (after dangling).build ⟨1⟩ = .error .mapSchema) ∧
      (Closed calls ⟨1⟩ ∧ (after calls).build ⟨1⟩ = .ok g) ∧ g.kind ⟨3⟩ = .schema ∧
        (∀ path, (g.follow g.entry path).node.index < 4) ∧
        g.follow g.entry ["items", "a", "required", "b"] = .data := by
  intro keywords dangling calls g
  have hdangling : DeclaredFirst dangling := by
    refine .tell (.tell (.declare (.declare (.declare .nil))) ?_) ?_
    all_goals decide
  have hcalls : DeclaredFirst calls := by
    refine .tell (.tell hdangling ?_) ?_
    all_goals decide
  have hclosed : Closed calls ⟨1⟩ := by
    refine ⟨hcalls, fun id form hmem => ?_, .inr (by decide)⟩
    simp only [calls, dangling, List.cons_append, List.nil_append, List.mem_cons, List.not_mem_nil,
      reduceCtorEq, Call.tell.injEq, false_or, or_false] at hmem
    rcases hmem with ⟨-, rfl⟩ | ⟨-, rfl⟩ | ⟨-, rfl⟩ | ⟨-, rfl⟩
    all_goals decide
  have hclosed' : Closed dangling ⟨1⟩ :=
    ⟨hdangling, fun id form hmem => hclosed.targets id form (List.mem_append_left _ hmem),
      hclosed.root⟩
  have hg : (after calls).build ⟨1⟩ = .ok g := rfl
  obtain ⟨-, hkind, hrange, hdata⟩ := (build_closed hclosed).2 g hg
  refine ⟨⟨hclosed', ((build_closed hclosed').1 .mapSchema).2 ?_⟩, ⟨hclosed, hg⟩,
    (hkind (⟨3⟩, .schema) (by decide)).1, hrange, hdata ["items", "a", "required"] "b" [] rfl⟩
  exact ⟨[(⟨1⟩, .root)], ⟨2⟩, [(⟨3⟩, .schema)], rfl, rfl, by decide⟩

end GrammarBuilder

end SchemaLoom
