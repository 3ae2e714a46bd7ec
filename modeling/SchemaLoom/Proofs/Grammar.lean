import Mathlib.Data.List.Forall2
import SchemaLoom.Grammar.OpenApi

/-!
# Where the keys of a node lead

A key leads along a transition that its node spells out, or along one that the node falls back on.
There are finitely many of both, so what holds of every step in a grammar can be decided.

- `Node.child_mem_labelled`, `Node.child_mem`: the transition of a key is one of these.
- `Gateways`: the nodes through which the named schemas of a document are reached, with
  `Gateways.of_child` and `Gateways.of_kind` for what they are good for.
- `Grammar.BuiltIn`: the two grammars that documents are flattened with; in both, no named schema is
  reached through another one (`Grammar.BuiltIn.exists_gateways`).
- `Grammar.Route`: a way from the root on which each node is entered from the one before it alone,
  with `Grammar.Route.node_follow_iff` for the keys that lead to its end.
-/

namespace SchemaLoom

variable {g : Grammar} {t : Transition} {node : NodeId} {key : String} {gates : List NodeId}

/-- The transitions that a node spells out. -/
def Node.transitions : Node → List Transition
  | .data => []
  | .map _ child => [child]
  | .object _ table => table.map Prod.snd
  | .schema _ keywords _ => keywords.map Prod.snd

/-- The transitions of the keys that a node does not know. -/
def Node.fallbacks : Node → List Transition
  | .map _ _ => []
  | .schema _ _ fallback => [.data, .plain fallback]
  | _ => [.data]

/-- The transitions of a node, each with the key that it is for, or with none if it can be for any
key. -/
def Node.labelled : Node → List (Option String × Transition)
  | .data => [(none, .data)]
  | .map _ child => [(none, child)]
  | .object _ table => (none, .data) :: table.map fun e => (some e.1, e.2)
  | .schema _ keywords fallback =>
    (none, .data) :: (none, .plain fallback) :: keywords.map fun e => (some e.1, e.2)

theorem Table.mem_of_get? {table : Table} (h : table.get? key = some t) : (key, t) ∈ table := by
  induction table with
  | nil => cases h
  | cons entry rest ih =>
    obtain ⟨k, t'⟩ := entry
    rw [Table.get?] at h
    cases hrest : Table.get? key rest with
    | some found =>
      rw [hrest] at h
      cases h
      exact List.mem_cons_of_mem _ (ih hrest)
    | none =>
      rw [hrest] at h
      dsimp only at h
      split at h
      next hk =>
        subst hk
        cases h
        exact List.mem_cons_self
      next => cases h

/-- A key leads along a transition that is labelled with it, or along one for any key. -/
theorem Node.child_mem_labelled (n : Node) (key : String) :
    (some key, n.child key) ∈ n.labelled ∨ (none, n.child key) ∈ n.labelled := by
  cases n with
  | data => exact .inr List.mem_cons_self
  | map kind child => exact .inr List.mem_cons_self
  | object kind table =>
    rw [child]
    cases h : Table.get? key table with
    | none => exact .inr List.mem_cons_self
    | some t =>
      exact .inl (List.mem_cons_of_mem _ (List.mem_map_of_mem (Table.mem_of_get? h)))
  | schema kind keywords fallback =>
    rw [child]
    split
    · exact .inr List.mem_cons_self
    · cases h : Table.get? key keywords with
      | none => exact .inr (List.mem_cons_of_mem _ List.mem_cons_self)
      | some t =>
        refine .inl (List.mem_cons_of_mem _ (List.mem_cons_of_mem _ ?_))
        exact List.mem_map_of_mem (Table.mem_of_get? h)

/-- A label stands at a transition that the node spells out, or at one that it falls back on. -/
theorem Node.mem_of_mem_labelled {n : Node} {e : Option String × Transition} (h : e ∈ n.labelled) :
    e.2 ∈ n.transitions ∨ e.2 ∈ n.fallbacks := by
  cases n with
  | data => exact .inr (List.mem_map_of_mem h)
  | map kind child => exact .inl (List.mem_map_of_mem h)
  | object kind table =>
    rcases List.mem_cons.1 h with rfl | h
    · exact .inr List.mem_cons_self
    · obtain ⟨entry, hentry, rfl⟩ := List.mem_map.1 h
      exact .inl (List.mem_map_of_mem hentry)
  | schema kind keywords fallback =>
    rcases List.mem_cons.1 h with rfl | h
    · exact .inr List.mem_cons_self
    rcases List.mem_cons.1 h with rfl | h
    · exact .inr (List.mem_cons_of_mem _ List.mem_cons_self)
    · obtain ⟨entry, hentry, rfl⟩ := List.mem_map.1 h
      exact .inl (List.mem_map_of_mem hentry)

/-- A key leads along a transition that the node spells out, or along one for keys that it does not
know. -/
theorem Node.child_mem (n : Node) (key : String) : n.child key ∈ n.transitions ∨
    n.child key ∈ n.fallbacks :=
  (n.child_mem_labelled key).elim mem_of_mem_labelled mem_of_mem_labelled

/-- The nodes through which the named schemas are reached: nothing else leads to them, no array on
the way is a set, and a named schema is at one of them. -/
structure Gateways (g : Grammar) (gates : List NodeId) : Prop where
  data : NodeId.data ∉ gates
  step : ∀ n ∈ g.nodes.zipIdx, ∀ t ∈ n.1.transitions ++ n.1.fallbacks, t.node ∈ gates →
    ⟨n.2⟩ ∈ gates ∧ t.behavior.sortKey = none
  named : ∀ n ∈ g.nodes.zipIdx, n.1.kind = .schemaEnter →
    ⟨n.2⟩ ∈ gates ∧ n.1 = .schema .schemaEnter JsonSchema.keywords JsonSchema.schema

namespace Gateways

/-- A node is the data node, or one that the grammar lists. -/
theorem node_cases (g : Grammar) (node : NodeId) :
    g.node node = .data ∨ (g.node node, node.index) ∈ g.nodes.zipIdx := by
  rw [Grammar.node]
  cases h : g.nodes[node.index]? with
  | none => exact .inl rfl
  | some n => exact .inr (List.mem_zipIdx_iff_getElem?.2 h)

/-- A key leads to a gateway only from a gateway, and not to a set. -/
theorem of_child (hg : Gateways g gates) (h : (g.child node key).node ∈ gates) :
    node ∈ gates ∧ (g.child node key).behavior.sortKey = none := by
  rcases node_cases g node with hdata | hmem
  · rw [Grammar.child, hdata] at h
    exact absurd h hg.data
  · have ht := List.mem_append.2 ((g.node node).child_mem key)
    exact hg.step _ hmem _ ht h

/-- A named schema is at a gateway, and it is a schema as any other. -/
theorem of_kind (hg : Gateways g gates) (h : g.kind node = .schemaEnter) :
    node ∈ gates ∧
      g.node node = .schema .schemaEnter JsonSchema.keywords JsonSchema.schema := by
  rw [Grammar.kind] at h
  rcases node_cases g node with hdata | hmem
  · rw [hdata] at h
    cases h
  · exact hg.named _ hmem h

/-- The gateways end at the named schemas: the keywords of a schema lead to none of them. -/
def EndAtSchemas (gates : List NodeId) : Prop :=
  ∀ t ∈ JsonSchema.keywords.map Prod.snd ++ [.data, .plain JsonSchema.schema], t.node ∉ gates

/-- Nothing leads from a named schema to a gateway. -/
theorem child_of_kind (hg : Gateways g gates) (hend : EndAtSchemas gates)
    (h : g.kind node = .schemaEnter) : (g.child node key).node ∉ gates := by
  rw [Grammar.child, (hg.of_kind h).2]
  exact hend _ (List.mem_append.2 (Node.child_mem _ key))

theorem openApi : Gateways .openApi
    [OpenApi.root, OpenApi.components, JsonSchema.mapSchemaEnter, JsonSchema.schemaEnter] :=
  ⟨by decide, by decide +kernel, by decide +kernel⟩

theorem jsonSchema : Gateways .jsonSchema
    [JsonSchema.root, JsonSchema.mapSchemaEnter, JsonSchema.schemaEnter] :=
  ⟨by decide, by decide +kernel, by decide +kernel⟩

end Gateways

/-- The grammar of an OpenAPI document or that of a document that is a schema. -/
def Grammar.BuiltIn (g : Grammar) : Prop :=
  g = .openApi ∨ g = .jsonSchema

theorem Grammar.BuiltIn.exists_gateways (hg : g.BuiltIn) :
    ∃ gates, Gateways g gates ∧ Gateways.EndAtSchemas gates := by
  rcases hg with rfl | rfl
  · exact ⟨_, .openApi, by unfold Gateways.EndAtSchemas; decide⟩
  · exact ⟨_, .jsonSchema, by unfold Gateways.EndAtSchemas; decide⟩

/-! ## Ways into a node -/

/-- A key is among some labels, or one of them stands for every key. -/
def Admits (labels : List (Option String)) (key : String) : Prop :=
  some key ∈ labels ∨ none ∈ labels

theorem admits_some_iff {k : String} : Admits [some k] key ↔ key = k := by
  simp [Admits]

namespace Grammar

/-- A key that does not lead into data leads along a transition of a node that the grammar lists. -/
theorem exists_labelled_of_child (h : (g.child node key).node ≠ .data) :
    ∃ n ∈ g.nodes.zipIdx, ⟨n.2⟩ = node ∧ ∃ e ∈ n.1.labelled, e.2 = g.child node key ∧
      Admits [e.1] key := by
  rcases Gateways.node_cases g node with hdata | hmem
  · rw [Grammar.child, hdata] at h
    exact absurd rfl h
  · refine ⟨_, hmem, rfl, ?_⟩
    rcases (g.node node).child_mem_labelled key with he | he
    · exact ⟨_, he, rfl, .inl List.mem_cons_self⟩
    · exact ⟨_, he, rfl, .inr List.mem_cons_self⟩

/-- The keys that some labels admit lead from a node to another one, and nothing else leads there. -/
structure EnteredFrom (g : Grammar) (target source : NodeId) (labels : List (Option String)) :
    Prop where
  leads : ∀ key, Admits labels key → (g.child source key).node = target
  only : ∀ n ∈ g.nodes.zipIdx, ∀ e ∈ n.1.labelled, e.2.node = target →
    ⟨n.2⟩ = source ∧ e.1 ∈ labels

theorem EnteredFrom.child_eq_iff {source target : NodeId} {labels : List (Option String)}
    (h : g.EnteredFrom target source labels) (hdata : target ≠ .data) :
    (g.child node key).node = target ↔ node = source ∧ Admits labels key := by
  constructor
  · intro hchild
    obtain ⟨n, hn, hnode, e, he, hlabelled, hkey⟩ :=
      exists_labelled_of_child (hchild.symm ▸ hdata)
    obtain ⟨hsource, hlabel⟩ := h.only n hn e he (hlabelled ▸ hchild)
    refine ⟨hnode.symm.trans hsource, ?_⟩
    -- the label is the key or stands for every key
    rcases hkey with hkey | hkey
    · exact .inl (List.mem_singleton.1 hkey ▸ hlabel)
    · exact .inr (List.mem_singleton.1 hkey ▸ hlabel)
  · rintro ⟨rfl, hkey⟩
    exact h.leads key hkey

/-- A way from the root to a node, on which each node is entered from the one before it alone, and
the root from no node.  The labels on the way are listed from its end. -/
inductive Route (g : Grammar) : List (List (Option String)) → NodeId → Prop
  | root : g.root ≠ .data → (∀ n ∈ g.nodes.zipIdx, ∀ e ∈ n.1.labelled, e.2.node ≠ g.root) →
    Route g [] g.root
  | step {way : List (List (Option String))} {labels : List (Option String)}
    {source target : NodeId} : Route g way source → target ≠ .data → target ≠ g.root →
    g.EnteredFrom target source labels → Route g (labels :: way) target

theorem follow_concat (t : Transition) (path : List String) (key : String) :
    g.follow t (path ++ [key]) = g.child (g.follow t path).node key := by
  rw [follow, List.foldl_append, List.foldl_cons, List.foldl_nil]
  rfl

/-- To the end of a way lead the keys that the labels on it admit, one after the other, and no
others. -/
theorem Route.node_follow_iff {way : List (List (Option String))} {target : NodeId}
    (h : g.Route way target) (path : List String) :
    (g.follow g.entry path).node = target ↔ List.Forall₂ Admits way path.reverse := by
  induction h generalizing path with
  | root hdata honly =>
    rw [List.forall₂_nil_left_iff, List.reverse_eq_nil_iff]
    rcases path.eq_nil_or_concat' with rfl | ⟨init, key, rfl⟩
    · exact ⟨fun _ => rfl, fun _ => rfl⟩
    · rw [follow_concat]
      refine ⟨fun hchild => ?_, fun hnil => absurd hnil (by simp)⟩
      obtain ⟨n, hn, -, e, he, hlabelled, -⟩ := exists_labelled_of_child (hchild.symm ▸ hdata)
      exact absurd (hlabelled ▸ hchild) (honly n hn e he)
  | step _ hdata hroot hentered ih =>
    rcases path.eq_nil_or_concat' with rfl | ⟨init, key, rfl⟩
    · refine ⟨fun hnil => absurd hnil.symm hroot, fun hnil => ?_⟩
      cases hnil
    · rw [follow_concat, hentered.child_eq_iff hdata, ih, List.reverse_append,
        List.reverse_singleton, List.singleton_append, List.forall₂_cons, and_comm]

end Grammar

end SchemaLoom
