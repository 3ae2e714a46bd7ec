import SchemaLoom.Proofs.Registry

/-!
# What a registry accounts for

Registering goes through directories without a workspace and through documents, one after the other.
Each of them costs an error or brings an entry, and never touches an entry that is there.

- `WorkspaceReading.findings`, `Registered.ofReadings_eq_foldl`: what registering goes through.
- `Registered.Advances`: what one step does, with `Registered.advances_take` for every step.
- `findingsIn`, `run_register_eq_foldl`: what registering some directories goes through.
- `registeredAfter`: the registry after so many steps.
- `register_accounts`: nothing is lost or overwritten, for every file system.
-/

namespace SchemaLoom

/-! ## Steps of registering -/

/-- What registering comes upon: a directory without a workspace, or a document. -/
abbrev Finding := Except WorkspaceError Source

/-- What is come upon in a directory. -/
def WorkspaceReading.findings (w : WorkspaceReading) : List Finding :=
  match w.found with
  | .error e => [.error e]
  | .ok (_, sources) => sources.map .ok

namespace Registered

variable {r r' : Registered}

/-- The registry with what was come upon. -/
def take (r : Registered) : Finding → Registered
  | .error e => r.fail e
  | .ok s => r.add s

theorem addWorkspace_eq_foldl (r : Registered) (w : WorkspaceReading) :
    r.addWorkspace w = w.findings.foldl take r := by
  obtain ⟨dir, found⟩ := w
  cases found with
  | error e => rfl
  | ok found =>
    rw [WorkspaceReading.findings, List.foldl_map]
    rfl

theorem ofReadings_eq_foldl (readings : List WorkspaceReading) :
    ofReadings readings = (readings.flatMap WorkspaceReading.findings).foldl take empty := by
  rw [ofReadings, List.foldl_flatMap]
  exact congrArg (readings.foldl · empty) (funext fun r => funext fun w => addWorkspace_eq_foldl r w)

/-- One step costs an error, and then the registry is as it was, or it brings an entry under an
identity that was free. -/
inductive Advances (r : Registered) : Registered → Prop
  | fails (e : WorkspaceError) : Advances r ⟨r.registry, r.errors ++ [e]⟩
  | registers {id : Identity} (e : Entry) : r.registry.get? id = none →
    Advances r ⟨r.registry.insert id e, r.errors⟩

theorem advances_add (r : Registered) (s : Source) : r.Advances (r.add s) := by
  unfold add
  split
  next e _ => exact .fails e
  next id d hadmission =>
    have hfree := (admission_eq_ok_iff.1 hadmission).2
    exact .registers _ (by simpa [SortedMap.contains] using hfree)

theorem advances_take (r : Registered) (finding : Finding) : r.Advances (r.take finding) := by
  cases finding with
  | error e => exact .fails e
  | ok s => exact advances_add r s

/-- What is registered stays registered, with its file and its document. -/
theorem Advances.get? (h : r.Advances r') {id : Identity} {e : Entry}
    (he : r.registry.get? id = some e) : r'.registry.get? id = some e := by
  cases h with
  | fails => exact he
  | @registers id' _ hfree =>
    have hne : id' ≠ id := by
      rintro rfl
      rw [hfree] at he
      cases he
    rw [SortedMap.get?_insert_of_ne _ hne, he]

/-- A step that costs an error leaves the registry as it was. -/
theorem Advances.registry_eq (h : r.Advances r') (herrors : r'.errors ≠ r.errors) :
    r'.registry = r.registry := by
  cases h with
  | fails => rfl
  | registers => exact absurd rfl herrors

/-- The number of entries and errors. -/
def accounted (r : Registered) : Nat :=
  r.registry.size + r.errors.length

theorem Advances.accounted (h : r.Advances r') : r'.accounted = r.accounted + 1 := by
  cases h with
  | fails e =>
    rw [Registered.accounted, Registered.accounted, List.length_append, List.length_singleton,
      Nat.add_assoc]
  | registers e hfree =>
    rw [Registered.accounted, Registered.accounted, SortedMap.size_insert hfree,
      Nat.add_right_comm]

theorem accounted_foldl_take (findings : List Finding) (r : Registered) :
    (findings.foldl take r).accounted = r.accounted + findings.length := by
  induction findings generalizing r with
  | nil => rfl
  | cons finding findings ih =>
    rw [List.foldl_cons, ih, (advances_take r finding).accounted, List.length_cons]
    omega

end Registered

/-! ## Registering workspaces -/

/-- What registering the workspaces in some directories goes through. -/
def findingsIn (fs : FileSystem Id) (scheme : String) (dirs : List Path) : List Finding :=
  dirs.flatMap fun dir => (readWorkspace fs scheme dir).run.findings

/-- Registering goes through all of it. -/
theorem run_register_eq_foldl (fs : FileSystem Id) (scheme : String) (dirs : List Path) :
    (register fs scheme dirs).run = (findingsIn fs scheme dirs).foldl .take .empty := by
  rw [run_register, Registered.ofReadings_eq_foldl, List.flatMap_map]
  rfl

/-- The registry after so many steps. -/
def registeredAfter (fs : FileSystem Id) (scheme : String) (dirs : List Path) (n : Nat) :
    Registered :=
  ((findingsIn fs scheme dirs).take n).foldl .take .empty

/-- One more step advances the registry, until there is none. -/
theorem registeredAfter_succ (fs : FileSystem Id) (scheme : String) (dirs : List Path) (n : Nat) :
    registeredAfter fs scheme dirs (n + 1) = registeredAfter fs scheme dirs n ∨
      (registeredAfter fs scheme dirs n).Advances (registeredAfter fs scheme dirs (n + 1)) := by
  unfold registeredAfter
  rw [List.take_add_one, List.foldl_append]
  cases (findingsIn fs scheme dirs)[n]? with
  | none => exact .inl rfl
  | some finding => exact .inr (Registered.advances_take _ finding)

/-- The directories in which no workspace is loaded. -/
def failedDirs (fs : FileSystem Id) (dirs : List Path) : List Path :=
  dirs.filter fun dir => !(Workspace.load fs dir).run.isOk

/-- The documents that the resources of the loaded workspaces list. -/
def listedPaths (fs : FileSystem Id) (dirs : List Path) : List Path :=
  dirs.flatMap fun dir =>
    match (Workspace.load fs dir).run with
    | .error _ => []
    | .ok w => w.resources.flatMap Resource.openapi

theorem length_claims (w : Workspace) (scheme : String) :
    (w.claims scheme).length = (w.resources.flatMap Resource.openapi).length := by
  rw [Workspace.claims, List.length_flatMap, List.length_flatMap]
  simp

/-- A directory without a workspace is one step, and every document that is listed is one. -/
theorem length_findingsIn (fs : FileSystem Id) (scheme : String) (dirs : List Path) :
    (findingsIn fs scheme dirs).length =
      (failedDirs fs dirs).length + (listedPaths fs dirs).length := by
  induction dirs with
  | nil => rfl
  | cons dir dirs ih =>
    rw [findingsIn] at ih
    rw [findingsIn, List.flatMap_cons, List.length_append, ih, run_readWorkspace]
    unfold failedDirs listedPaths
    rw [List.filter_cons, List.flatMap_cons, List.length_append]
    cases (Workspace.load fs dir).run with
    | error e =>
      have hfindings : (WorkspaceReading.mk dir (.error e)).findings.length = 1 := rfl
      simp only [Except.map, hfindings, Except.isOk, Except.toBool, Bool.not_false, if_true,
        List.length_cons, List.length_nil]
      omega
    | ok w =>
      simp only [Except.map, WorkspaceReading.findings, List.length_map, length_claims,
        Except.isOk, Except.toBool, Bool.not_true, Bool.false_eq_true, if_false]
      omega

/-- Nothing is lost or overwritten.  Every directory without a workspace and every document that is
listed is an entry or an error, and each of these steps keeps what was registered before, and
leaves the registry as it was if it costs an error. -/
theorem register_accounts (fs : FileSystem Id) (scheme : String) (dirs : List Path) :
    (register fs scheme dirs).run =
      registeredAfter fs scheme dirs (findingsIn fs scheme dirs).length ∧
    (register fs scheme dirs).run.registry.size + (register fs scheme dirs).run.errors.length =
      (failedDirs fs dirs).length + (listedPaths fs dirs).length ∧
    ∀ n,
      (∀ id e, (registeredAfter fs scheme dirs n).registry.get? id = some e →
        (registeredAfter fs scheme dirs (n + 1)).registry.get? id = some e) ∧
      ((registeredAfter fs scheme dirs (n + 1)).errors ≠
          (registeredAfter fs scheme dirs n).errors →
        (registeredAfter fs scheme dirs (n + 1)).registry =
          (registeredAfter fs scheme dirs n).registry) := by
  refine ⟨?_, ?_, fun n => ?_⟩
  · rw [run_register_eq_foldl, registeredAfter, List.take_length]
  · have haccounted := Registered.accounted_foldl_take (findingsIn fs scheme dirs) .empty
    rw [← run_register_eq_foldl, length_findingsIn] at haccounted
    exact haccounted.trans (Nat.zero_add _)
  · rcases registeredAfter_succ fs scheme dirs n with hsame | hadvances
    · rw [hsame]
      exact ⟨fun _ _ he => he, fun _ => rfl⟩
    · exact ⟨fun _ _ he => hadvances.get? he, hadvances.registry_eq⟩

/-- A workspace of two documents that state no identity, so that both are given the same one. -/
def FileSystem.ofTwins : FileSystem Id :=
  .ofDirectory ⟨"/ws"⟩ [("jsmn-forge.yaml",
    "resources:\n  - name: common\n    version: 0\n    openapi: [a.yaml, b.yaml]\n"),
    ("a.yaml", "openapi: 3.1.0\n"), ("b.yaml", "openapi: 3.1.0\n")]

/-- The first document stays when the second one comes under the same identity. -/
theorem register_accounts_twins :
    let dirs : List Path := [⟨"/ws"⟩, ⟨"/none"⟩]
    let first := registeredAfter .ofTwins "forge" dirs 1
    let second := registeredAfter .ofTwins "forge" dirs 2
    (∃ e, first.registry.get? ⟨"forge", "ws", "common", 0⟩ = some e ∧ e.path = ⟨"/ws/a.yaml"⟩ ∧
      second.registry.get? ⟨"forge", "ws", "common", 0⟩ = some e) ∧
    second.errors ≠ first.errors ∧ second.registry = first.registry ∧
    (register .ofTwins "forge" dirs).run.registry.size +
      (register .ofTwins "forge" dirs).run.errors.length = 3 := by
  intro dirs first second
  obtain ⟨-, hcount, hsteps⟩ := register_accounts .ofTwins "forge" dirs
  obtain ⟨hkept, hfailed⟩ := hsteps 1
  have hentries : first.registry.entries.map (fun p => (p.1, p.2.path)) =
      [(⟨"forge", "ws", "common", 0⟩, ⟨"/ws/a.yaml"⟩)] := by decide +kernel
  obtain ⟨⟨id, e⟩, hp, hpair⟩ := List.mem_map.1 (hentries ▸ List.mem_singleton_self _)
  obtain ⟨rfl, hpath⟩ := Prod.mk.inj hpair
  have he := SortedMap.get?_eq_some_iff.2 hp
  have herrors : second.errors ≠ first.errors := by
    intro h
    have hlength : second.errors.length ≠ first.errors.length := by decide +kernel
    exact hlength (congrArg List.length h)
  have hdirs : (failedDirs .ofTwins dirs).length + (listedPaths .ofTwins dirs).length = 3 := by
    decide +kernel
  exact ⟨⟨e, he, hpath, hkept _ _ he⟩, herrors, hfailed herrors, hcount.trans hdirs⟩

end SchemaLoom
