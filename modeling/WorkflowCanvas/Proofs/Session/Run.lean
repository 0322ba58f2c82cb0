import WorkflowCanvas.Proofs.Session.Entries

/-!
Runs of the store.

A `Command` is any call of an operation of the store, with any change of the nodes or
of the edges. Whatever the commands, a store that started empty holds snapshots in
their stored form only, each under its own id.
-/

namespace WorkflowCanvas.Session

variable {K : Type}

/-- A call of an operation. A change may be any function, and may tell anything about
itself. -/
inductive Command (K : Type)
  | openWorkflow (workflow : Workflow K)
  | replace (workflow : Workflow K)
  | updateNodes {α : Type} (id : String) (change : List (Node K) → List (Node K) × α)
  | updateEdges {α : Type} (id : String) (change : List Edge → List Edge × α)
  | close (id : String)

namespace Store

/-- What a command gives: the next store and the snapshot that is stored, if one is. -/
def execute (s : Store K) : Command K → Except Error (Store K × Option (Workflow K))
  | .openWorkflow w => (s.openWorkflow w).map fun (s, w) => (s, some w)
  | .replace w => (s.replace w).map fun (s, w) => (s, some w)
  | .updateNodes id change => (s.updateNodes id change).map fun (s, w, _) => (s, some w)
  | .updateEdges id change => (s.updateEdges id change).map fun (s, w, _) => (s, some w)
  | .close id =>
    match s.close? id with
    | some s => .ok (s, none)
    | none => .error (.notOpen id)

/-- The store after a command, which is the old one if the command fails. -/
def step (s : Store K) (c : Command K) : Store K :=
  match s.execute c with
  | .ok (s, _) => s
  | .error _ => s

def run (s : Store K) (commands : List (Command K)) : Store K := commands.foldl step s

/-- A store that some commands lead to from the empty one. -/
def Reachable (s : Store K) : Prop := ∃ commands, run {} commands = s

/-- Every snapshot is in its stored form and under its own id. -/
def Sound (s : Store K) : Prop :=
  ∀ entry ∈ s.entries, entry.1 = entry.2.id ∧ Snapshot.Stored entry.2

variable {s s' : Store K}

/-- What a command does to the store when it succeeds, and its answer. -/
inductive Commits (s : Store K) : Command K → Store K → Option (Workflow K) → Prop
  | opened {w : Workflow K} : s.get? w.id = none → Snapshot.Valid w →
      Commits s (.openWorkflow w) (s.put (Snapshot.arrange w)) (some (Snapshot.arrange w))
  | replaced {w old : Workflow K} : s.get? w.id = some old → Snapshot.Valid w →
      Commits s (.replace w) (s.put (Snapshot.arrange w)) (some (Snapshot.arrange w))
  | nodesChanged {α : Type} {id : String} {change : List (Node K) → List (Node K) × α}
      {old new : Workflow K} : s.get? id = some old →
      new = { old with nodes := (change old.nodes).1 } → Snapshot.Valid new →
      Commits s (.updateNodes id change) (s.put (Snapshot.arrange new))
        (some (Snapshot.arrange new))
  | edgesChanged {α : Type} {id : String} {change : List Edge → List Edge × α}
      {old new : Workflow K} : s.get? id = some old →
      new = { old with edges := (change old.edges).1 } → Snapshot.Valid new →
      Commits s (.updateEdges id change) (s.put (Snapshot.arrange new))
        (some (Snapshot.arrange new))
  | closed {id : String} {old : Workflow K} : s.get? id = some old →
      Commits s (.close id) ⟨s.entries.filter fun e => e.1 ≠ id⟩ none

theorem commits_of_execute {c : Command K} {answer : Option (Workflow K)}
    (h : s.execute c = .ok (s', answer)) : Commits s c s' answer := by
  cases c with
  | openWorkflow w =>
      obtain ⟨⟨s₁, w₁⟩, hok, heq⟩ := Outcome.map_eq_ok_iff.mp h
      obtain ⟨rfl, rfl⟩ := Prod.mk.inj heq
      obtain ⟨hclosed, hvalid, rfl, rfl⟩ := openWorkflow_eq_ok_iff.mp hok
      exact .opened hclosed hvalid
  | replace w =>
      obtain ⟨⟨s₁, w₁⟩, hok, heq⟩ := Outcome.map_eq_ok_iff.mp h
      obtain ⟨rfl, rfl⟩ := Prod.mk.inj heq
      obtain ⟨⟨old, hopen⟩, hvalid, rfl, rfl⟩ := replace_eq_ok_iff.mp hok
      exact .replaced hopen hvalid
  | updateNodes id change =>
      obtain ⟨⟨s₁, w₁, told⟩, hok, heq⟩ := Outcome.map_eq_ok_iff.mp h
      obtain ⟨rfl, rfl⟩ := Prod.mk.inj heq
      obtain ⟨old, hopen, hvalid, rfl, rfl, _⟩ := updateNodes_eq_ok_iff.mp hok
      exact .nodesChanged hopen rfl hvalid
  | updateEdges id change =>
      obtain ⟨⟨s₁, w₁, told⟩, hok, heq⟩ := Outcome.map_eq_ok_iff.mp h
      obtain ⟨rfl, rfl⟩ := Prod.mk.inj heq
      obtain ⟨old, hopen, hvalid, rfl, rfl, _⟩ := updateEdges_eq_ok_iff.mp hok
      exact .edgesChanged hopen rfl hvalid
  | close id =>
      rw [execute] at h
      split at h
      · rename_i s₁ hclose
        obtain ⟨⟨old, hopen⟩, rfl⟩ := close?_eq_some_iff.mp hclose
        obtain ⟨rfl, rfl⟩ := Prod.mk.inj (Except.ok.inj h)
        exact .closed hopen
      · cases h

/-- A command that succeeds puts in the stored form of a valid snapshot, or takes
entries out. -/
theorem Commits.cases {c : Command K} {answer : Option (Workflow K)}
    (h : Commits s c s' answer) :
    (∃ w, Snapshot.Valid w ∧ s' = s.put (Snapshot.arrange w)) ∨
      ∃ id, s' = ⟨s.entries.filter fun e => e.1 ≠ id⟩ := by
  cases h with
  | opened _ hvalid | replaced _ hvalid | nodesChanged _ _ hvalid | edgesChanged _ _ hvalid =>
      exact .inl ⟨_, hvalid, rfl⟩
  | closed => exact .inr ⟨_, rfl⟩

theorem Sound.put (h : s.Sound) {w : Workflow K} (hw : Snapshot.Stored w) : (s.put w).Sound := by
  intro entry hentry
  rcases mem_insertEntry hentry with rfl | hentry
  · exact ⟨rfl, hw⟩
  · exact h entry hentry

theorem Sound.step (h : s.Sound) (c : Command K) : (s.step c).Sound := by
  rw [Store.step]
  cases hexec : s.execute c with
  | error e => exact h
  | ok result =>
      obtain ⟨s', answer⟩ := result
      rcases (commits_of_execute hexec).cases with ⟨w, hw, rfl⟩ | ⟨id, rfl⟩
      · exact h.put hw.stored
      · exact fun entry hentry => h entry (List.mem_of_mem_filter hentry)

theorem Sound.run (h : s.Sound) (commands : List (Command K)) : (s.run commands).Sound := by
  induction commands generalizing s with
  | nil => exact h
  | cons c commands ih => exact ih (h.step c)

theorem sound_empty : Sound ({} : Store K) := by
  intro entry hentry
  cases hentry

theorem Reachable.sound (h : s.Reachable) : s.Sound := by
  obtain ⟨commands, rfl⟩ := h
  exact sound_empty.run commands

theorem Reachable.run (h : s.Reachable) (commands : List (Command K)) :
    (s.run commands).Reachable := by
  obtain ⟨before, rfl⟩ := h
  exact ⟨before ++ commands, List.foldl_append⟩

theorem step_of_execute {c : Command K} {answer : Option (Workflow K)}
    (h : s.execute c = .ok (s', answer)) : s.step c = s' := by
  rw [Store.step, h]

theorem Reachable.of_execute (h : s.Reachable) {c : Command K} {answer : Option (Workflow K)}
    (hok : s.execute c = .ok (s', answer)) : s'.Reachable :=
  step_of_execute hok ▸ h.run [c]

theorem Reachable.of_openWorkflow {w snapshot : Workflow K} (h : s.Reachable)
    (hok : s.openWorkflow w = .ok (s', snapshot)) : s'.Reachable := by
  have hexec : s.execute (.openWorkflow w) = .ok (s', some snapshot) := by
    rw [execute, hok]
    rfl
  exact h.of_execute hexec

theorem Reachable.of_replace {w snapshot : Workflow K} (h : s.Reachable)
    (hok : s.replace w = .ok (s', snapshot)) : s'.Reachable := by
  have hexec : s.execute (.replace w) = .ok (s', some snapshot) := by
    rw [execute, hok]
    rfl
  exact h.of_execute hexec

theorem Reachable.of_updateNodes {α : Type} {id : String} {w : Workflow K} {told : α}
    {change : List (Node K) → List (Node K) × α} (h : s.Reachable)
    (hok : s.updateNodes id change = .ok (s', w, told)) : s'.Reachable := by
  have hexec : s.execute (.updateNodes id change) = .ok (s', some w) := by
    rw [execute, hok]
    rfl
  exact h.of_execute hexec

theorem Reachable.of_updateEdges {α : Type} {id : String} {w : Workflow K} {told : α}
    {change : List Edge → List Edge × α} (h : s.Reachable)
    (hok : s.updateEdges id change = .ok (s', w, told)) : s'.Reachable := by
  have hexec : s.execute (.updateEdges id change) = .ok (s', some w) := by
    rw [execute, hok]
    rfl
  exact h.of_execute hexec

theorem Sound.of_get? (h : s.Sound) {id : String} {w : Workflow K} (hget : s.get? id = some w) :
    id = w.id ∧ Snapshot.Stored w :=
  h (id, w) (mem_entries_of_get? hget)

/-- After any commands from the empty store, every snapshot is held under its own id and
is in its stored form: it has a name that is not blank, its node ids are distinct, every
parent is a batch of the snapshot, parents do not run in a circle, every endpoint of an
edge is a node, and every parent stands in front of its children. -/
theorem run_entries_stored (commands : List (Command K)) :
    ∀ entry ∈ (run {} commands).entries,
      entry.1 = entry.2.id ∧ Snapshot.Stored entry.2 :=
  sound_empty.run commands

/-- A leaf in a batch in a batch is opened with the children in front, turned around, and
not turned into its own parent. -/
def nestedCommands : List (Command Rat) :=
  [.openWorkflow
      { id := "flow", name := "Flow"
        nodes :=
          [{ id := "leaf", kind := .reader, position := ⟨1, 1⟩, parent := some "inner" },
            { id := "inner", kind := .batch, position := ⟨2, 2⟩, parent := some "outer" },
            { id := "outer", kind := .batch, position := ⟨3, 3⟩ }]
        edges := [⟨"e", { source := "leaf", target := "outer" }⟩] },
    .updateNodes "flow" fun nodes => (nodes.reverse, ()),
    .updateNodes "flow" fun nodes => (nodes.map fun n => n.withParent n.id, ()),
    .close "other"]

theorem run_entries_stored_nested :
    ∃ entry ∈ (run {} nestedCommands).entries,
      entry.2.nodes.map Node.id = ["outer", "inner", "leaf"] ∧
        entry.1 = entry.2.id ∧ Snapshot.Stored entry.2 := by
  have hids : ((run {} nestedCommands).entries.map fun e => e.2.nodes.map Node.id) =
      [["outer", "inner", "leaf"]] := by decide
  obtain ⟨entry, hentry, hnodes⟩ := List.mem_map.mp (hids ▸ List.mem_singleton_self _)
  exact ⟨entry, hentry, hnodes, run_entries_stored nestedCommands entry hentry⟩

end Store

end WorkflowCanvas.Session
