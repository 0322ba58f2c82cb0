import Mathlib.Logic.Function.Basic
import WorkflowCanvas.Proofs.Session.Run

/-!
The store as a plain map from ids to snapshots.

The entries stand in the ascending order of their ids, so that an id has one entry at most
and what is found under the ids says all about a store. `Acts` says what each command may do
to such a map. That a change of the edges leaves the nodes where they are is true only of
snapshots in their stored form, which are the ones that a reachable store holds.
-/

namespace WorkflowCanvas.Session.Store

variable {K : Type} {s s' : Store K} {w old : Workflow K} {id : String}

/-! ### The order of the entries -/

/-- The ids are in strictly ascending order. -/
def Ordered (s : Store K) : Prop := s.ids.Pairwise (· < ·)

theorem ascending_insertEntry {entries : List (String × Workflow K)}
    (h : (entries.map Prod.fst).Pairwise (· < ·)) :
    ((insertEntry id w entries).map Prod.fst).Pairwise (· < ·) := by
  induction entries with
  | nil => simp [insertEntry]
  | cons first rest ih =>
      obtain ⟨k, v⟩ := first
      rw [List.map_cons, List.pairwise_cons] at h
      obtain ⟨hfirst, hrest⟩ := h
      rw [insertEntry]
      split
      · rename_i hlt
        simp only [List.map_cons, List.pairwise_cons, List.forall_mem_cons]
        exact ⟨⟨hlt, fun k' hk' => String.lt_trans hlt (hfirst k' hk')⟩, hfirst, hrest⟩
      split
      · rename_i heq
        subst heq
        exact List.pairwise_cons.mpr ⟨hfirst, hrest⟩
      · rename_i hlt hne
        refine List.pairwise_cons.mpr ⟨fun k' hk' => ?_, ih hrest⟩
        obtain ⟨e, he, rfl⟩ := List.mem_map.mp hk'
        rcases mem_insertEntry he with rfl | he
        · exact String.not_le.mp fun hle => hne (String.le_antisymm hle (String.not_lt.mp hlt))
        · exact hfirst e.1 (List.mem_map_of_mem he)

/-- To put in what is there already changes nothing. -/
theorem insertEntry_eq_self {entries : List (String × Workflow K)}
    (h : (entries.map Prod.fst).Pairwise (· < ·)) (hw : entries.lookup id = some w) :
    insertEntry id w entries = entries := by
  induction entries with
  | nil => simp at hw
  | cons first rest ih =>
      obtain ⟨k, v⟩ := first
      rw [List.map_cons, List.pairwise_cons] at h
      obtain ⟨hfirst, hrest⟩ := h
      rw [Keyed.lookup_cons_ite] at hw
      split at hw
      · rename_i heq
        subst heq
        rw [insertEntry, if_neg (String.lt_irrefl id), if_pos rfl, Option.some.inj hw]
      · rename_i hne
        -- the id stands further back, so it is the greater one
        have hlt : k < id :=
          hfirst id (List.mem_map_of_mem (f := Prod.fst) (mem_entries_of_get? (s := ⟨rest⟩) hw))
        rw [insertEntry, if_neg (String.lt_asymm hlt), if_neg hne, ih hrest hw]

theorem Ordered.put (h : s.Ordered) (w : Workflow K) : (s.put w).Ordered :=
  ascending_insertEntry h

theorem Ordered.filter (h : s.Ordered) (keep : String × Workflow K → Bool) :
    Ordered ⟨s.entries.filter keep⟩ :=
  List.Pairwise.sublist (List.filter_sublist.map Prod.fst) h

theorem Ordered.step (h : s.Ordered) (c : Command K) : (s.step c).Ordered := by
  rw [Store.step]
  cases hexec : s.execute c with
  | error e => exact h
  | ok result =>
      obtain ⟨s', answer⟩ := result
      rcases (commits_of_execute hexec).cases with ⟨w, _, rfl⟩ | ⟨id, rfl⟩
      · exact h.put _
      · exact h.filter _

theorem Ordered.run (h : s.Ordered) (commands : List (Command K)) : (s.run commands).Ordered := by
  induction commands generalizing s with
  | nil => exact h
  | cons c commands ih => exact ih (h.step c)

theorem ordered_empty : Ordered ({} : Store K) := List.Pairwise.nil

theorem Reachable.ordered (h : s.Reachable) : s.Ordered := by
  obtain ⟨commands, rfl⟩ := h
  exact ordered_empty.run commands

theorem Reachable.put_eq_self (h : s.Reachable) (hget : s.get? id = some w) : s.put w = s := by
  obtain ⟨rfl, _⟩ := h.sound.of_get? hget
  rw [Store.put, insertEntry_eq_self h.ordered hget]

/-! ### What is found under an id -/

theorem mem_ids : id ∈ s.ids ↔ (s.get? id).isSome := by
  rw [ids, get?, List.mem_map, Option.isSome_iff_ne_none, ne_eq, List.lookup_eq_none_iff]
  constructor
  · rintro ⟨e, he, rfl⟩ hnone
    simpa using hnone e he
  · intro hsome
    by_contra hmem
    exact hsome fun e he => bne_iff_ne.mpr fun heq => hmem ⟨e, he, heq.symm⟩

theorem get?_filter (key : String) :
    get? ⟨s.entries.filter fun e => e.1 ≠ id⟩ key = if key = id then none else s.get? key := by
  rw [get?, get?, Keyed.lookup_filter (fun k => k ≠ id)]
  by_cases hkey : key = id <;> simp [hkey]

/-- The store as a plain map. -/
def table (s : Store K) : String → Option (Workflow K) := s.get?

theorem table_put : (s.put w).table = Function.update s.table w.id (some w) := by
  funext key
  rw [Function.update_apply]
  exact get?_put key

theorem table_filter : table ⟨s.entries.filter fun e => e.1 ≠ id⟩ =
    Function.update s.table id none := by
  funext key
  rw [Function.update_apply]
  exact get?_filter key

/-! ### Changes of stored snapshots -/

section Changes

variable {α : Type}

theorem updateNodes_of_closed {change : List (Node K) → List (Node K) × α}
    (h : s.get? id = none) : s.updateNodes id change = .error (.notOpen id) := by
  rw [updateNodes, update, h]

theorem updateEdges_of_closed {change : List Edge → List Edge × α}
    (h : s.get? id = none) : s.updateEdges id change = .error (.notOpen id) := by
  rw [updateEdges, update, h]

theorem updateNodes_of_stored {change : List (Node K) → List (Node K) × α}
    {nodes : List (Node K)} {told : α} (hget : s.get? id = some w)
    (hchange : change w.nodes = (nodes, told)) (h : Snapshot.Stored { w with nodes }) :
    s.updateNodes id change = .ok (s.put { w with nodes }, { w with nodes }, told) := by
  refine updateNodes_eq_ok_iff.mpr ⟨w, hget, ?_⟩
  rw [hchange]
  exact ⟨h.toValid, h.arrange.symm, rfl, rfl⟩

theorem updateEdges_of_stored {change : List Edge → List Edge × α}
    {edges : List Edge} {told : α} (hget : s.get? id = some w)
    (hchange : change w.edges = (edges, told)) (h : Snapshot.Stored { w with edges }) :
    s.updateEdges id change = .ok (s.put { w with edges }, { w with edges }, told) := by
  refine updateEdges_eq_ok_iff.mpr ⟨w, hget, ?_⟩
  rw [hchange]
  exact ⟨h.toValid, h.arrange.symm, rfl, rfl⟩

theorem updateEdges_of_fault {change : List Edge → List Edge × α}
    {edges : List Edge} {told : α} {fault : Snapshot.Fault} (hget : s.get? id = some w)
    (hchange : change w.edges = (edges, told))
    (h : Snapshot.fault? { w with edges } = some fault) :
    s.updateEdges id change = .error (.invalid fault) := by
  have hcompile : Snapshot.compile { w with edges } = .error fault := by
    rw [Snapshot.compile, h]
  rw [updateEdges, update, hget]
  simp only [hchange, compileAndPut, hcompile, bind, Except.bind]

/-- A change that leaves the nodes as they are leaves no trace, although the snapshot is checked
and stored again. -/
theorem Reachable.updateNodes_of_unchanged (hs : s.Reachable)
    {change : List (Node K) → List (Node K) × α} {told : α} (hget : s.get? id = some w)
    (hchange : change w.nodes = (w.nodes, told)) :
    s.updateNodes id change = .ok (s, w, told) := by
  rw [updateNodes_of_stored hget hchange (hs.sound.of_get? hget).2, hs.put_eq_self hget]

theorem Reachable.updateEdges_of_unchanged (hs : s.Reachable)
    {change : List Edge → List Edge × α} {told : α} (hget : s.get? id = some w)
    (hchange : change w.edges = (w.edges, told)) :
    s.updateEdges id change = .ok (s, w, told) := by
  rw [updateEdges_of_stored hget hchange (hs.sound.of_get? hget).2, hs.put_eq_self hget]

end Changes

/-! ### Commands -/

/-- What a command may do to a plain map, and its answer: the snapshot that is put in, or nothing
when one is taken out. What is put in is always what the checks make of the workflow at hand. -/
inductive Acts (table : String → Option (Workflow K)) : Command K →
    Except Error (Option (Workflow K)) → (String → Option (Workflow K)) → Prop
  | refused (c : Command K) (e : Error) : Acts table c (.error e) table
  | opened (w snapshot : Workflow K) : table w.id = none →
      Snapshot.compile w = .ok snapshot →
      Acts table (.openWorkflow w) (.ok (some snapshot))
        (Function.update table w.id (some snapshot))
  | replaced (w old snapshot : Workflow K) : table w.id = some old →
      Snapshot.compile w = .ok snapshot →
      Acts table (.replace w) (.ok (some snapshot)) (Function.update table w.id (some snapshot))
  | nodesChanged {α : Type} (id : String) (change : List (Node K) → List (Node K) × α)
      (old : Workflow K) (nodes : List (Node K)) : table id = some old →
      Snapshot.compile { old with nodes := (change old.nodes).1 } = .ok { old with nodes } →
      Acts table (.updateNodes id change) (.ok (some { old with nodes }))
        (Function.update table id (some { old with nodes }))
  | edgesChanged {α : Type} (id : String) (change : List Edge → List Edge × α)
      (old : Workflow K) (edges : List Edge) : table id = some old →
      Snapshot.compile { old with edges := (change old.edges).1 } = .ok { old with edges } →
      Acts table (.updateEdges id change) (.ok (some { old with edges }))
        (Function.update table id (some { old with edges }))
  | closed (id : String) (old : Workflow K) : table id = some old →
      Acts table (.close id) (.ok none) (Function.update table id none)

theorem Commits.acts (hs : s.Sound) {c : Command K} {answer : Option (Workflow K)}
    (h : Commits s c s' answer) : Acts s.table c (.ok answer) s'.table := by
  cases h with
  | opened hclosed hvalid =>
      rw [table_put]
      exact .opened _ _ hclosed hvalid.compile
  | replaced hopen hvalid =>
      rw [table_put]
      exact .replaced _ _ _ hopen hvalid.compile
  | @nodesChanged _ _ change old _ hopen heq hvalid =>
      obtain ⟨rfl, _⟩ := hs.of_get? hopen
      subst heq
      rw [table_put]
      exact .nodesChanged old.id change old _ hopen hvalid.compile
  | @edgesChanged _ _ change old _ hopen heq hvalid =>
      obtain ⟨rfl, hstored⟩ := hs.of_get? hopen
      subst heq
      -- the nodes are those of a stored form, so to arrange them leaves them where they are
      have harrange := Snapshot.Stored.arrange ⟨hvalid, hstored.inOrder⟩
      rw [table_put, harrange]
      exact .edgesChanged old.id change old _ hopen (hvalid.compile.trans (by rw [harrange]))
  | closed hopen =>
      rw [table_filter]
      exact .closed _ _ hopen

/-- Every command does to a reachable store what it may do to a plain map: it is refused and
changes nothing, or it changes the map under its own id only, to what it answers. A change of the
nodes keeps the rest of the snapshot, and a change of the edges keeps the rest with the nodes in
their order. The ids that are listed are those that are open, in strictly ascending order. -/
theorem execute_acts_on_table (hs : s.Reachable) (c : Command K) :
    Acts s.table c ((s.execute c).map Prod.snd) (s.step c).table ∧
      s.ids.Pairwise (· < ·) ∧ ∀ id, id ∈ s.ids ↔ (s.get? id).isSome := by
  refine ⟨?_, hs.ordered, fun _ => mem_ids⟩
  cases hexec : s.execute c with
  | error e =>
      rw [Store.step, hexec]
      exact .refused c e
  | ok result =>
      rw [step_of_execute hexec]
      exact (commits_of_execute hexec).acts hs.sound

/-- The edges of the nested batches, each given twice. -/
theorem execute_acts_on_table_nested :
    let s : Store Rat := run {} nestedCommands
    let c : Command Rat := .updateEdges "flow" fun edges => (edges ++ edges, ())
    s.ids = ["flow"] ∧
      ((s.step c).get? "flow").map (fun w => (w.nodes.map Node.id, w.edges.length)) =
        some (["outer", "inner", "leaf"], 2) ∧
      Acts s.table c ((s.execute c).map Prod.snd) (s.step c).table :=
  ⟨by decide, by decide, (execute_acts_on_table ⟨nestedCommands, rfl⟩ _).1⟩

end WorkflowCanvas.Session.Store
