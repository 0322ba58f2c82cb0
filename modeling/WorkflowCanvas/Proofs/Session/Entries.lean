import WorkflowCanvas.Proofs.Basic
import WorkflowCanvas.Proofs.Snapshot.Validity
import WorkflowCanvas.Session.Store

/-!
What the operations of the store do to its entries.

A snapshot that is put in is found under its id, and all other ids keep theirs. Every
operation that succeeds puts in the stored form of a valid snapshot, or takes an entry
out.
-/

namespace WorkflowCanvas.Session.Store

variable {K : Type} {s s' : Store K} {w snapshot : Workflow K} {id : String}

/-! ### Entries -/

theorem mem_insertEntry {entries : List (String × Workflow K)} {e : String × Workflow K}
    (h : e ∈ insertEntry id w entries) : e = (id, w) ∨ e ∈ entries := by
  induction entries with
  | nil => exact .inl (by simpa [insertEntry] using h)
  | cons first rest ih =>
      obtain ⟨k, v⟩ := first
      rw [insertEntry] at h
      split at h
      · exact List.mem_cons.mp h
      split at h
      · exact (List.mem_cons.mp h).imp_right (List.mem_cons_of_mem _)
      · rcases List.mem_cons.mp h with rfl | h
        · exact .inr List.mem_cons_self
        · exact (ih h).imp_right (List.mem_cons_of_mem _)

theorem lookup_insertEntry (key : String) (entries : List (String × Workflow K)) :
    (insertEntry id w entries).lookup key = if key = id then some w else entries.lookup key := by
  induction entries with
  | nil => rw [insertEntry, Keyed.lookup_cons_ite]
  | cons first rest ih =>
      obtain ⟨k, v⟩ := first
      rw [insertEntry]
      split
      · rw [Keyed.lookup_cons_ite]
      split
      · rename_i heq
        rw [Keyed.lookup_cons_ite, Keyed.lookup_cons_ite, ← heq]
        split <;> rfl
      · rename_i hne
        rw [Keyed.lookup_cons_ite, Keyed.lookup_cons_ite, ih]
        by_cases hkey : key = k
        · rw [if_pos hkey, if_neg (hkey ▸ Ne.symm hne), if_pos hkey]
        · rw [if_neg hkey, if_neg hkey]

/-- What is put in last under an id is what counts. -/
theorem insertEntry_insertEntry (w' : Workflow K) (entries : List (String × Workflow K)) :
    insertEntry id w' (insertEntry id w entries) = insertEntry id w' entries := by
  induction entries with
  | nil => simp [insertEntry]
  | cons first rest ih =>
      obtain ⟨k, v⟩ := first
      rw [insertEntry, insertEntry]
      split
      · simp [insertEntry]
      split
      · simp [insertEntry]
      · rename_i hlt hne
        rw [insertEntry, if_neg hlt, if_neg hne, ih]

@[simp] theorem get?_put (key : String) :
    (s.put w).get? key = if key = w.id then some w else s.get? key :=
  lookup_insertEntry key s.entries

theorem put_overwrite {w' : Workflow K} (h : w'.id = w.id) : (s.put w).put w' = s.put w' := by
  rw [put, put, put, h, insertEntry_insertEntry]

@[simp] theorem put_put : (s.put w).put w = s.put w := put_overwrite rfl

theorem mem_entries_of_get? (h : s.get? id = some w) : (id, w) ∈ s.entries := by
  obtain ⟨before, after, hsplit, _⟩ := List.lookup_eq_some_iff.mp h
  rw [hsplit]
  exact List.mem_append_right _ List.mem_cons_self

/-! ### Operations -/

theorem compileAndPut_eq_ok_iff :
    s.compileAndPut w = .ok (s', snapshot) ↔
      Snapshot.Valid w ∧ snapshot = Snapshot.arrange w ∧ s' = s.put snapshot := by
  rw [compileAndPut]
  cases hc : Snapshot.compile w with
  | error fault =>
      have hinvalid : ¬ Snapshot.Valid w := fun h => by simp [h.compile] at hc
      simp [hinvalid]
  | ok compiled =>
      obtain ⟨hvalid, rfl⟩ := Snapshot.compile_eq_ok_iff.mp hc
      simp only [Except.ok.injEq, Prod.mk.injEq, hvalid, true_and]
      constructor
      · rintro ⟨rfl, rfl⟩
        exact ⟨rfl, rfl⟩
      · rintro ⟨rfl, rfl⟩
        exact ⟨rfl, rfl⟩

theorem openWorkflow_eq_ok_iff :
    s.openWorkflow w = .ok (s', snapshot) ↔ s.get? w.id = none ∧
      Snapshot.Valid w ∧ snapshot = Snapshot.arrange w ∧ s' = s.put snapshot := by
  rw [openWorkflow]
  cases hget : s.get? w.id with
  | none => simpa using compileAndPut_eq_ok_iff
  | some old => simp

theorem replace_eq_ok_iff :
    s.replace w = .ok (s', snapshot) ↔ (∃ old, s.get? w.id = some old) ∧
      Snapshot.Valid w ∧ snapshot = Snapshot.arrange w ∧ s' = s.put snapshot := by
  rw [replace]
  cases hget : s.get? w.id with
  | none => simp
  | some old => simpa using compileAndPut_eq_ok_iff

theorem update_eq_ok_iff {α : Type} {change : Workflow K → Workflow K × α} {told : α} :
    s.update id change = .ok (s', snapshot, told) ↔ ∃ old, s.get? id = some old ∧
      Snapshot.Valid (change old).1 ∧ snapshot = Snapshot.arrange (change old).1 ∧
      s' = s.put snapshot ∧ told = (change old).2 := by
  rw [update]
  cases hget : s.get? id with
  | none => simp
  | some old =>
      constructor
      · intro h
        obtain ⟨⟨s₁, w₁⟩, hput, heq⟩ := Outcome.bind_eq_ok_iff.mp h
        obtain ⟨hvalid, rfl, rfl⟩ := compileAndPut_eq_ok_iff.mp hput
        obtain ⟨rfl, rfl, rfl⟩ : _ = s' ∧ _ = snapshot ∧ _ = told := by simpa using heq
        exact ⟨old, rfl, hvalid, rfl, rfl, rfl⟩
      · rintro ⟨old', hold, hvalid, rfl, rfl, rfl⟩
        obtain rfl := Option.some.inj hold
        exact Outcome.bind_eq_ok_iff.mpr
          ⟨_, compileAndPut_eq_ok_iff.mpr ⟨hvalid, rfl, rfl⟩, rfl⟩

theorem updateNodes_eq_ok_iff {α : Type} {change : List (Node K) → List (Node K) × α} {told : α} :
    s.updateNodes id change = .ok (s', snapshot, told) ↔ ∃ old, s.get? id = some old ∧
      Snapshot.Valid { old with nodes := (change old.nodes).1 } ∧
      snapshot = Snapshot.arrange { old with nodes := (change old.nodes).1 } ∧
      s' = s.put snapshot ∧ told = (change old.nodes).2 :=
  update_eq_ok_iff

theorem updateEdges_eq_ok_iff {α : Type} {change : List Edge → List Edge × α} {told : α} :
    s.updateEdges id change = .ok (s', snapshot, told) ↔ ∃ old, s.get? id = some old ∧
      Snapshot.Valid { old with edges := (change old.edges).1 } ∧
      snapshot = Snapshot.arrange { old with edges := (change old.edges).1 } ∧
      s' = s.put snapshot ∧ told = (change old.edges).2 :=
  update_eq_ok_iff

theorem close?_eq_some_iff :
    s.close? id = some s' ↔ (∃ old, s.get? id = some old) ∧
      s' = ⟨s.entries.filter fun e => e.1 ≠ id⟩ := by
  rw [close?]
  cases hget : s.get? id with
  | none => simp
  | some old => simp [eq_comm]

end WorkflowCanvas.Session.Store
