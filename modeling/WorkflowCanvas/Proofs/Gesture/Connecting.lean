import Mathlib.Data.List.Nodup
import Mathlib.Data.Set.Function
import WorkflowCanvas.Gesture.Connecting

/-!
Edge ids under gestures that connect and disconnect.

A new edge is told from the others by what it connects, while an edge is removed by its id. The id
runs the parts of a wiring together, so two wirings can share one: the hyphen in the middle may be
one of a node id, and nothing stands between a node id and a handle. The ids of the edges
stay distinct under all gestures exactly as long as no two wirings in use share theirs. Node ids
without hyphens are enough for that if all wirings use the same handles.
-/

namespace WorkflowCanvas

namespace Gesture

variable {edges rest : List Edge} {w : Wiring} {id : String}

/-! ### What the gestures do -/

theorem connect_of_wired {e : Edge} (he : e ∈ edges) (h : e.wiring = w) :
    connect edges w = edges := by
  have hany : (edges.any fun e => e.wiring = w) = true :=
    List.any_eq_true.mpr ⟨e, he, by simpa using h⟩
  rw [connect, if_pos hany]

theorem connect_of_new (h : ∀ e ∈ edges, e.wiring ≠ w) :
    connect edges w = edges ++ [⟨w.edgeId, w⟩] := by
  have hany : ¬ (edges.any fun e => e.wiring = w) = true := by simpa using h
  rw [connect, if_neg hany]

theorem mem_connect {e : Edge} (h : e ∈ connect edges w) : e ∈ edges ∨ e = ⟨w.edgeId, w⟩ := by
  rw [connect] at h
  split at h
  · exact .inl h
  · simpa using h

theorem disconnect?_eq_none_iff : disconnect? edges id = none ↔ id ∉ edges.map Edge.id := by
  simp [disconnect?]

theorem disconnect?_eq_some_iff : disconnect? edges id = some rest ↔
    id ∈ edges.map Edge.id ∧ rest = edges.filter fun e => e.id ≠ id := by
  have hid : (edges.any fun e => e.id = id) = true ↔ id ∈ edges.map Edge.id := by simp
  rw [disconnect?, Option.ite_none_right_eq_some, hid, Option.some.injEq]
  exact and_congr_right fun _ => eq_comm

/-- Where the ids are distinct, an edge is removed alone. -/
theorem exists_of_disconnect? (hnd : (edges.map Edge.id).Nodup)
    (h : disconnect? edges id = some rest) :
    ∃ before e after, e.id = id ∧ edges = before ++ e :: after ∧ rest = before ++ after := by
  obtain ⟨hid, rfl⟩ := disconnect?_eq_some_iff.mp h
  obtain ⟨e, he, rfl⟩ := List.mem_map.mp hid
  obtain ⟨before, after, rfl⟩ := List.append_of_mem he
  rw [List.map_append, List.map_cons, List.nodup_middle, List.nodup_cons, List.mem_append] at hnd
  have hkept : ∀ part : List Edge, e.id ∉ part.map Edge.id →
      (part.filter fun x => x.id ≠ e.id) = part := by
    intro part hnew
    refine List.filter_eq_self.mpr fun x hx => ?_
    simpa using fun heq : x.id = e.id => hnew (heq ▸ List.mem_map_of_mem hx)
  refine ⟨before, e, after, rfl, rfl, ?_⟩
  rw [List.filter_append, List.filter_cons_of_neg (by simp), hkept before fun h => hnd.1 (.inl h),
    hkept after fun h => hnd.1 (.inr h)]

/-! ### Runs of gestures -/

inductive EdgeGesture
  | connect (wiring : Wiring)
  | disconnect (id : String)

/-- The edges after a gesture. An id that no edge has leaves them as they are. -/
def EdgeGesture.apply (edges : List Edge) : EdgeGesture → List Edge
  | connect w => Gesture.connect edges w
  | disconnect id => (Gesture.disconnect? edges id).getD edges

/-- The edges after some gestures. -/
def applyAll (edges : List Edge) (gestures : List EdgeGesture) : List Edge :=
  gestures.foldl EdgeGesture.apply edges

/-- Edges with distinct ids, each as it is made for one of the wirings. -/
structure MadeFor (wirings : Set Wiring) (edges : List Edge) : Prop where
  id_eq : ∀ e ∈ edges, e.id = e.wiring.edgeId
  mem : ∀ e ∈ edges, e.wiring ∈ wirings
  distinct : (edges.map Edge.id).Nodup

namespace MadeFor

variable {wirings : Set Wiring}

theorem connect (h : MadeFor wirings edges) (hinj : Set.InjOn Wiring.edgeId wirings)
    (hw : w ∈ wirings) : MadeFor wirings (Gesture.connect edges w) := by
  by_cases hwired : ∃ e ∈ edges, e.wiring = w
  · obtain ⟨e, he, rfl⟩ := hwired
    rwa [connect_of_wired he rfl]
  · have hnew : ∀ e ∈ edges, e.wiring ≠ w := fun e he heq => hwired ⟨e, he, heq⟩
    -- an edge with the id of the new one would have its wiring too
    have hid : w.edgeId ∉ edges.map Edge.id := by
      intro hmem
      obtain ⟨e, he, heq⟩ := List.mem_map.mp hmem
      exact hnew e he (hinj (h.mem e he) hw ((h.id_eq e he).symm.trans heq))
    rw [connect_of_new hnew]
    refine ⟨?_, ?_, ?_⟩
    · simpa [or_imp, forall_and] using h.id_eq
    · simpa [or_imp, forall_and, hw] using h.mem
    · rw [List.map_append, List.map_singleton, ← List.concat_eq_append, List.nodup_concat]
      exact ⟨hid, h.distinct⟩

theorem disconnect (h : MadeFor wirings edges) (id : String) :
    MadeFor wirings ((disconnect? edges id).getD edges) := by
  cases hrest : disconnect? edges id with
  | none => exact h
  | some rest =>
      obtain ⟨_, rfl⟩ := disconnect?_eq_some_iff.mp hrest
      refine ⟨fun e he => h.id_eq e (List.mem_of_mem_filter he),
        fun e he => h.mem e (List.mem_of_mem_filter he), ?_⟩
      exact h.distinct.sublist (List.filter_sublist.map Edge.id)

theorem applyAll (h : MadeFor wirings edges) (hinj : Set.InjOn Wiring.edgeId wirings)
    {gestures : List EdgeGesture} (hg : ∀ w, .connect w ∈ gestures → w ∈ wirings) :
    MadeFor wirings (Gesture.applyAll edges gestures) := by
  induction gestures generalizing edges with
  | nil => exact h
  | cons gesture gestures ih =>
      refine ih ?_ fun w hw => hg w (List.mem_cons_of_mem _ hw)
      cases gesture with
      | connect w => exact h.connect hinj (hg w List.mem_cons_self)
      | disconnect id => exact h.disconnect id

end MadeFor

/-- The ids of the edges stay distinct under all gestures with certain wirings, and each removal
takes out a single edge, exactly if no two of these wirings share an id. -/
theorem ids_stay_distinct_iff (wirings : Set Wiring) :
    Set.InjOn Wiring.edgeId wirings ↔
      ∀ (edges : List Edge) (gestures : List EdgeGesture), MadeFor wirings edges →
        (∀ w, .connect w ∈ gestures → w ∈ wirings) →
        ((applyAll edges gestures).map Edge.id).Nodup ∧
          ∀ id rest, disconnect? (applyAll edges gestures) id = some rest →
            ∃ before e after, e.id = id ∧
              applyAll edges gestures = before ++ e :: after ∧ rest = before ++ after := by
  constructor
  · intro hinj edges gestures h hg
    have hnd := (h.applyAll hinj hg).distinct
    exact ⟨hnd, fun id rest => exists_of_disconnect? hnd⟩
  · intro hall w hw w' hw' hid
    by_contra hne
    -- both wirings are connected, one after the other
    have hedges : applyAll [] [.connect w, .connect w'] = [⟨w.edgeId, w⟩, ⟨w'.edgeId, w'⟩] := by
      simp [applyAll, EdgeGesture.apply, connect, hne]
    have hg : ∀ v, EdgeGesture.connect v ∈ [EdgeGesture.connect w, .connect w'] →
        v ∈ wirings := by
      simp [hw, hw']
    have hnd := (hall [] _ ⟨by simp, by simp, by simp⟩ hg).1
    simp [hedges, hid] at hnd

/-- Two connections that differ in both nodes make edges with the same id, and the removal of one
takes out both. -/
theorem removal_takes_two_edges :
    let edges := applyAll []
      [.connect { source := "load", target := "clean-report" },
        .connect { source := "load-clean", target := "report" }]
    MadeFor Set.univ [] ∧ edges.length = 2 ∧ ¬ (edges.map Edge.id).Nodup ∧
      disconnect? edges "xy-edge__load-clean-report" = some [] :=
  ⟨⟨by simp, by simp, by simp⟩, by decide, by decide, by decide⟩

end Gesture

/-! ### Wirings with ids of their own -/

/-- The part of the id in front of the hyphen in the middle. -/
def Wiring.outgoing (w : Wiring) : List Char := (w.source ++ w.sourceHandle.getD "").toList

/-- The part of the id behind the hyphen in the middle. -/
def Wiring.incoming (w : Wiring) : List Char := (w.target ++ w.targetHandle.getD "").toList

theorem Wiring.toList_edgeId (w : Wiring) :
    w.edgeId.toList = "xy-edge__".toList ++ (w.outgoing ++ '-' :: w.incoming) := by
  simp [edgeId, outgoing, incoming]

/-- Two wirings share an id exactly if the texts around a hyphen are the same when run together. -/
theorem Wiring.edgeId_eq_iff {w w' : Wiring} : w.edgeId = w'.edgeId ↔
    w.outgoing ++ '-' :: w.incoming = w'.outgoing ++ '-' :: w'.incoming := by
  rw [← String.toList_inj, toList_edgeId, toList_edgeId, List.append_cancel_left_eq]

/-- A case in which no two wirings share an id, so that the ids of their edges stay distinct: all of
them use the same two handles, and no hyphens. -/
theorem Wiring.edgeId_injOn (out into : Option String) :
    Set.InjOn Wiring.edgeId {w | w.sourceHandle = out ∧ w.targetHandle = into ∧
      '-' ∉ w.outgoing ∧ '-' ∉ w.incoming} := by
  rintro ⟨source, target, _, _⟩ ⟨rfl, rfl, hout, hinto⟩ ⟨source', target', _, _⟩ ⟨rfl, rfl, -, -⟩ h
  obtain ⟨hsource, -, htarget⟩ :=
    (List.append_cons_inj_of_notMem hout hinto).mp (edgeId_eq_iff.mp h)
  simp only [outgoing, incoming, String.toList_append, List.append_cancel_right_eq,
    String.toList_inj] at hsource htarget
  rw [hsource, htarget]

end WorkflowCanvas
