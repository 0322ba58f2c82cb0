import Mathlib.Logic.Basic
import WorkflowCanvas.Json.Decoder
import WorkflowCanvas.Proofs.Json.Structure

/-!
Values that are kept as they are.

What is not understood is decoded as a value and kept. Such a value has its members in the order of
their keys at every level, and goes no deeper than the decoder may go. A value that fulfils both is
decoded to itself.
-/

namespace WorkflowCanvas.Json

variable {members : List (String × Json)} {key : String} {v : Json}

/-! ### Sorting members -/

instance : Decidable (Ascending members) := inferInstanceAs (Decidable (List.Pairwise _ _))

theorem mem_set {m : String × Json} (h : m ∈ set key v members) : m = (key, v) ∨ m ∈ members := by
  induction members with
  | nil => simpa [set] using h
  | cons first rest ih =>
      obtain ⟨k, v'⟩ := first
      rw [set] at h
      grind

theorem ascending_set (h : Ascending members) : Ascending (set key v members) := by
  induction members with
  | nil => simp [set, Ascending]
  | cons first rest ih =>
      obtain ⟨k, v'⟩ := first
      obtain ⟨hfirst, hrest⟩ := List.pairwise_cons.mp h
      rw [set]
      split
      · rename_i hlt
        refine List.pairwise_cons.mpr ⟨fun m hm => ?_, h⟩
        rcases List.mem_cons.mp hm with rfl | hm
        · exact hlt
        · exact String.lt_trans hlt (hfirst m hm)
      split
      · rename_i heq
        subst heq
        exact List.pairwise_cons.mpr ⟨hfirst, hrest⟩
      · rename_i hlt hne
        refine List.pairwise_cons.mpr ⟨fun m hm => ?_, ih hrest⟩
        rcases mem_set hm with rfl | hm
        · exact String.not_le.mp fun hle => hne (String.le_antisymm hle (String.not_lt.mp hlt))
        · exact hfirst m hm

theorem set_eq_append (h : ∀ m ∈ members, m.1 < key) :
    set key v members = members ++ [(key, v)] := by
  induction members with
  | nil => rfl
  | cons first rest ih =>
      obtain ⟨k, v'⟩ := first
      obtain ⟨hlt, hrest⟩ := List.forall_mem_cons.mp h
      have hne : key ≠ k := fun heq => String.lt_irrefl k (heq ▸ hlt)
      rw [set, if_neg (String.lt_asymm hlt), if_neg hne, ih hrest, List.cons_append]

/-- Members that are in order already stay as they are. -/
theorem sortMembers_eq_self (h : Ascending members) : sortMembers members = members := by
  have hsort : ∀ sorted, Ascending (sorted ++ members) →
      members.foldl (fun sorted m => set m.1 m.2 sorted) sorted = sorted ++ members := by
    intro sorted hsorted
    induction members generalizing sorted with
    | nil => simp
    | cons m rest ih =>
        have hlt : ∀ m' ∈ sorted, m'.1 < m.1 := fun m' hm' =>
          (List.pairwise_append.mp hsorted).2.2 m' hm' m List.mem_cons_self
        rw [List.foldl_cons, set_eq_append hlt]
        have hassoc : sorted ++ m :: rest = sorted ++ [m] ++ rest := by simp
        rw [hassoc] at hsorted ⊢
        exact ih (List.pairwise_cons.mp h).2 _ hsorted
  exact hsort [] h

theorem ascending_sortMembers (members : List (String × Json)) :
    Ascending (sortMembers members) := by
  have hsort : ∀ sorted, Ascending sorted →
      Ascending (members.foldl (fun sorted m => set m.1 m.2 sorted) sorted) := by
    intro sorted h
    induction members generalizing sorted with
    | nil => exact h
    | cons m rest ih => exact ih _ (ascending_set h)
  exact hsort [] .nil

theorem Ascending.nodup (h : Ascending members) : (members.map Prod.fst).Nodup :=
  List.pairwise_map.mpr (h.imp String.ne_of_lt)

theorem mem_sortMembers {m : String × Json} (h : m ∈ sortMembers members) : m ∈ members := by
  have hsort : ∀ sorted, m ∈ members.foldl (fun sorted m => set m.1 m.2 sorted) sorted →
      m ∈ sorted ∨ m ∈ members := by
    clear h
    intro sorted h
    induction members generalizing sorted with
    | nil => exact .inl h
    | cons first rest ih =>
        rcases ih _ h with h | h
        · rcases mem_set h with rfl | h
          · exact .inr List.mem_cons_self
          · exact .inl h
        · exact .inr (List.mem_cons_of_mem _ h)
  exact (hsort [] h).resolve_left List.not_mem_nil

/-! ### Decoding -/

namespace Decoder

theorem valueItems_toItems {items : List Json} {room : Nat}
    (h : ∀ v ∈ items, value room v.toDocument = some v) :
    valueItems room (toItems items) = some items := by
  induction items with
  | nil => rfl
  | cons v rest ih =>
      obtain ⟨hv, hrest⟩ := List.forall_mem_cons.mp h
      rw [toItems, valueItems, hv, ih hrest]
      rfl

theorem valueMembers_toMembers {room : Nat}
    (h : ∀ m ∈ members, value room m.2.toDocument = some m.2) :
    valueMembers room (toMembers members) = some members := by
  induction members with
  | nil => rfl
  | cons m rest ih =>
      obtain ⟨hm, hrest⟩ := List.forall_mem_cons.mp h
      rw [toMembers, valueMembers, memberToDocument, hm, ih hrest]
      rfl

/-- A value is decoded to itself if its members are in order and it is not too deep. -/
theorem value_toDocument (h : Canonical v) {room : Nat} (hdepth : v.depth ≤ room) :
    value room v.toDocument = some v := by
  induction v using induct generalizing room with
  | null | bool | num | str => rfl
  | arr items ih =>
      obtain ⟨inner, rfl, hinner⟩ := depth_arr_le_iff.mp hdepth
      cases h with
      | arr hitems =>
          rw [toDocument, value,
            valueItems_toItems fun v hv => ih v hv (hitems v hv) (hinner v hv)]
          rfl
  | obj members ih =>
      obtain ⟨inner, rfl, hinner⟩ := depth_obj_le_iff.mp hdepth
      cases h with
      | obj hascending hmembers =>
          rw [toDocument, value,
            valueMembers_toMembers fun m hm => ih m hm (hmembers m hm) (hinner m hm),
            Option.map_some, sortMembers_eq_self hascending]

theorem exists_value_of_items {items vs : List Json} {room : Nat}
    (h : valueItems room (toItems items) = some vs) :
    ∀ v ∈ items, ∃ w, value room v.toDocument = some w := by
  induction items generalizing vs with
  | nil => simp
  | cons v rest ih =>
      rw [toItems] at h
      obtain ⟨w, hw, h⟩ := Option.bind_eq_some_iff.mp h
      obtain ⟨ws, hws, _⟩ := Option.bind_eq_some_iff.mp h
      exact List.forall_mem_cons.mpr ⟨⟨w, hw⟩, ih hws⟩

theorem exists_value_of_members {ms : List (String × Json)} {room : Nat}
    (h : valueMembers room (toMembers members) = some ms) :
    ∀ m ∈ members, ∃ w, value room m.2.toDocument = some w := by
  induction members generalizing ms with
  | nil => simp
  | cons m rest ih =>
      rw [toMembers, valueMembers, memberToDocument] at h
      obtain ⟨w, hw, h⟩ := Option.bind_eq_some_iff.mp h
      obtain ⟨ws, hws, _⟩ := Option.bind_eq_some_iff.mp h
      exact List.forall_mem_cons.mpr ⟨⟨w, hw⟩, ih hws⟩

/-- A value that is too deep is not decoded. -/
theorem depth_le_of_value {w : Json} {room : Nat} (h : value room v.toDocument = some w) :
    v.depth ≤ room := by
  induction v using induct generalizing room w with
  | null | bool | num | str => exact Nat.zero_le _
  | arr items ih =>
      cases room with
      | zero => cases h
      | succ room =>
          obtain ⟨vs, hvs, _⟩ := Option.map_eq_some_iff.mp h
          refine depth_arr_le_iff.mpr ⟨room, rfl, fun v hv => ?_⟩
          obtain ⟨w, hw⟩ := exists_value_of_items hvs v hv
          exact ih v hv hw
  | obj members ih =>
      cases room with
      | zero => cases h
      | succ room =>
          obtain ⟨ms, hms, _⟩ := Option.map_eq_some_iff.mp h
          refine depth_obj_le_iff.mpr ⟨room, rfl, fun m hm => ?_⟩
          obtain ⟨w, hw⟩ := exists_value_of_members hms m hm
          exact ih m hm hw

mutual

/-- What is decoded as a value has its members in order and is not too deep. -/
theorem canonical_of_value {room : Nat} {v : Json} : ∀ {d : Document}, value room d = some v →
    Canonical v ∧ v.depth ≤ room
  | .broken, h => by cases h
  | .null, h => by cases h; exact ⟨.null, Nat.zero_le _⟩
  | .bool b, h => by cases h; exact ⟨.bool b, Nat.zero_le _⟩
  | .num n, h => by
      obtain ⟨n, rfl, rfl⟩ := Option.map_eq_some_iff.mp h
      exact ⟨.num n, Nat.zero_le _⟩
  | .str s, h => by
      obtain ⟨s, rfl, rfl⟩ := Option.map_eq_some_iff.mp h
      exact ⟨.str s, Nat.zero_le _⟩
  | .arr items, h => by
      cases room with
      | zero => cases h
      | succ room =>
          obtain ⟨vs, hvs, rfl⟩ := Option.map_eq_some_iff.mp h
          have hall := canonical_of_valueItems hvs
          exact ⟨.arr fun v hv => (hall v hv).1,
            depth_arr_le_iff.mpr ⟨room, rfl, fun v hv => (hall v hv).2⟩⟩
  | .obj members, h => by
      cases room with
      | zero => cases h
      | succ room =>
          obtain ⟨ms, hms, rfl⟩ := Option.map_eq_some_iff.mp h
          have hall := canonical_of_valueMembers hms
          exact ⟨.obj (ascending_sortMembers ms) fun m hm => (hall m (mem_sortMembers hm)).1,
            depth_obj_le_iff.mpr ⟨room, rfl, fun m hm => (hall m (mem_sortMembers hm)).2⟩⟩

theorem canonical_of_valueItems {room : Nat} {vs : List Json} : ∀ {items : Items},
    valueItems room items = some vs → ∀ v ∈ vs, Canonical v ∧ v.depth ≤ room
  | .closed, h => by cases h; simp
  | .cut, h => by cases h
  | .more item rest, h => by
      obtain ⟨v, hv, h⟩ := Option.bind_eq_some_iff.mp h
      obtain ⟨vs, hvs, h⟩ := Option.bind_eq_some_iff.mp h
      obtain rfl := Option.some.inj h
      exact List.forall_mem_cons.mpr ⟨canonical_of_value hv, canonical_of_valueItems hvs⟩

theorem canonical_of_valueMembers {room : Nat} {ms : List (String × Json)} : ∀ {members : Members},
    valueMembers room members = some ms → ∀ m ∈ ms, Canonical m.2 ∧ m.2.depth ≤ room
  | .closed, h => by cases h; simp
  | .cut, h => by cases h
  | .more key v rest, h => by
      cases key with
      | str name =>
          cases name with
          | none => cases h
          | some name =>
              obtain ⟨v, hv, h⟩ := Option.bind_eq_some_iff.mp h
              obtain ⟨vs, hvs, h⟩ := Option.bind_eq_some_iff.mp h
              obtain rfl := Option.some.inj h
              exact List.forall_mem_cons.mpr ⟨canonical_of_value hv, canonical_of_valueMembers hvs⟩
      | broken | null | bool | num | arr | obj => cases h

end

end Decoder

end WorkflowCanvas.Json
