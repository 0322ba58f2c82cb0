import WorkflowCanvas.Json.Document

/-!
How values are built.

A value holds values in lists and in the members of lists, so its recursor speaks of lists and
members as well. `Json.induct` speaks of values alone: what holds of a list or an object is proved
from what holds of everything in it. The numbers of a value and the levels it has are measured
along the same structure.
-/

namespace WorkflowCanvas.Json

/-- Induction on values, with everything in a list or an object as the smaller cases. -/
@[elab_as_elim] theorem induct {motive : Json → Prop} (null : motive .null)
    (bool : ∀ b, motive (.bool b)) (num : ∀ n, motive (.num n)) (str : ∀ s, motive (.str s))
    (arr : ∀ items, (∀ v ∈ items, motive v) → motive (.arr items))
    (obj : ∀ members, (∀ m ∈ members, motive m.2) → motive (.obj members)) (v : Json) :
    motive v :=
  @Json.rec motive (fun items => ∀ v ∈ items, motive v) (fun members => ∀ m ∈ members, motive m.2)
    (fun m => motive m.2) null bool num str arr obj (by simp) (by simp +contextual) (by simp)
    (by simp +contextual) (by simp) v

mutual

/-- The numbers in a value. -/
def numbers : Json → List Number
  | num n => [n]
  | arr items => itemNumbers items
  | obj members => memberListNumbers members
  | _ => []
termination_by structural v => v

def itemNumbers : List Json → List Number
  | [] => []
  | v :: rest => v.numbers ++ itemNumbers rest
termination_by structural items => items

def memberListNumbers : List (String × Json) → List Number
  | [] => []
  | m :: rest => memberNumbers m ++ memberListNumbers rest
termination_by structural members => members

def memberNumbers : String × Json → List Number
  | (_, v) => v.numbers
termination_by structural m => m

end

mutual

/-- How many levels of arrays and objects are inside each other. -/
def depth : Json → Nat
  | arr items => itemDepth items + 1
  | obj members => memberListDepth members + 1
  | _ => 0
termination_by structural v => v

def itemDepth : List Json → Nat
  | [] => 0
  | v :: rest => max v.depth (itemDepth rest)
termination_by structural items => items

def memberListDepth : List (String × Json) → Nat
  | [] => 0
  | m :: rest => max (memberDepth m) (memberListDepth rest)
termination_by structural members => members

def memberDepth : String × Json → Nat
  | (_, v) => v.depth
termination_by structural m => m

end

variable {items : List Json} {members : List (String × Json)} {n : Number} {room : Nat}

theorem mem_itemNumbers : n ∈ itemNumbers items ↔ ∃ v ∈ items, n ∈ v.numbers := by
  induction items with
  | nil => simp [itemNumbers]
  | cons v rest ih => simp [itemNumbers, ih]

theorem mem_memberListNumbers :
    n ∈ memberListNumbers members ↔ ∃ m ∈ members, n ∈ m.2.numbers := by
  induction members with
  | nil => simp [memberListNumbers]
  | cons m rest ih =>
      obtain ⟨key, v⟩ := m
      simp [memberListNumbers, memberNumbers, ih]

theorem itemDepth_le_iff : itemDepth items ≤ room ↔ ∀ v ∈ items, v.depth ≤ room := by
  induction items with
  | nil => simp [itemDepth]
  | cons v rest ih => rw [itemDepth, Nat.max_le, ih, List.forall_mem_cons]

theorem memberListDepth_le_iff :
    memberListDepth members ≤ room ↔ ∀ m ∈ members, m.2.depth ≤ room := by
  induction members with
  | nil => simp [memberListDepth]
  | cons m rest ih =>
      obtain ⟨key, v⟩ := m
      rw [memberListDepth, memberDepth, Nat.max_le, ih, List.forall_mem_cons]

theorem depth_arr_le_iff :
    (arr items).depth ≤ room ↔ ∃ inner, room = inner + 1 ∧ ∀ v ∈ items, v.depth ≤ inner := by
  cases room with
  | zero => simp [depth]
  | succ room => simp [depth, itemDepth_le_iff]

theorem depth_obj_le_iff :
    (obj members).depth ≤ room ↔ ∃ inner, room = inner + 1 ∧ ∀ m ∈ members, m.2.depth ≤ inner := by
  cases room with
  | zero => simp [depth]
  | succ room => simp [depth, memberListDepth_le_iff]

/-- What spells out a value is JSON in form. -/
theorem isWellFormed_toDocument (v : Json) : v.toDocument.isWellFormed = true := by
  induction v using induct with
  | null | bool | num | str => rfl
  | arr items ih =>
      rw [toDocument, Document.isWellFormed]
      induction items with
      | nil => rfl
      | cons v rest ih' =>
          obtain ⟨hv, hrest⟩ := List.forall_mem_cons.mp ih
          rw [toItems, Items.isWellFormed, hv, ih' hrest]
          rfl
  | obj members ih =>
      rw [toDocument, Document.isWellFormed]
      induction members with
      | nil => rfl
      | cons m rest ih' =>
          obtain ⟨hm, hrest⟩ := List.forall_mem_cons.mp ih
          rw [toMembers, Members.isWellFormed, memberToDocument, hm, ih' hrest]
          rfl

end WorkflowCanvas.Json
