import Mathlib.Data.List.Forall2
import Mathlib.Tactic.MkIffOfInductiveProp
import WorkflowCanvas.Json.Record
import WorkflowCanvas.Proofs.Json.Keeping
import WorkflowCanvas.Proofs.Basic

/-!
The fields of a record.

A record is decoded exactly if there is no fault in itself and each of its parts is decoded. So what
it is decoded to can be said field by field, without the places that decide between faults. The
fields of a value that was written with each key once are its members under their names, and what is
kept beside them are its other members in their order.
-/

namespace WorkflowCanvas.Json

variable {α β : Type}

/-- A text is decoded if what it starts with is, and nothing but space follows. -/
theorem decodeText_eq_ok_iff {decoder : Decoder α} {text : String} {a : α} :
    decodeText decoder text = .ok a ↔
      decoder maxDepth (readDocument text).1 = .ok a ∧ (readDocument text).2 = true := by
  rw [decodeText]
  generalize readDocument text = found
  obtain ⟨d, complete⟩ := found
  dsimp only
  rw [Outcome.bind_eq_ok_iff]
  cases complete <;> simp

/-! ### Outcomes with places -/

namespace Placed

variable {a a' : α} {b : β} {x : Placed α} {place : Nat}

@[simp] theorem pure_inj : (pure a : Placed α) = pure a' ↔ a = a' :=
  ⟨Except.ok.inj, congrArg pure⟩

@[simp] theorem fault_ne_pure {f : Fault} : fault place f ≠ (pure a : Placed α) := by
  rintro ⟨⟩

theorem part_eq_pure_iff {outcome : Except Fault α} :
    part place outcome = pure a ↔ outcome = .ok a := by
  cases outcome <;> simp [part]

@[simp] theorem seq_eq_pure_iff {f : Placed (α → β)} :
    f <*> x = pure b ↔ ∃ g, f = pure g ∧ ∃ a, x = pure a ∧ g a = b := by
  constructor
  · intro h
    cases f with
    | error e => cases x <;> cases h
    | ok g =>
        cases x with
        | error e => cases h
        | ok a => exact ⟨g, rfl, a, rfl, Except.ok.inj h⟩
  · rintro ⟨g, rfl, a, rfl, rfl⟩
    rfl

@[simp] theorem map_eq_pure_iff {f : α → β} : f <$> x = pure b ↔ ∃ a, x = pure a ∧ f a = b := by
  change pure f <*> x = pure b ↔ _
  simp

theorem result_eq_ok_iff : x.result = .ok a ↔ x = pure a := by
  cases x with
  | error e => exact ⟨nofun, nofun⟩
  | ok a' =>
      exact ⟨fun h => congrArg pure (Except.ok.inj h), fun h => congrArg Except.ok (pure_inj.mp h)⟩

end Placed

/-! ### Records as they are found -/

namespace Record

variable {r : Record} {name : String} {item : Decoder α} {a missing : α} {names : List String}

theorem itself_eq_pure_iff : r.itself = .pure () ↔ r.fault = none := by
  rw [itself]
  cases r.fault <;> simp

theorem required_eq_pure_iff : r.required name item = .pure a ↔
    ∃ place d, r.fields.lookup name = some (place, d) ∧ item r.room d = .ok a := by
  rw [required]
  cases r.fields.lookup name with
  | none => simp
  | some field =>
      obtain ⟨place, d⟩ := field
      simp [Placed.part_eq_pure_iff]

theorem withDefault_eq_pure_iff : r.withDefault name item missing = .pure a ↔
    (r.fields.lookup name = none ∧ missing = a) ∨
      ∃ place d, r.fields.lookup name = some (place, d) ∧ item r.room d = .ok a := by
  rw [withDefault]
  cases r.fields.lookup name with
  | none => simp
  | some field =>
      obtain ⟨place, d⟩ := field
      simp [Placed.part_eq_pure_iff]

theorem json_eq_ok_iff {room : Nat} {d : Document} {v : Json} :
    Decoder.json room d = .ok v ↔ Decoder.value room d = some v := by
  rw [Decoder.json]
  cases Decoder.value room d <;> simp

/-- What is kept is decoded one by one. -/
theorem keepOthers_eq_pure_iff {kept : List (String × Json)} : r.keepOthers = .pure kept ↔
    List.Forall₂ (fun other m => other.1 = m.1 ∧ Decoder.value r.room other.2.2 = some m.2)
      r.others kept := by
  rw [keepOthers]
  induction r.others generalizing kept with
  | nil => simp [eq_comm]
  | cons other rest ih =>
      obtain ⟨name, place, d⟩ := other
      simp only [List.foldr_cons, Placed.seq_eq_pure_iff, Placed.map_eq_pure_iff,
        Placed.part_eq_pure_iff, json_eq_ok_iff, ih]
      constructor
      · rintro ⟨_, ⟨v, hv, rfl⟩, vs, hvs, rfl⟩
        exact .cons ⟨rfl, hv⟩ hvs
      · intro h
        cases h with
        | @cons _ m _ ms hm hms =>
            obtain ⟨key, v⟩ := m
            obtain ⟨rfl, hv⟩ := hm
            exact ⟨_, ⟨v, hv, rfl⟩, ms, hms, rfl⟩

theorem skipOthers_eq_pure (h : ∀ other ∈ r.others, other.2.2.isWellFormed = true) :
    r.skipOthers = .pure () := by
  rw [skipOthers, List.find?_eq_none.mpr fun other hother => by simp [h other hother]]

/-! ### Records with each key once -/

/-- Members with their places, the first of which is `place`. -/
def placed : Nat → List (String × Json) → List (String × Nat × Document)
  | _, [] => []
  | place, m :: rest => (m.1, place, m.2.toDocument) :: placed (place + 1) rest

theorem lookup_placed (name : String) (place : Nat) (members : List (String × Json)) :
    ((placed place members).lookup name).map Prod.snd =
      (members.lookup name).map Json.toDocument := by
  induction members generalizing place with
  | nil => rfl
  | cons m rest ih =>
      obtain ⟨key, v⟩ := m
      rw [placed, List.lookup_cons, List.lookup_cons]
      cases name == key
      · exact ih (place + 1)
      · rfl

theorem lookup_filter_of_mem {β : Type} (hname : name ∈ names) (entries : List (String × β)) :
    (entries.filter fun e => e.1 ∈ names).lookup name = entries.lookup name := by
  rw [Keyed.lookup_filter (fun key => key ∈ names), if_pos (by simpa using hname)]

/-- Members with keys that are not found yet are all taken in. -/
theorem addMembers_toMembers {members : List (String × Json)} (place : Nat)
    (hkeys : (members.map Prod.fst).Nodup)
    (hnew : ∀ m ∈ members, r.fields.lookup m.1 = none) :
    addMembers names r place (toMembers members) =
      { r with
        fields := r.fields ++ (placed place members).filter fun e => e.1 ∈ names
        others := r.others ++ (placed place members).filter fun e => e.1 ∉ names
        finish := place + members.length } := by
  induction members generalizing r place with
  | nil => simp [toMembers, addMembers, placed]
  | cons m rest ih =>
      obtain ⟨key, v⟩ := m
      obtain ⟨hkey, hrest⟩ := List.nodup_cons.mp hkeys
      obtain ⟨hfirst, hnew⟩ := List.forall_mem_cons.mp hnew
      rw [toMembers, addMembers]
      by_cases hmem : key ∈ names
      · have hnext : ∀ m ∈ rest, (r.fields ++ [(key, place, v.toDocument)]).lookup m.1 = none := by
          intro m hm
          have hfst : m.1 ∈ rest.map Prod.fst := List.mem_map_of_mem hm
          have hne : m.1 ≠ key := fun heq => hkey (heq ▸ hfst)
          simp [List.lookup_append, hnew m hm, hne]
        rw [if_pos hmem, hfirst, if_neg (by simp), memberToDocument, ih (place + 1) hrest hnext]
        simp [placed, hmem, Nat.add_assoc, Nat.add_comm 1]
      · rw [if_neg hmem, memberToDocument, ih (place + 1) hrest (by exact hnew)]
        simp [placed, hmem, Nat.add_assoc, Nat.add_comm 1]

theorem forall₂_filter_placed {p : String → Bool} (place : Nat) (members : List (String × Json)) :
    List.Forall₂ (fun other m => other.1 = m.1 ∧ other.2.2 = m.2.toDocument)
      ((placed place members).filter fun e => p e.1) (members.filter fun m => p m.1) := by
  induction members generalizing place with
  | nil => exact .nil
  | cons m rest ih =>
      rw [placed, List.filter_cons, List.filter_cons]
      split
      · exact .cons ⟨rfl, rfl⟩ (ih (place + 1))
      · exact ih (place + 1)

/-- A record with the members of a value that was written with each key once. -/
structure Holds (names : List String) (room : Nat) (members : List (String × Json)) (r : Record) :
    Prop where
  room : r.room = room
  fault : r.fault = none
  field : ∀ name ∈ names,
    (r.fields.lookup name).map Prod.snd = (members.lookup name).map Json.toDocument
  others : List.Forall₂ (fun other m => other.1 = m.1 ∧ other.2.2 = m.2.toDocument) r.others
    (members.filter fun m => m.1 ∉ names)

theorem exists_find_holds (names : List String) (room : Nat) {members : List (String × Json)}
    (hkeys : (members.map Prod.fst).Nodup) :
    ∃ r, find names (room + 1) (Json.obj members).toDocument = .ok r ∧
      Holds names room members r := by
  refine ⟨_, rfl, ?_⟩
  rw [addMembers_toMembers 0 hkeys fun _ _ => rfl]
  refine ⟨rfl, rfl, fun name hname => ?_, ?_⟩
  · exact (congrArg _ (lookup_filter_of_mem hname _)).trans (lookup_placed name 0 members)
  · exact forall₂_filter_placed (p := fun key => key ∉ names) 0 members

namespace Holds

variable {room : Nat} {members : List (String × Json)} (h : Holds names room members r)
include h

theorem field_cases (hname : name ∈ names) :
    (r.fields.lookup name = none ∧ members.lookup name = none) ∨
      ∃ place v, r.fields.lookup name = some (place, v.toDocument) ∧
        members.lookup name = some v := by
  have hfield := h.field name hname
  cases hfound : r.fields.lookup name with
  | none =>
      rw [hfound] at hfield
      exact .inl ⟨rfl, Option.map_eq_none_iff.mp hfield.symm⟩
  | some field =>
      obtain ⟨place, d⟩ := field
      rw [hfound] at hfield
      obtain ⟨v, hv, rfl⟩ := Option.map_eq_some_iff.mp hfield.symm
      exact .inr ⟨place, v, rfl, hv⟩

theorem required_iff (hname : name ∈ names) : r.required name item = .pure a ↔
    ∃ v, members.lookup name = some v ∧ item room v.toDocument = .ok a := by
  rw [required_eq_pure_iff, h.room]
  rcases h.field_cases hname with ⟨hfield, hmember⟩ | ⟨place, v, hfield, hmember⟩ <;>
    simp [hfield, hmember]

theorem withDefault_iff (hname : name ∈ names) : r.withDefault name item missing = .pure a ↔
    (members.lookup name = none ∧ missing = a) ∨
      ∃ v, members.lookup name = some v ∧ item room v.toDocument = .ok a := by
  rw [withDefault_eq_pure_iff, h.room]
  rcases h.field_cases hname with ⟨hfield, hmember⟩ | ⟨place, v, hfield, hmember⟩ <;>
    simp [hfield, hmember]

theorem skipOthers_eq : r.skipOthers = .pure () := by
  have hformed : List.Forall₂ (fun other _ => other.2.2.isWellFormed = true ∧ True) r.others
      (members.filter fun m => m.1 ∉ names) :=
    h.others.imp fun other m hother => ⟨hother.2 ▸ isWellFormed_toDocument m.2, trivial⟩
  exact skipOthers_eq_pure ((List.forall₂_and_left _ _).mp hformed).1

theorem keepOthers_eq
    (hvalue : ∀ m ∈ members, m.1 ∉ names → Decoder.value room m.2.toDocument = some m.2) :
    r.keepOthers = .pure (members.filter fun m => m.1 ∉ names) := by
  rw [keepOthers_eq_pure_iff, h.room]
  obtain ⟨hlength, hothers⟩ := List.forall₂_iff_zip.mp h.others
  refine List.forall₂_iff_zip.mpr ⟨hlength, fun {other m} hzip => ?_⟩
  obtain ⟨hkey, hd⟩ := hothers hzip
  obtain ⟨hmem, hname⟩ := List.mem_filter.mp (List.of_mem_zip hzip).2
  exact ⟨hkey, hd ▸ hvalue m hmem (by simpa using hname)⟩

/-- What is kept of a value in memory is kept as it is, and only if it is not too deep. -/
theorem keepOthers_eq_pure_iff
    (hcanonical : ∀ m ∈ members, m.1 ∉ names → Canonical m.2) {kept : List (String × Json)} :
    r.keepOthers = .pure kept ↔
      (∀ m ∈ members, m.1 ∉ names → m.2.depth ≤ room) ∧
        kept = members.filter fun m => m.1 ∉ names := by
  have hkeep : (∀ m ∈ members, m.1 ∉ names → m.2.depth ≤ room) →
      r.keepOthers = .pure (members.filter fun m => m.1 ∉ names) := fun hdepth =>
    h.keepOthers_eq fun m hm hname =>
      Decoder.value_toDocument (hcanonical m hm hname) (hdepth m hm hname)
  constructor
  · intro hkept
    have hvalues := Record.keepOthers_eq_pure_iff.mp hkept
    rw [h.room] at hvalues
    have hdepth : ∀ m ∈ members, m.1 ∉ names → m.2.depth ≤ room := by
      intro m hm hname
      have hother : m ∈ members.filter fun m => m.1 ∉ names :=
        List.mem_filter.mpr ⟨hm, by simpa using hname⟩
      obtain ⟨i, hi, rfl⟩ := List.mem_iff_getElem.mp hother
      have hi' : i < r.others.length := h.others.length_eq.symm ▸ hi
      obtain ⟨_, hd⟩ := h.others.get hi' hi
      obtain ⟨_, hvalue⟩ := hvalues.get hi' (hvalues.length_eq ▸ hi')
      rw [List.get_eq_getElem, List.get_eq_getElem] at hd
      rw [List.get_eq_getElem, hd] at hvalue
      exact Decoder.depth_le_of_value hvalue
    exact ⟨hdepth, Placed.pure_inj.mp (hkept.symm.trans (hkeep hdepth))⟩
  · rintro ⟨hdepth, rfl⟩
    exact hkeep hdepth

end Holds

end Record

theorem Decoder.record_eq_ok_iff {names : List String} {build : Record → Placed α} {room : Nat}
    {d : Document} {a : α} : Decoder.record names build room d = .ok a ↔
      ∃ r, Record.find names room d = .ok r ∧ r.fault = none ∧ build r = .pure a := by
  rw [Decoder.record, Outcome.bind_eq_ok_iff]
  simp only [Placed.result_eq_ok_iff, Placed.seq_eq_pure_iff, Placed.map_eq_pure_iff,
    ← Record.itself_eq_pure_iff]
  constructor
  · rintro ⟨r, hfind, _, ⟨⟨⟩, hfault, rfl⟩, a, hbuild, rfl⟩
    exact ⟨r, hfind, hfault, hbuild⟩
  · rintro ⟨r, hfind, hfault, hbuild⟩
    exact ⟨r, hfind, _, ⟨(), hfault, rfl⟩, a, hbuild, rfl⟩

/-- A value with each key once that is not too deep is decoded as a record that holds its
members. -/
theorem Decoder.exists_record_iff (names : List String) {v : Json} {members : List (String × Json)}
    {room : Nat} (hv : v = .obj members) (hkeys : (members.map Prod.fst).Nodup)
    (hdepth : v.depth ≤ room) :
    ∃ inner r, (∀ m ∈ members, m.2.depth ≤ inner) ∧ Record.Holds names inner members r ∧
      ∀ {α : Type} (build : Record → Placed α) (a : α),
        Decoder.record names build room v.toDocument = .ok a ↔ build r = .pure a := by
  subst hv
  obtain ⟨inner, rfl, hinner⟩ := depth_obj_le_iff.mp hdepth
  obtain ⟨r, hfind, hholds⟩ := Record.exists_find_holds names inner hkeys
  refine ⟨inner, r, hinner, hholds, fun build a => ?_⟩
  rw [record_eq_ok_iff]
  simp [hfind, hholds.fault]

end WorkflowCanvas.Json
