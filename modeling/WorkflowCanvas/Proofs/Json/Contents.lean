import WorkflowCanvas.Proofs.Json.Recovery
import WorkflowCanvas.Proofs.Json.Wholes

/-!
What decoders give.

A decoder may refuse a text, but what it does give has properties that later steps rely on: floats
are finite, and values that are kept are no deeper than the levels that were left. `Yields` says
that a property holds of everything that a decoder gives. It passes from the items to a list and
from the fields to a record.
-/

namespace WorkflowCanvas.Json

variable {α : Type} {room : Nat} {item : Decoder α} {p : α → Prop}

/-- Whatever is decoded with so many levels left has the property. -/
def Yields (item : Decoder α) (room : Nat) (p : α → Prop) : Prop :=
  ∀ d a, item room d = .ok a → p a

/-- Texts are decoded with all levels left. -/
theorem Yields.decodeText (h : Yields item maxDepth p) {text : String} {a : α}
    (ha : decodeText item text = .ok a) : p a :=
  h _ a (decodeText_eq_ok_iff.mp ha).1

theorem yields_float : Yields Decoder.float room fun x => x.isFinite = true := by
  intro d x h
  cases d with
  | num n =>
      cases n with
      | none => cases h
      | some n =>
          obtain rfl := Except.ok.inj h
          exact isFinite_toFloat n
  | broken | null | bool | str | arr | obj => cases h

theorem Yields.items (h : Yields item room p) {ds : Items} {as : List α}
    (has : Decoder.items item room ds = .ok as) : ∀ a ∈ as, p a := by
  induction ds using Decoder.items.induct generalizing as with
  | case1 =>
      obtain rfl := Except.ok.inj has
      simp
  | case2 => cases has
  | case3 d rest ih =>
      obtain ⟨a, ha, has⟩ := Outcome.bind_eq_ok_iff.mp has
      obtain ⟨as, hrest, heq⟩ := Outcome.bind_eq_ok_iff.mp has
      obtain rfl := Except.ok.inj heq
      exact List.forall_mem_cons.mpr ⟨h d a ha, ih hrest⟩

theorem Yields.list (h : Yields item room p) :
    Yields (Decoder.list item) (room + 1) fun as => ∀ a ∈ as, p a := by
  intro d as has
  cases d with
  | arr ds => exact h.items has
  | broken | null | bool | num | str | obj => cases has

/-! ### Records -/

namespace Record

variable {r : Record} {names : List String} {name : String} {place : Nat}

theorem addItems_eq (ds : Items) : (addItems r place names ds).room = r.room ∧
    (addItems r place names ds).others = r.others := by
  induction r, place, names, ds using addItems.induct with
  | case1 | case2 | case3 => simp [addItems]
  | case4 r place name names item rest ih => exact ih

theorem addMembers_eq (members : Members) (h : ∀ other ∈ r.others, other.1 ∉ names) :
    (addMembers names r place members).room = r.room ∧
      ∀ other ∈ (addMembers names r place members).others, other.1 ∉ names := by
  induction r, place, members using addMembers.induct names with
  | case1 | case2 => exact ⟨rfl, h⟩
  | case3 r place name value rest hname hfound =>
      rw [addMembers, if_pos hname, if_pos hfound]
      exact ⟨rfl, h⟩
  | case4 r place name value rest hname hnew ih =>
      rw [addMembers, if_pos hname, if_neg hnew]
      exact ih h
  | case5 r place name value rest hname ih =>
      rw [addMembers, if_neg hname]
      refine ih fun other hother => ?_
      rcases List.mem_append.mp hother with hother | hother
      · exact h other hother
      · obtain rfl := List.mem_singleton.mp hother
        exact hname
  | case6 r place key value rest hkey => 
      rw [addMembers]
      · exact ⟨rfl, h⟩
      · exact hkey

/-- The record in a document has one level less left, and nothing under the name of a field stands
beside its fields. -/
theorem of_find {d : Document} (h : find names (room + 1) d = .ok r) :
    r.room = room ∧ ∀ other ∈ r.others, other.1 ∉ names := by
  cases d with
  | arr ds =>
      obtain rfl := Except.ok.inj h
      have hitems : (addItems { room } 0 names ds).room = room ∧
          (addItems { room } 0 names ds).others = [] := addItems_eq ds
      exact ⟨hitems.1, by simp [hitems.2]⟩
  | obj members =>
      obtain rfl := Except.ok.inj h
      exact addMembers_eq members (by simp)
  | broken | null | bool | num | str => cases h

end Record

variable {r : Record} {names : List String} {name : String} {a : α}

theorem Yields.required (h : Yields item r.room p) (ha : r.required name item = .pure a) : p a := by
  obtain ⟨_, d, _, hd⟩ := Record.required_eq_pure_iff.mp ha
  exact h d a hd

theorem Yields.withDefault (h : Yields item r.room p) {missing : α} (hmissing : p missing)
    (ha : r.withDefault name item missing = .pure a) : p a := by
  rcases Record.withDefault_eq_pure_iff.mp ha with ⟨_, rfl⟩ | ⟨_, d, _, hd⟩
  · exact hmissing
  · exact h d a hd

theorem Yields.optional (h : Yields item r.room p) (hnull : ∀ a, item r.room .null ≠ .ok a)
    {o : Option α} (ho : r.optional name item = .pure o) : ∀ a ∈ o, p a := by
  refine Yields.withDefault (p := fun o => ∀ a ∈ o, p a) (fun d o ho => ?_) (by simp) ho
  rcases (nullable_eq_ok_iff hnull).mp ho with ⟨_, rfl⟩ | ⟨a, ha, rfl⟩
  · simp
  · rintro _ ⟨⟩
    exact h d a ha

/-- What is kept was decoded as a value, and under none of the names of the fields. -/
theorem kept_of_keepOthers {kept : List (String × Json)} (h : r.keepOthers = .pure kept)
    (hothers : ∀ other ∈ r.others, other.1 ∉ names) :
    ∀ m ∈ kept, m.1 ∉ names ∧ Canonical m.2 ∧ m.2.depth ≤ r.room := by
  have hkept := Record.keepOthers_eq_pure_iff.mp h
  intro m hm
  obtain ⟨i, hi, rfl⟩ := List.mem_iff_getElem.mp hm
  obtain ⟨hkey, hvalue⟩ := hkept.get (hkept.length_eq.symm ▸ hi) hi
  exact ⟨hkey ▸ hothers _ (List.getElem_mem _), Decoder.canonical_of_value hvalue⟩

/-- What is put together from the parts of a record. -/
theorem yields_record {build : Record → Placed α}
    (h : ∀ r a, r.room = room → (∀ other ∈ r.others, other.1 ∉ names) → build r = .pure a →
      p a) :
    Yields (Decoder.record names build) (room + 1) p := by
  intro d a ha
  obtain ⟨r, hfind, _, hbuild⟩ := Decoder.record_eq_ok_iff.mp ha
  obtain ⟨hroom, hothers⟩ := Record.of_find hfind
  exact h r a hroom hothers hbuild

/-! ### Refusals -/

variable {β : Type} {v : Json} {q : Prop}

/-- What spells out the value is decoded at all only if `q` holds. -/
def Demands (item : Decoder α) (v : Json) (q : Prop) : Prop :=
  ∀ room a, v.depth ≤ room → item room v.toDocument = .ok a → q

theorem Demands.decodeText (h : Demands item v q) (hnumbers : ∀ n ∈ v.numbers, n.Rereads)
    (hdepth : v.depth ≤ maxDepth) {a : α} (ha : decodeText item (render v) = .ok a) : q :=
  h maxDepth a hdepth ((decodeText_render item hnumbers).symm.trans ha)

theorem demands_float (x : Float) : Demands Decoder.float (ofFloat x) (x.isFinite = true) := by
  intro room y _ h
  by_contra hfinite
  rw [ofFloat, dif_neg hfinite] at h
  exact float_null y h

theorem demands_list {write : β → Json} {q : β → Prop} {bs : List β}
    (h : ∀ b ∈ bs, Demands item (write b) (q b)) :
    Demands (Decoder.list item) (.arr (bs.map write)) (∀ b ∈ bs, q b) := by
  intro room as hdepth has
  obtain ⟨inner, rfl, hinner⟩ := depth_arr_le_iff.mp hdepth
  rw [toDocument, Decoder.list] at has
  clear hdepth
  induction bs generalizing as with
  | nil => simp
  | cons b bs ih =>
      obtain ⟨hb, hbs⟩ := List.forall_mem_cons.mp h
      obtain ⟨hdepth, hrest⟩ := List.forall_mem_cons.mp hinner
      obtain ⟨a, ha, has⟩ := Outcome.bind_eq_ok_iff.mp has
      obtain ⟨as, htail, _⟩ := Outcome.bind_eq_ok_iff.mp has
      exact List.forall_mem_cons.mpr ⟨hb inner a hdepth ha, ih hbs as hrest htail⟩

namespace Record.Holds

variable {members : List (String × Json)} (h : Holds names room members r)
  (hdepth : ∀ m ∈ members, m.2.depth ≤ room)
include h hdepth

theorem required_demands (hname : name ∈ names) (hv : Demands item v q)
    (hlookup : members.lookup name = some v) (ha : r.required name item = .pure a) : q := by
  obtain ⟨_, hfound, ha⟩ := (h.required_iff hname).mp ha
  obtain rfl := Option.some.inj (hlookup.symm.trans hfound)
  exact hv room a (depth_of_lookup hdepth hlookup) ha

theorem withDefault_demands (hname : name ∈ names) (hv : Demands item v q) {missing : α}
    (hlookup : members.lookup name = some v) (ha : r.withDefault name item missing = .pure a) :
    q := by
  rcases (h.withDefault_iff hname).mp ha with ⟨hnone, _⟩ | ⟨_, hfound, ha⟩
  · exact absurd (hlookup.symm.trans hnone) (Option.some_ne_none v)
  · obtain rfl := Option.some.inj (hlookup.symm.trans hfound)
    exact hv room a (depth_of_lookup hdepth hlookup) ha

end Record.Holds

end WorkflowCanvas.Json
