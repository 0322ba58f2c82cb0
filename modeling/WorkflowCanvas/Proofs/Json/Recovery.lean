import WorkflowCanvas.Model.Writing
import WorkflowCanvas.Proofs.Json.Fields
import WorkflowCanvas.Proofs.Json.Rereading

/-!
Decoders that undo encoders.

`Recovers` says when a decoder gives back what an encoder wrote, for every depth that what was
written may have. The condition is that of the parts: a float has to be finite, a list is recovered
if all its items are, and a record if all its fields are. So nothing has to be said of a type but
which fields it has.
-/

namespace WorkflowCanvas.Json

variable {α : Type} {room : Nat} {item : Decoder α} {write : α → Json} {a : α} {p : Prop}

/-- What is written for `a` is decoded to `a` exactly if `p` holds. -/
def Recovers (item : Decoder α) (write : α → Json) (a : α) (p : Prop) : Prop :=
  ∀ room, (write a).depth ≤ room → (item room (write a).toDocument = .ok a ↔ p)

theorem recovers_string (s : String) : Recovers Decoder.string .str s True := by
  intro room _
  simp [toDocument, Decoder.string]

theorem recovers_bool (b : Bool) : Recovers Decoder.bool .bool b True := by
  intro room _
  simp [toDocument, Decoder.bool]

theorem recovers_float (x : Float) : Recovers Decoder.float ofFloat x (x.isFinite = true) := by
  intro room _
  by_cases hfinite : x.isFinite = true
  · simp [ofFloat, hfinite, toDocument, Decoder.float, Number.toFloat]
  · simp [ofFloat, hfinite, toDocument, Decoder.float]

theorem recovers_list {p : α → Prop} {as : List α} (h : ∀ a ∈ as, Recovers item write a (p a)) :
    Recovers (Decoder.list item) (fun as => arr (as.map write)) as (∀ a ∈ as, p a) := by
  intro room hdepth
  obtain ⟨inner, rfl, hinner⟩ := depth_arr_le_iff.mp hdepth
  dsimp only
  rw [toDocument, Decoder.list]
  clear hdepth
  induction as with
  | nil => simp [toItems, Decoder.items]
  | cons a as ih =>
      obtain ⟨ha, has⟩ := List.forall_mem_cons.mp h
      obtain ⟨hdepth, hrest⟩ := List.forall_mem_cons.mp hinner
      have hrest := ih has hrest
      have ha := ha inner hdepth
      rw [List.map_cons, toItems, Decoder.items, List.forall_mem_cons, ← ha, ← hrest]
      simp only [Outcome.bind_eq_ok_iff]
      grind

/-! ### Fields -/

@[simp] theorem lookup_optionalMember (name key : String) (write : α → Json) (o : Option α) :
    (optionalMember key write o).lookup name = if name = key then o.map write else none := by
  cases o with
  | none => simp [optionalMember]
  | some a =>
      rw [optionalMember, List.lookup_cons, List.lookup_nil, Option.map_some]
      by_cases h : name = key
      · rw [beq_iff_eq.mpr h, if_pos h]
      · rw [beq_eq_false_iff_ne.mpr h, if_neg h]

theorem keys_optionalMember (key : String) (write : α → Json) (o : Option α) :
    ((optionalMember key write o).map Prod.fst).Sublist [key] := by
  cases o <;> simp [optionalMember]

theorem nullable_eq_ok_iff {d : Document} {o : Option α} (hnull : ∀ a, item room .null ≠ .ok a) :
    Decoder.nullable item room d = .ok o ↔
      (d = .null ∧ o = none) ∨ ∃ a, item room d = .ok a ∧ o = some a := by
  by_cases hd : d = .null
  · subst hd
    simp [Decoder.nullable, hnull, eq_comm]
  · have hsome : Decoder.nullable item room d = some <$> item room d := by
      cases d <;> first | rfl | exact absurd rfl hd
    rw [hsome]
    cases item room d <;> simp [Functor.map, Except.map, hd, eq_comm]

theorem string_null (s : String) : Decoder.string room .null ≠ .ok s := nofun

theorem float_null (x : Float) : Decoder.float room .null ≠ .ok x := nofun

theorem record_null {names : List String} {build : Record → Placed α} (a : α) :
    Decoder.record names build room .null ≠ .ok a := by
  cases room <;> exact nofun

namespace Record.Holds

variable {members : List (String × Json)} {names : List String} {r : Record} {name : String}
  (h : Holds names room members r) (hdepth : ∀ m ∈ members, m.2.depth ≤ room)
include h hdepth

omit h in
theorem depth_of_lookup {v : Json} (hlookup : members.lookup name = some v) : v.depth ≤ room := by
  obtain ⟨before, after, hsplit, _⟩ := List.lookup_eq_some_iff.mp hlookup
  exact hdepth (name, v) (hsplit ▸ List.mem_append_right _ List.mem_cons_self)

theorem required_recovers (hname : name ∈ names) (ha : Recovers item write a p)
    (hlookup : members.lookup name = some (write a)) : r.required name item = .pure a ↔ p := by
  rw [h.required_iff hname, ← ha room (depth_of_lookup hdepth hlookup)]
  simp [hlookup]

theorem withDefault_recovers (hname : name ∈ names) (ha : Recovers item write a p) {missing : α}
    (hlookup : members.lookup name = some (write a)) :
    r.withDefault name item missing = .pure a ↔ p := by
  rw [h.withDefault_iff hname, ← ha room (depth_of_lookup hdepth hlookup)]
  simp [hlookup]

/-- An optional field that was left out or written as `null` when it was absent. -/
theorem optional_recovers {p : α → Prop} {o : Option α} (hname : name ∈ names)
    (ho : ∀ a ∈ o, Recovers item write a (p a)) (hnull : ∀ a, item room .null ≠ .ok a)
    (hlookup : members.lookup name = o.map write ∨ members.lookup name = some (ofOption write o)) :
    r.optional name item = .pure o ↔ ∀ a ∈ o, p a := by
  rw [Record.optional, h.withDefault_iff hname]
  simp only [nullable_eq_ok_iff hnull]
  cases o with
  | none => rcases hlookup with hlookup | hlookup <;> simp [hlookup, ofOption, toDocument]
  | some a =>
      have hfound : members.lookup name = some (write a) := hlookup.elim id id
      have ha := ho a rfl room (depth_of_lookup hdepth hfound)
      simp [hfound, ha]

end Record.Holds

/-- The text of a value is decoded as what spells out the value. -/
theorem decodeText_render (item : Decoder α) {v : Json} (hnumbers : ∀ n ∈ v.numbers, n.Rereads) :
    decodeText item (render v) = item maxDepth v.toDocument := by
  rw [decodeText, readDocument_render v hnumbers]
  dsimp only
  cases item maxDepth v.toDocument <;> rfl

/-- What is read back from the text of what was written. -/
theorem decodeText_render_iff (h : Recovers item write a p)
    (hnumbers : ∀ n ∈ (write a).numbers, n.Rereads) (hdepth : (write a).depth ≤ maxDepth) :
    decodeText item (render (write a)) = .ok a ↔ p := by
  rw [decodeText_render item hnumbers, h maxDepth hdepth]

end WorkflowCanvas.Json
