import WorkflowCanvas.Proofs.Json.Members
import WorkflowCanvas.Proofs.Model.RoundTrip

/-!
What a payload carries from where it was read to where it is written.

Of an object that is read as a payload only the name and the lock are understood. `Tells` says which
payload an object stands for. Such a payload is written with the members that the object had, but
for a name that is `null`, which is left out, and a missing lock, which is filled in. What stands
under other keys is not looked into, so it is the same at every depth.
-/

namespace WorkflowCanvas

open Json Json.Decoder

/-! ### Fields of a value -/

namespace Json

variable {v : Json} {room : Nat}

theorem toDocument_eq_null_iff : v.toDocument = .null ↔ v = .null := by
  cases v <;> simp [toDocument]

theorem string_toDocument_eq_ok_iff {s : String} :
    Decoder.string room v.toDocument = .ok s ↔ v = .str s := by
  cases v <;> simp [toDocument, Decoder.string]

theorem bool_toDocument_eq_ok_iff {b : Bool} :
    Decoder.bool room v.toDocument = .ok b ↔ v = .bool b := by
  cases v <;> simp [toDocument, Decoder.bool]

namespace Record.Holds

variable {names : List String} {members : List (String × Json)} {r : Record} {name : String}
  (h : Holds names room members r)
include h

theorem optional_string_iff (hname : name ∈ names) {o : Option String} :
    r.optional name string = .pure o ↔
      members.lookup name = o.map .str ∨ (members.lookup name = some .null ∧ o = none) := by
  rw [Record.optional, h.withDefault_iff hname]
  simp only [nullable_eq_ok_iff string_null, toDocument_eq_null_iff, string_toDocument_eq_ok_iff]
  cases members.lookup name <;> cases o <;> simp

theorem withDefault_bool_iff (hname : name ∈ names) {missing b : Bool} :
    r.withDefault name Decoder.bool missing = .pure b ↔
      members.lookup name = some (.bool b) ∨ (members.lookup name = none ∧ b = missing) := by
  rw [h.withDefault_iff hname]
  simp only [bool_toDocument_eq_ok_iff]
  cases members.lookup name <;> simp [eq_comm]

end Record.Holds

end Json

namespace Payload

variable {members : List (String × Json)} {d : Payload} {room : Nat}

/-! ### Reading -/

/-- The payload that an object with these members stands for. -/
structure Tells (members : List (String × Json)) (d : Payload) : Prop where
  name : members.lookup "name" = d.name.map .str ∨
    (members.lookup "name" = some .null ∧ d.name = none)
  locked : members.lookup "locked" = some (.bool d.locked) ∨
    (members.lookup "locked" = none ∧ d.locked = false)
  extra : d.extra = members.filter fun m => m.1 ∉ ["name", "locked"]

/-- An object that is a payload: a name, if there is one, is a text or `null`, and a lock, if there
is one, is a truth value. -/
structure Readable (members : List (String × Json)) : Prop where
  name : ∀ v, members.lookup "name" = some v → v = .null ∨ ∃ s, v = .str s
  locked : ∀ v, members.lookup "locked" = some v → ∃ b, v = .bool b

theorem exists_name_iff {o : Option Json} :
    (∃ name : Option String, o = name.map .str ∨ (o = some .null ∧ name = none)) ↔
      ∀ v, o = some v → v = .null ∨ ∃ s, v = .str s := by
  constructor
  · rintro ⟨name, rfl | ⟨rfl, rfl⟩⟩ v hv
    · obtain ⟨s, _, rfl⟩ := Option.map_eq_some_iff.mp hv
      exact .inr ⟨s, rfl⟩
    · exact .inl (Option.some.inj hv).symm
  · intro h
    cases o with
    | none => exact ⟨none, .inl rfl⟩
    | some v =>
        obtain rfl | ⟨s, rfl⟩ := h v rfl
        · exact ⟨none, .inr ⟨rfl, rfl⟩⟩
        · exact ⟨some s, .inl rfl⟩

theorem exists_locked_iff {o : Option Json} :
    (∃ locked, o = some (.bool locked) ∨ (o = none ∧ locked = false)) ↔
      ∀ v, o = some v → ∃ b, v = .bool b := by
  constructor
  · rintro ⟨locked, rfl | ⟨rfl, rfl⟩⟩ v hv
    · exact ⟨locked, (Option.some.inj hv).symm⟩
    · cases hv
  · intro h
    cases o with
    | none => exact ⟨false, .inr ⟨rfl, rfl⟩⟩
    | some v =>
        obtain ⟨b, rfl⟩ := h v rfl
        exact ⟨b, .inl rfl⟩

theorem exists_tells_iff : (∃ d, Tells members d) ↔ Readable members := by
  constructor
  · rintro ⟨d, h⟩
    exact ⟨exists_name_iff.mp ⟨_, h.name⟩, exists_locked_iff.mp ⟨_, h.locked⟩⟩
  · intro h
    obtain ⟨name, hname⟩ := exists_name_iff.mpr h.name
    obtain ⟨locked, hlocked⟩ := exists_locked_iff.mpr h.locked
    exact ⟨⟨name, locked, _⟩, hname, hlocked, rfl⟩

/-- What is understood of a payload has no depth. -/
theorem Tells.depth_eq_zero (h : Tells members d) (hkeys : (members.map Prod.fst).Nodup)
    {m : String × Json} (hm : m ∈ members) (hname : m.1 ∈ ["name", "locked"]) : m.2.depth = 0 := by
  obtain ⟨key, v⟩ := m
  have hv := (Keyed.mem_iff_lookup hkeys).mp hm
  have hreadable := exists_tells_iff.mp ⟨d, h⟩
  rcases List.mem_pair.mp hname with rfl | rfl
  · obtain rfl | ⟨s, rfl⟩ := hreadable.name v hv <;> rfl
  · obtain ⟨b, rfl⟩ := hreadable.locked v hv
    rfl

/-- An object is read as the payload that it stands for, if it is not too deep. -/
theorem decoder_eq_ok_iff (h : Canonical (.obj members)) :
    Payload.decoder room (Json.obj members).toDocument = .ok d ↔
      (Json.obj members).depth ≤ room ∧ Tells members d := by
  cases h with
  | obj hascending hcanonical =>
  cases room with
  | zero =>
      refine ⟨nofun, fun ⟨hdepth, _⟩ => ?_⟩
      simp [depth] at hdepth
  | succ room =>
      obtain ⟨r, hfind, hr⟩ := Record.exists_find_holds ["name", "locked"] room hascending.nodup
      have hname : ∀ o, r.optional "name" string = .pure o ↔ _ := fun o =>
        hr.optional_string_iff (List.mem_cons_self)
      have hlocked : ∀ b, r.withDefault "locked" Decoder.bool false = .pure b ↔ _ := fun b =>
        hr.withDefault_bool_iff (List.mem_cons_of_mem _ List.mem_cons_self)
      have hextra : ∀ kept, r.keepOthers = .pure kept ↔ _ := fun kept =>
        hr.keepOthers_eq_pure_iff fun m hm _ => hcanonical m hm
      rw [decoder_obj, record_eq_ok_iff, depth_obj_le_iff]
      simp only [hfind, Except.ok.injEq, exists_eq_left', hr.fault, true_and,
        Placed.seq_eq_pure_iff, Placed.map_eq_pure_iff, hname, hlocked, hextra]
      have hkept : Ascending (members.filter fun m => m.1 ∉ ["name", "locked"]) :=
        hascending.filter _
      constructor
      · rintro ⟨_, ⟨_, ⟨_, ⟨hdepth, rfl⟩, rfl⟩, name, hname, rfl⟩, locked, hlocked, rfl⟩
        have htells : Tells members ⟨name, locked, _⟩ :=
          ⟨hname, hlocked, sortMembers_eq_self hkept⟩
        refine ⟨⟨room, rfl, fun m hm => ?_⟩, htells⟩
        by_cases hfield : m.1 ∈ ["name", "locked"]
        · rw [htells.depth_eq_zero hascending.nodup hm hfield]
          exact Nat.zero_le _
        · exact hdepth m hm hfield
      · rintro ⟨⟨inner, hroom, hdepth⟩, h⟩
        obtain rfl := Nat.succ.inj hroom
        obtain ⟨name, locked, extra⟩ := d
        obtain rfl := h.extra
        exact ⟨_, ⟨_, ⟨_, ⟨fun m hm _ => hdepth m hm, rfl⟩, rfl⟩, name, h.name, rfl⟩, locked,
          h.locked, by rw [sortMembers_eq_self hkept]⟩

/-! ### Writing -/

theorem Tells.plain (h : Tells members d) (hcanonical : Canonical (.obj members)) : d.Plain := by
  cases hcanonical with
  | obj hascending hmembers =>
  have hkept : ∀ m ∈ d.extra, m ∈ members ∧ m.1 ∉ ["name", "locked"] := by
    intro m hm
    rw [h.extra] at hm
    simpa using List.mem_filter.mp hm
  refine ⟨?_, fun m hm => (hkept m hm).2, fun m hm => hmembers m (hkept m hm).1⟩
  rw [h.extra]
  exact hascending.filter _

/-- The members of an object without a name that is `null`. -/
def named (members : List (String × Json)) : List (String × Json) :=
  match members.lookup "name" with
  | some .null => members.filter fun m => m.1 ≠ "name"
  | _ => members

/-- The members of an object as a payload carries them: without a name that is `null`, and with a
lock that is off if there was none. -/
def carried (members : List (String × Json)) : List (String × Json) :=
  match members.lookup "locked" with
  | some _ => named members
  | none => set "locked" (.bool false) (named members)

theorem ascending_carried (h : Ascending members) : Ascending (carried members) := by
  have hnamed : Ascending (named members) := by
    rw [named]
    split
    · exact h.filter _
    · exact h
  rw [carried]
  split
  · exact hnamed
  · exact ascending_set hnamed

theorem lookup_named_of_ne {key : String} (hkey : key ≠ "name") :
    (named members).lookup key = members.lookup key := by
  rw [named]
  split
  · rw [Keyed.lookup_filter (fun k => k ≠ "name"), if_pos (by simpa using hkey)]
  · rfl

theorem Tells.lookup_named (h : Tells members d) :
    (named members).lookup "name" = d.name.map .str := by
  rcases h.name with hname | ⟨hnull, hnone⟩
  · rw [named]
    split
    · rename_i hnull
      obtain ⟨s, _, hs⟩ := Option.map_eq_some_iff.mp (hname.symm.trans hnull)
      cases hs
    · exact hname
  · rw [named, hnull, hnone]
    exact Keyed.lookup_filter (fun k => k ≠ "name") "name" members

theorem Tells.lookup_carried (h : Tells members d) (key : String) :
    (carried members).lookup key =
      if key = "locked" then some (.bool d.locked) else (named members).lookup key := by
  rw [carried]
  rcases h.locked with hlocked | ⟨hmissing, hoff⟩
  · rw [hlocked]
    dsimp only
    split
    · rename_i hkey
      rw [hkey, lookup_named_of_ne (by decide), hlocked]
    · rfl
  · rw [hmissing, hoff]
    exact lookup_set key

/-- A payload is written with what the object carries under each key. -/
theorem Tells.lookup_members (h : Tells members d) (key : String) :
    d.members.lookup key = (carried members).lookup key := by
  rw [h.lookup_carried, Payload.members, List.lookup_append, lookup_optionalMember,
    Keyed.lookup_cons_ite, h.extra, Keyed.lookup_filter (fun k => k ∉ ["name", "locked"])]
  by_cases hname : key = "name"
  · subst hname
    simp [h.lookup_named]
  · rw [if_neg hname, Option.none_or, lookup_named_of_ne hname]
    by_cases hlocked : key = "locked"
    · rw [if_pos hlocked, if_pos hlocked]
    · rw [if_neg hlocked, if_neg hlocked, if_pos (by simp [hname, hlocked])]

/-- Take an object as it is read from a text, with each key once and in order at every level. It is
decoded as a payload exactly if it is not deeper than there are levels left, its name, if it has
one, is a text or `null`, and its lock, if it has one, is a truth value. So with as many levels as
it has, an object is refused for its name or its lock only. The payload is then written as an object
with each key once that has, at every depth, the members that it was decoded from, but for a name
that was `null` and a lock that was missing. -/
theorem carries_through (members : List (String × Json)) (h : Canonical (.obj members))
    (room : Nat) :
    ((∃ d, Payload.decoder room (Json.obj members).toDocument = .ok d) ↔
        (Json.obj members).depth ≤ room ∧ Readable members) ∧
      ∀ d, Payload.decoder room (Json.obj members).toDocument = .ok d →
        ∃ written, d.toJson = .obj written ∧ (written.map Prod.fst).Nodup ∧
          sortMembers written = carried members := by
  simp only [decoder_eq_ok_iff h]
  refine ⟨?_, ?_⟩
  · rw [exists_and_left, exists_tells_iff]
  · rintro d ⟨_, htells⟩
    have hkeys : (d.members.map Prod.fst).Nodup := (htells.plain h).keys_nodup
    refine ⟨d.members, rfl, hkeys, ?_⟩
    cases h with
    | obj hascending _ =>
        refine (ascending_sortMembers _).ext (ascending_carried hascending) fun key => ?_
        rw [lookup_sortMembers hkeys, htells.lookup_members]

/-- A payload with a name that is `null`, without a lock, and with members that are not understood,
one of which has a name and a lock of its own. -/
def draft : List (String × Json) :=
  [("lock", .bool true), ("name", .null),
    ("params", .obj [("locked", .null), ("name", .null), ("tries", .arr [.str "ü", .obj []])])]

theorem carries_through_draft :
    Canonical (.obj draft) ∧ (Json.obj draft).depth = 4 ∧ Readable draft ∧
      ∃ d, Payload.decoder 4 (Json.obj draft).toDocument = .ok d ∧
        ∃ written, d.toJson = .obj written ∧ (written.map Prod.fst).Nodup ∧
          sortMembers written =
            [("lock", .bool true), ("locked", .bool false),
              ("params", .obj
                [("locked", .null), ("name", .null), ("tries", .arr [.str "ü", .obj []])])] := by
  have hcanonical : Canonical (.obj draft) := by
    refine .obj (by decide) fun m hm => ?_
    simp only [draft, List.mem_cons, List.not_mem_nil, or_false] at hm
    rcases hm with rfl | rfl | rfl
    · exact .bool true
    · exact .null
    · refine .obj (by decide) fun m hm => ?_
      simp only [List.mem_cons, List.not_mem_nil, or_false] at hm
      rcases hm with rfl | rfl | rfl
      · exact .null
      · exact .null
      · refine .arr fun v hv => ?_
        rcases List.mem_pair.mp hv with rfl | rfl
        · exact .str "ü"
        · exact .obj .nil nofun
  have hname : draft.lookup "name" = some .null := rfl
  have hlocked : draft.lookup "locked" = none := rfl
  have hreadable : Readable draft := by
    refine ⟨fun v hv => .inl ?_, fun v hv => ?_⟩
    · exact Option.some.inj (hv.symm.trans hname)
    · cases hlocked.symm.trans hv
  have hdepth : (Json.obj draft).depth = 4 := rfl
  obtain ⟨hread, hcarry⟩ := carries_through draft hcanonical 4
  obtain ⟨d, hd⟩ := hread.mpr ⟨hdepth.le, hreadable⟩
  exact ⟨hcanonical, hdepth, hreadable, d, hd, hcarry d hd⟩

end Payload

end WorkflowCanvas
