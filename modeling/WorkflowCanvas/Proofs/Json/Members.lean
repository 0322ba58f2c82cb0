import Mathlib.Data.List.Nodup
import WorkflowCanvas.Proofs.Json.Keeping
import WorkflowCanvas.Proofs.Basic

/-!
The members of an object as a map from keys to values.

A value in memory lists its members in the order of their keys, so two objects are the same value if
they hold the same under every key. A member that is set, and members that are put in order, are
described by what is then found under each key.
-/

namespace WorkflowCanvas.Json

variable {members members' : List (String × Json)} {key : String} {v : Json}

theorem lookup_set (k : String) :
    (set key v members).lookup k = if k = key then some v else members.lookup k := by
  induction members with
  | nil => rw [set, Keyed.lookup_cons_ite]
  | cons first rest ih =>
      obtain ⟨k', v'⟩ := first
      rw [set]
      split
      · rw [Keyed.lookup_cons_ite]
      split
      · rename_i heq
        rw [Keyed.lookup_cons_ite, Keyed.lookup_cons_ite, ← heq]
        split <;> rfl
      · rename_i hne
        rw [Keyed.lookup_cons_ite, Keyed.lookup_cons_ite, ih]
        by_cases hk : k = k'
        · rw [if_pos hk, if_neg (hk ▸ Ne.symm hne), if_pos hk]
        · rw [if_neg hk, if_neg hk]

/-- Putting members in order keeps what is found under each key, if none comes twice. -/
theorem lookup_sortMembers (h : (members.map Prod.fst).Nodup) (k : String) :
    (sortMembers members).lookup k = members.lookup k := by
  have hsort : ∀ sorted, (members.foldl (fun sorted m => set m.1 m.2 sorted) sorted).lookup k =
      (members.lookup k).or (sorted.lookup k) := by
    induction members with
    | nil => simp
    | cons m rest ih =>
        intro sorted
        obtain ⟨k', v⟩ := m
        obtain ⟨hfirst, hrest⟩ : k' ∉ rest.map Prod.fst ∧ (rest.map Prod.fst).Nodup :=
          List.nodup_cons.mp h
        rw [List.foldl_cons, ih hrest, lookup_set, Keyed.lookup_cons_ite]
        by_cases hk : k = k'
        · subst hk
          have hnone : rest.lookup k = none := Keyed.lookup_eq_none hfirst
          simp [hnone]
        · rw [if_neg hk, if_neg hk]
  rw [sortMembers, hsort, List.lookup_nil, Option.or_none]

/-- Members in order are given by what is found under each key. -/
theorem Ascending.ext (h : Ascending members) (h' : Ascending members')
    (hlookup : ∀ k, members.lookup k = members'.lookup k) : members = members' := by
  have hmem : ∀ m, m ∈ members ↔ m ∈ members' := by
    rintro ⟨k, v⟩
    rw [Keyed.mem_iff_lookup h.nodup, Keyed.mem_iff_lookup h'.nodup, hlookup]
  have hperm : members.Perm members' :=
    (List.perm_ext_iff_of_nodup (.of_map _ h.nodup) (.of_map _ h'.nodup)).mpr hmem
  refine hperm.eq_of_pairwise ?_ h h'
  intro m m' _ _ hlt hgt
  exact absurd hgt (String.lt_asymm hlt)

end WorkflowCanvas.Json
