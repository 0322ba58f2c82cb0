/-!
Steps that can fail, lists of values with keys, and the sizes of texts.

A sequence of steps succeeds if each of its steps does, and otherwise fails as the first step that
fails. Stated once, this spares every run of such steps its own case split.

In a list of values with keys, what counts is what is found first under a key. If no key comes
twice, that is all there is.

The size of a text is that of its UTF-8 octets, and not the number of its characters.
-/

namespace WorkflowCanvas.Outcome

variable {ε α β : Type} {x : Except ε α}

theorem bind_eq_ok_iff {f : α → Except ε β} {b : β} :
    x >>= f = .ok b ↔ ∃ a, x = .ok a ∧ f a = .ok b := by
  cases x <;> simp [bind, Except.bind]

theorem bind_eq_error_iff {f : α → Except ε β} {e : ε} :
    x >>= f = .error e ↔ x = .error e ∨ ∃ a, x = .ok a ∧ f a = .error e := by
  cases x <;> simp [bind, Except.bind]

theorem map_eq_ok_iff {f : α → β} {b : β} : x.map f = .ok b ↔ ∃ a, x = .ok a ∧ f a = b := by
  cases x <;> simp [Except.map]

end WorkflowCanvas.Outcome

namespace WorkflowCanvas.Keyed

variable {β : Type} {entries : List (String × β)}

theorem lookup_cons_ite (key k : String) (b : β) (rest : List (String × β)) :
    ((k, b) :: rest).lookup key = if key = k then some b else rest.lookup key := by
  by_cases h : key = k
  · simp [h]
  · rw [List.lookup_cons, beq_eq_false_iff_ne.mpr h, if_neg h]

/-- Choosing entries by their keys leaves either all or nothing under a key. -/
theorem lookup_filter (p : String → Bool) (key : String) (entries : List (String × β)) :
    (entries.filter fun e => p e.1).lookup key = if p key then entries.lookup key else none := by
  induction entries with
  | nil => simp
  | cons e rest ih =>
      obtain ⟨k, b⟩ := e
      rw [lookup_cons_ite, List.filter_cons]
      by_cases hkey : key = k
      · subst hkey
        cases hp : p key with
        | true => simp
        | false => simpa [hp] using ih
      · rw [if_neg hkey, ← ih]
        split
        · rw [lookup_cons_ite, if_neg hkey]
        · rfl

theorem lookup_eq_none {key : String} (h : key ∉ entries.map Prod.fst) :
    entries.lookup key = none := by
  refine List.lookup_eq_none_iff.mpr fun e he => bne_iff_ne.mpr ?_
  rintro rfl
  exact h (List.mem_map_of_mem he)

/-- Where no key comes twice, an entry is what is found under its key. -/
theorem mem_iff_lookup (h : (entries.map Prod.fst).Nodup) {key : String} {b : β} :
    (key, b) ∈ entries ↔ entries.lookup key = some b := by
  induction entries with
  | nil => simp
  | cons first rest ih =>
      obtain ⟨k, b'⟩ := first
      obtain ⟨hfirst, hrest⟩ : k ∉ rest.map Prod.fst ∧ (rest.map Prod.fst).Nodup :=
        List.nodup_cons.mp h
      rw [List.mem_cons, lookup_cons_ite, ih hrest]
      by_cases hkey : key = k
      · subst hkey
        simp [lookup_eq_none hfirst, eq_comm]
      · simp [hkey]

end WorkflowCanvas.Keyed

namespace WorkflowCanvas.Text

/-- Every character takes from one to four octets. -/
theorem utf8ByteSize_bounds (cs : List Char) :
    cs.length ≤ (String.ofList cs).utf8ByteSize ∧
      (String.ofList cs).utf8ByteSize ≤ 4 * cs.length := by
  induction cs with
  | nil => exact ⟨Nat.le_refl _, Nat.le_refl _⟩
  | cons c cs ih =>
      rw [String.ofList_cons, String.utf8ByteSize_append, String.utf8ByteSize_singleton,
        List.length_cons]
      have hleast : 0 < c.utf8Size := c.utf8Size_pos
      have hmost : c.utf8Size ≤ 4 := c.utf8Size_le_four
      omega

end WorkflowCanvas.Text
