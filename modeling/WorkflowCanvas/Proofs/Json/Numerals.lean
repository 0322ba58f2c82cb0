import Mathlib.Data.List.TakeDrop
import Mathlib.Data.List.TakeWhile
import Mathlib.Tactic.IntervalCases
import WorkflowCanvas.Json.Numeral
import WorkflowCanvas.Json.Printer

/-!
Numerals inside a text, and the numbers that are read back from them.

The reader splits a numeral off a text that goes on behind it. What goes on is the end of an item or
of a member, and no part of a numeral starts like that, so each step of the split gives what it
gives for the numeral alone. Therefore it is enough to know what the text of a number stands for by
itself. The text of a whole number stands for that number.
-/

namespace WorkflowCanvas.Json

/-- What may follow a value: nothing, or the end of an item or of a member. -/
inductive Follows : List Char → Prop
  | nothing : Follows []
  | comma (rest : List Char) : Follows (',' :: rest)
  | bracket (rest : List Char) : Follows (']' :: rest)
  | brace (rest : List Char) : Follows ('}' :: rest)

variable {cs rest : List Char}

/-! ### Splitting a longer text -/

theorem Follows.span_isDigit (h : Follows rest) (cs : List Char) :
    (cs ++ rest).span Char.isDigit =
      ((cs.span Char.isDigit).1, (cs.span Char.isDigit).2 ++ rest) := by
  simp only [List.span_eq_takeWhile_dropWhile]
  induction cs with
  | nil => cases h <;> rfl
  | cons c cs ih =>
      obtain ⟨htake, hdrop⟩ := Prod.mk.inj ih
      by_cases hc : c.isDigit = true
      · simp only [List.cons_append, List.takeWhile_cons_of_pos hc, List.dropWhile_cons_of_pos hc,
          htake, hdrop]
      · simp only [List.cons_append, List.takeWhile_cons_of_neg hc, List.dropWhile_cons_of_neg hc]

/-- What a step of the reader gives, with more text behind it. -/
def followed {α : Type} (rest : List Char) : Option (α × List Char) → Option (α × List Char) :=
  Option.map fun (a, after) => (a, after ++ rest)

theorem splitWhole?_append (h : Follows rest) (cs : List Char) :
    splitWhole? (cs ++ rest) = followed rest (splitWhole? cs) := by
  rw [splitWhole?, splitWhole?, h.span_isDigit]
  rcases cs.span Char.isDigit with ⟨_ | ⟨c, digits⟩, after⟩
  · rfl
  · by_cases hc : c = '0'
    · subst hc
      cases digits <;> rfl
    · simp [followed, hc]

theorem splitFraction?_append (h : Follows rest) (cs : List Char) :
    splitFraction? (cs ++ rest) = followed rest (splitFraction? cs) := by
  rcases cs with _ | ⟨c, cs⟩
  · cases h <;> rfl
  by_cases hc : c = '.'
  · subst hc
    rw [List.cons_append, splitFraction?, splitFraction?, h.span_isDigit]
    rcases cs.span Char.isDigit with ⟨_ | _, _⟩ <;> rfl
  · simp [splitFraction?, hc, followed]

/-- The exponent behind its sign. -/
def splitDigits? (negative : Bool) (cs : List Char) : Option (Int × List Char) :=
  match cs.span Char.isDigit with
  | ([], _) => none
  | (digits, rest) =>
    some (if negative then -(digitsValue digits : Int) else digitsValue digits, rest)

theorem splitSigned?_of_ne {c : Char} (hminus : c ≠ '-') (hplus : c ≠ '+') (cs : List Char) :
    splitSigned? (c :: cs) = splitDigits? false (c :: cs) := by
  simp only [splitSigned?, List.cons.injEq, hminus, hplus, false_and, imp_false, not_false_eq_true,
    implies_true]
  rfl

theorem splitDigits?_append (negative : Bool) (h : Follows rest) (cs : List Char) :
    splitDigits? negative (cs ++ rest) = followed rest (splitDigits? negative cs) := by
  rw [splitDigits?, splitDigits?, h.span_isDigit]
  rcases cs.span Char.isDigit with ⟨_ | _, _⟩ <;> rfl

theorem splitSigned?_append (h : Follows rest) (cs : List Char) :
    splitSigned? (cs ++ rest) = followed rest (splitSigned? cs) := by
  rcases cs with _ | ⟨c, cs⟩
  · cases h <;> rfl
  by_cases hsign : c = '-' ∨ c = '+'
  · rcases hsign with rfl | rfl
    · exact splitDigits?_append true h cs
    · exact splitDigits?_append false h cs
  · obtain ⟨hminus, hplus⟩ := not_or.mp hsign
    rw [List.cons_append, splitSigned?_of_ne hminus hplus, splitSigned?_of_ne hminus hplus]
    exact splitDigits?_append false h (c :: cs)

theorem splitExponent?_append (h : Follows rest) (cs : List Char) :
    splitExponent? (cs ++ rest) = followed rest (splitExponent? cs) := by
  rcases cs with _ | ⟨c, cs⟩
  · cases h <;> rfl
  by_cases he : c = 'e' ∨ c = 'E'
  · rcases he with rfl | rfl
    all_goals
      rw [List.cons_append, splitExponent?, splitExponent?, splitSigned?_append h]
      simp only [followed, Option.map_map]
      rfl
  · obtain ⟨hlower, hupper⟩ := not_or.mp he
    simp [splitExponent?, hlower, hupper, followed]

/-- A numeral behind its sign. -/
def splitUnsigned? (negative : Bool) (cs : List Char) : Option (Numeral × List Char) := do
  let (whole, cs) ← splitWhole? cs
  let (fraction, cs) ← splitFraction? cs
  let (exponent, cs) ← splitExponent? cs
  let size : Decimal := ⟨digitsValue (whole ++ fraction), exponent.getD 0 - fraction.length⟩
  some (⟨negative, fraction.isEmpty && exponent.isNone, size⟩, cs)

theorem split?_of_ne {c : Char} (h : c ≠ '-') (cs : List Char) :
    Numeral.split? (c :: cs) = splitUnsigned? false (c :: cs) := by
  simp [Numeral.split?, splitUnsigned?, h]

theorem bind_followed {α β : Type} {f : α × List Char → Option (β × List Char)}
    (hf : ∀ a cs, f (a, cs ++ rest) = followed rest (f (a, cs))) (found : Option (α × List Char)) :
    (followed rest found).bind f = followed rest (found.bind f) := by
  cases found with
  | none => rfl
  | some result => exact hf result.1 result.2

theorem splitUnsigned?_append (negative : Bool) (h : Follows rest) (cs : List Char) :
    splitUnsigned? negative (cs ++ rest) = followed rest (splitUnsigned? negative cs) := by
  rw [splitUnsigned?, splitUnsigned?, splitWhole?_append h]
  refine bind_followed (fun whole cs => ?_) _
  dsimp only
  rw [splitFraction?_append h]
  refine bind_followed (fun fraction cs => ?_) _
  dsimp only
  rw [splitExponent?_append h]
  exact bind_followed (fun _ _ => rfl) _

theorem split?_append (h : Follows rest) (cs : List Char) :
    Numeral.split? (cs ++ rest) = followed rest (Numeral.split? cs) := by
  rcases cs with _ | ⟨c, cs⟩
  · cases h <;> rfl
  by_cases hc : c = '-'
  · subst hc
    exact splitUnsigned?_append true h cs
  · rw [List.cons_append, split?_of_ne hc, split?_of_ne hc]
    exact splitUnsigned?_append false h (c :: cs)

/-- A numeral starts with a minus sign or a digit, and with no other character. -/
theorem ne_of_split? {n : Numeral} {c first : Char}
    (h : Numeral.split? (c :: cs) = some (n, rest)) (hfirst : ¬ (first = '-' ∨ first.isDigit)) :
    c ≠ first := by
  rintro rfl
  obtain ⟨hsign, hdigit⟩ := not_or.mp hfirst
  rw [split?_of_ne hsign, splitUnsigned?, splitWhole?, List.span_eq_takeWhile_dropWhile,
    List.takeWhile_cons_of_neg hdigit] at h
  cases h

/-! ### Whole numbers -/

theorem exists_toDigits_of_pos {n : Nat} (h : 0 < n) :
    ∃ c cs, Nat.toDigits 10 n = c :: cs ∧ c ≠ '0' := by
  induction n using Nat.strong_induction_on with
  | _ n ih =>
      by_cases hlt : n < 10
      · refine ⟨n.digitChar, [], Nat.toDigits_of_lt_base hlt, ?_⟩
        interval_cases n <;> decide
      · obtain ⟨c, cs, heq, hc⟩ := ih (n / 10) (by omega) (by omega)
        rw [Nat.toDigits_of_base_le (by decide) (Nat.not_lt.mp hlt), heq]
        exact ⟨c, _, rfl, hc⟩

theorem splitWhole?_toDigits (n : Nat) :
    splitWhole? (Nat.toDigits 10 n) = some (Nat.toDigits 10 n, []) := by
  have hdigit : ∀ c ∈ Nat.toDigits 10 n, c.isDigit = true := fun c hc =>
    Nat.isDigit_of_mem_toDigits (by decide) (by decide) hc
  have hspan : (Nat.toDigits 10 n).span Char.isDigit = (Nat.toDigits 10 n, []) := by
    rw [List.span_eq_takeWhile_dropWhile, List.takeWhile_eq_self_iff.mpr hdigit,
      List.dropWhile_eq_nil_iff.mpr hdigit]
  rw [splitWhole?, hspan]
  by_cases hn : n = 0
  · subst hn
    rfl
  · obtain ⟨c, cs, heq, hc⟩ := exists_toDigits_of_pos (Nat.pos_of_ne_zero hn)
    simp [heq, hc]

theorem digitsValue_toDigits (n : Nat) : digitsValue (Nat.toDigits 10 n) = n := by
  rw [digitsValue, ← Nat.ofDigitChars_eq_foldl, Nat.ofDigitChars_ten_toDigits]

theorem splitUnsigned?_toDigits (negative : Bool) (n : Nat) :
    splitUnsigned? negative (Nat.toDigits 10 n) = some (⟨negative, true, ⟨n, 0⟩⟩, []) := by
  rw [splitUnsigned?, splitWhole?_toDigits]
  simp [splitFraction?, splitExponent?, digitsValue_toDigits]

/-- The number that a text stands for that is nothing but a numeral. -/
def Number.read? (cs : List Char) : Option Number :=
  match Numeral.split? cs with
  | some (n, []) => n.number?
  | _ => none

/-- The text of the number stands for the number. -/
def Number.Rereads (n : Number) : Prop := Number.read? n.render = some n

instance (n : Number) : Decidable n.Rereads := inferInstanceAs (Decidable (_ = _))

theorem rereads_whole (n : Int) (fits : Fits n) : (Number.whole n fits).Rereads := by
  rw [Number.Rereads, Number.render, Int.repr_eq_if]
  split
  · rename_i hn
    obtain ⟨m, rfl⟩ := Int.eq_ofNat_of_zero_le hn
    have hsplit : Numeral.split? (Nat.toDigits 10 m) = some (⟨false, true, ⟨m, 0⟩⟩, []) := by
      obtain ⟨c, cs, heq⟩ := List.exists_cons_of_ne_nil (Nat.toDigits_ne_nil (n := m) (b := 10))
      have hdigit : c.isDigit = true :=
        Nat.isDigit_of_mem_toDigits (by decide : 0 < 10) (by decide) (heq ▸ List.mem_cons_self)
      have hc : c ≠ '-' := by
        rintro rfl
        cases hdigit
      rw [heq, split?_of_ne hc, ← heq, splitUnsigned?_toDigits]
    simp [Number.read?, Nat.repr_eq_ofList_toDigits, hsplit, Numeral.number?, fits]
  · rename_i hn
    obtain ⟨m, rfl⟩ := Int.exists_eq_neg_ofNat (Int.not_le.mp hn).le
    have hpos : m ≠ 0 := by
      rintro rfl
      exact hn (by decide)
    have hsplit : Numeral.split? ('-' :: Nat.toDigits 10 m) =
        some (⟨true, true, ⟨m, 0⟩⟩, []) := splitUnsigned?_toDigits true m
    simp [Number.read?, Nat.repr_eq_ofList_toDigits, hsplit, Numeral.number?, hpos, fits]

end WorkflowCanvas.Json
