import WorkflowCanvas.Json.Reader
import WorkflowCanvas.Proofs.Json.Numerals
import WorkflowCanvas.Proofs.Json.Structure

/-!
Reading back the text of a value.

The text is read as what spells out the value, and with whatever may follow it left over. That is
proved along the structure of values, for every bound on the recursion of the reader that is at
least twice the length of the text. All that it needs to know of the numbers in the value is that
their own texts stand for them.
-/

namespace WorkflowCanvas.Json

variable {cs rest : List Char}

/-! ### Strings -/

theorem unit?_of_lt {n : Nat} (h : n < 0x20) :
    unit? '0' '0' (Nat.digitChar (n / 16)) (Nat.digitChar (n % 16)) = some n := by
  revert n
  decide

theorem readString_escapeChar (read : List Char) (c : Char) (rest : List Char) :
    readString (some read) (escapeChar c ++ rest) = readString (some (c :: read)) rest := by
  by_cases hshort : c ∈ ['"', '\\', '\x08', '\t', '\n', '\x0c', '\r']
  · simp only [List.mem_cons, List.not_mem_nil, or_false] at hshort
    rcases hshort with rfl | rfl | rfl | rfl | rfl | rfl | rfl <;> rfl
  · simp only [List.mem_cons, List.not_mem_nil, or_false, not_or] at hshort
    obtain ⟨hquote, hslash, hb, ht, hn, hf, hr⟩ := hshort
    rw [escapeChar, if_neg hquote, if_neg hslash, if_neg hb, if_neg ht, if_neg hn, if_neg hf,
      if_neg hr]
    split
    · rename_i hlow
      have hunit : isLowSurrogate c.toNat = false ∧ isHighSurrogate c.toNat = false := by
        simp [isLowSurrogate, isHighSurrogate]
        omega
      change readString (some read) ('\\' :: 'u' :: '0' :: '0' :: Nat.digitChar (c.toNat / 16) ::
        Nat.digitChar (c.toNat % 16) :: rest) = _
      rw [readString, unit?_of_lt hlow]
      simp only [hunit, Bool.false_eq_true, if_false, Option.map_some, Char.ofNat_toNat]
    · rename_i hlow
      simp [readString, hslash, hlow]

theorem readString_flatMap (read cs : List Char) (rest : List Char) :
    readString (some read) (cs.flatMap escapeChar ++ '"' :: rest) =
      some (some (String.ofList (read.reverse ++ cs)), rest) := by
  induction cs generalizing read with
  | nil => simp [readString]
  | cons c cs ih =>
      rw [List.flatMap_cons, List.append_assoc, readString_escapeChar, ih, List.reverse_cons,
        List.append_assoc]
      rfl

theorem readValue_renderString (fuel : Nat) (s : String) (rest : List Char) :
    readValue (fuel + 1) (renderString s ++ rest) = (.str (some s), rest) := by
  have hread : readString (some []) (s.toList.flatMap escapeChar ++ '"' :: rest) =
      some (some s, rest) := by
    simpa using readString_flatMap [] s.toList rest
  simp [readValue, renderString, skipSpace, isSpace, hread]

/-! ### Values -/

/-- Whether the reader finds a value where its text is. -/
def Reads (v : Json) : Prop :=
  ∀ fuel rest, 2 * (chars v).length ≤ fuel → Follows rest →
    readValue fuel (chars v ++ rest) = (v.toDocument, rest)

theorem reads_of_succ {v : Json} (hne : chars v ≠ [])
    (h : ∀ fuel rest, 2 * (chars v).length ≤ fuel + 1 → Follows rest →
      readValue (fuel + 1) (chars v ++ rest) = (v.toDocument, rest)) : Reads v := by
  intro fuel rest hfuel hrest
  have hpos := List.length_pos_iff.mpr hne
  obtain ⟨fuel, rfl⟩ := Nat.exists_eq_succ_of_ne_zero (show fuel ≠ 0 by omega)
  exact h fuel rest hfuel hrest

theorem skipSpace_cons {c : Char} (h : isSpace c = false) (cs : List Char) :
    skipSpace (c :: cs) = c :: cs := by
  rw [skipSpace, List.dropWhile_cons_of_neg (by simp [h])]

theorem readValue_of_split? {n : Numeral} (fuel : Nat) (h : Numeral.split? cs = some (n, rest)) :
    readValue (fuel + 1) cs = (.num n.number?, rest) := by
  rcases cs with _ | ⟨c, cs⟩
  · cases h
  have hstart := fun first => @ne_of_split? _ _ _ _ first h
  have hskip := skipSpace_cons (c := c) (by simp [isSpace, hstart]) cs
  simp [readValue, hskip, hstart, h]

theorem readValue_bracket {c : Char} {after : List Char} (hcs : cs = c :: after)
    (hspace : isSpace c = false) (hend : c ≠ ']') (fuel : Nat) :
    readValue (fuel + 1) ('[' :: cs) = (.arr (readItems fuel cs).1, (readItems fuel cs).2) := by
  subst hcs
  have hskip : skipSpace ('[' :: c :: after) = '[' :: c :: after := rfl
  simp [readValue, hskip, skipSpace_cons hspace, hend]

theorem readValue_brace {c : Char} {after : List Char} (hcs : cs = c :: after)
    (hspace : isSpace c = false) (hend : c ≠ '}') (fuel : Nat) :
    readValue (fuel + 1) ('{' :: cs) =
      (.obj (readMembers fuel cs).1, (readMembers fuel cs).2) := by
  subst hcs
  have hskip : skipSpace ('{' :: c :: after) = '{' :: c :: after := rfl
  simp [readValue, hskip, skipSpace_cons hspace, hend]

theorem exists_split?_of_rereads {n : Number} (h : n.Rereads) :
    ∃ m : Numeral, Numeral.split? n.render = some (m, []) ∧ m.number? = some n := by
  rw [Number.Rereads, Number.read?] at h
  split at h
  · rename_i m hsplit
    exact ⟨m, hsplit, h⟩
  · cases h

theorem reads_num {n : Number} (h : n.Rereads) : Reads (.num n) := by
  obtain ⟨m, hsplit, hnumber⟩ := exists_split?_of_rereads h
  refine reads_of_succ ?_ fun fuel rest _ hrest => ?_
  · rintro hnil
    rw [chars] at hnil
    rw [hnil] at hsplit
    cases hsplit
  · have hfollowed : Numeral.split? (n.render ++ rest) = some (m, rest) := by
      rw [split?_append hrest, hsplit]
      rfl
    rw [chars, readValue_of_split? fuel hfollowed, hnumber, toDocument]

/-- The character at the front of a value is no space and ends nothing. -/
theorem exists_chars {v : Json} (h : ∀ n ∈ v.numbers, n.Rereads) :
    ∃ c cs, chars v = c :: cs ∧ isSpace c = false ∧ c ≠ ']' := by
  cases v with
  | null => exact ⟨'n', _, rfl, rfl, by decide⟩
  | bool b => cases b <;> exact ⟨_, _, rfl, rfl, by decide⟩
  | num n =>
      obtain ⟨m, hsplit, _⟩ := exists_split?_of_rereads (h n (by simp [numbers]))
      cases hrender : n.render with
      | nil =>
          rw [hrender] at hsplit
          cases hsplit
      | cons c cs =>
          have hstart := fun first => @ne_of_split? _ _ _ _ first (hrender ▸ hsplit)
          exact ⟨c, cs, by rw [chars, hrender], by simp [isSpace, hstart], hstart _ (by decide)⟩
  | str s => exact ⟨'"', _, rfl, rfl, by decide⟩
  | arr items => cases items <;> exact ⟨'[', _, rfl, rfl, by decide⟩
  | obj members => cases members <;> exact ⟨'{', _, rfl, rfl, by decide⟩

/-- The reader finds an item, and then the end of the list or what the other items are. -/
theorem readItems_item {v : Json} {fuel : Nat} (hv : Reads v)
    (hfuel : 2 * (chars v).length ≤ fuel) (rest : List Char) :
    readItems (fuel + 1) (chars v ++ ']' :: rest) = (.more v.toDocument .closed, rest) ∧
      readItems (fuel + 1) (chars v ++ ',' :: rest) =
        (.more v.toDocument (readItems fuel rest).1, (readItems fuel rest).2) := by
  constructor
  · rw [readItems, hv fuel _ hfuel (.bracket rest)]
    rfl
  · rw [readItems, hv fuel _ hfuel (.comma rest)]
    rfl

/-- The reader finds a member, and then the end of the object or what the other members are. -/
theorem readMembers_member {m : String × Json} {fuel : Nat} (hm : Reads m.2)
    (hfuel : 2 * (memberChars m).length ≤ fuel) (rest : List Char) :
    readMembers (fuel + 1) (memberChars m ++ '}' :: rest) =
        (.more (.str (some m.1)) (memberToDocument m) .closed, rest) ∧
      readMembers (fuel + 1) (memberChars m ++ ',' :: rest) =
        (.more (.str (some m.1)) (memberToDocument m) (readMembers fuel rest).1,
          (readMembers fuel rest).2) := by
  obtain ⟨key, v⟩ := m
  rw [memberChars, List.length_append, List.length_cons] at hfuel
  obtain ⟨fuel, rfl⟩ := Nat.exists_eq_succ_of_ne_zero (show fuel ≠ 0 by omega)
  have hv : ∀ cs, Follows cs → readValue (fuel + 1) (chars v ++ cs) = (v.toDocument, cs) :=
    fun cs hcs => hm (fuel + 1) cs (by dsimp only; omega) hcs
  have hskip : ∀ cs, skipSpace (':' :: chars v ++ cs) = ':' :: (chars v ++ cs) := fun _ => rfl
  constructor
  · rw [readMembers, memberChars, List.append_assoc, readValue_renderString]
    dsimp only
    rw [hskip]
    simp only [hv _ (.brace rest)]
    rfl
  · rw [readMembers, memberChars, List.append_assoc, readValue_renderString]
    dsimp only
    rw [hskip]
    simp only [hv _ (.comma rest)]
    rfl

/-- The reader finds the items of a list if it finds each of them. -/
theorem readItems_of_reads {v : Json} {items : List Json} (h : ∀ v' ∈ v :: items, Reads v')
    (fuel : Nat) (rest : List Char) (hfuel : 2 * (chars v ++ itemChars items).length ≤ fuel) :
    readItems fuel (chars v ++ itemChars items ++ rest) = (toItems (v :: items), rest) := by
  have hv := h v List.mem_cons_self
  rw [List.append_assoc]
  induction items generalizing v fuel with
  | nil =>
      rw [List.length_append, itemChars, List.length_singleton] at hfuel
      obtain ⟨fuel, rfl⟩ := Nat.exists_eq_succ_of_ne_zero (show fuel ≠ 0 by omega)
      exact (readItems_item hv (by omega) rest).1
  | cons v' items ih =>
      rw [List.length_append, itemChars, List.length_cons] at hfuel
      obtain ⟨fuel, rfl⟩ := Nat.exists_eq_succ_of_ne_zero (show fuel ≠ 0 by omega)
      have hitems := fun v hv => h v (List.mem_cons_of_mem _ hv)
      have hrest := ih hitems fuel (by omega) (hitems v' List.mem_cons_self)
      rw [itemChars, List.cons_append, List.append_assoc, (readItems_item hv (by omega) _).2, hrest]
      rfl

/-- The reader finds the members of an object if it finds the value of each of them. -/
theorem readMembers_of_reads {m : String × Json} {members : List (String × Json)}
    (h : ∀ m' ∈ m :: members, Reads m'.2) (fuel : Nat) (rest : List Char)
    (hfuel : 2 * (memberChars m ++ memberListChars members).length ≤ fuel) :
    readMembers fuel (memberChars m ++ memberListChars members ++ rest) =
      (toMembers (m :: members), rest) := by
  have hm := h m List.mem_cons_self
  rw [List.append_assoc]
  induction members generalizing m fuel with
  | nil =>
      rw [List.length_append, memberListChars, List.length_singleton] at hfuel
      obtain ⟨fuel, rfl⟩ := Nat.exists_eq_succ_of_ne_zero (show fuel ≠ 0 by omega)
      exact (readMembers_member hm (by omega) rest).1
  | cons m' members ih =>
      rw [List.length_append, memberListChars, List.length_cons] at hfuel
      obtain ⟨fuel, rfl⟩ := Nat.exists_eq_succ_of_ne_zero (show fuel ≠ 0 by omega)
      have hmembers := fun m hm => h m (List.mem_cons_of_mem _ hm)
      have hrest := ih hmembers fuel (by omega) (hmembers m' List.mem_cons_self)
      rw [memberListChars, List.cons_append, List.append_assoc,
        (readMembers_member hm (by omega) _).2, hrest]
      rfl

/-- The reader finds every value whose numbers reread. -/
theorem reads_of_rereads (v : Json) (h : ∀ n ∈ v.numbers, n.Rereads) : Reads v := by
  induction v using induct with
  | null => exact reads_of_succ (by simp [chars]) fun _ _ _ _ => rfl
  | bool b => cases b <;> exact reads_of_succ (by simp [chars]) fun _ _ _ _ => rfl
  | str s =>
      exact reads_of_succ (by simp [chars, renderString]) fun fuel rest _ _ =>
        readValue_renderString fuel s rest
  | num n => exact reads_num (h n (by simp [numbers]))
  | arr items ih =>
      rcases items with _ | ⟨v, items⟩
      · exact reads_of_succ (by simp [chars]) fun _ _ _ _ => rfl
      · have hnumbers : ∀ v' ∈ v :: items, ∀ n ∈ v'.numbers, n.Rereads :=
          fun v' hv' n hn => h n (mem_itemNumbers.mpr ⟨v', hv', hn⟩)
        obtain ⟨c, cs, hstart, hspace, hend⟩ := exists_chars (hnumbers v List.mem_cons_self)
        refine reads_of_succ (by simp [chars]) fun fuel rest hfuel _ => ?_
        rw [chars, List.length_cons] at hfuel
        have hread := readItems_of_reads (fun v' hv' => ih v' hv' (hnumbers v' hv')) fuel rest
          (by omega)
        rw [chars, List.cons_append, readValue_bracket (by rw [hstart]; rfl) hspace hend, hread]
        rfl
  | obj members ih =>
      rcases members with _ | ⟨m, members⟩
      · exact reads_of_succ (by simp [chars]) fun _ _ _ _ => rfl
      · have hnumbers : ∀ m' ∈ m :: members, ∀ n ∈ m'.2.numbers, n.Rereads :=
          fun m' hm' n hn => h n (mem_memberListNumbers.mpr ⟨m', hm', hn⟩)
        refine reads_of_succ (by simp [chars]) fun fuel rest hfuel _ => ?_
        rw [chars, List.length_cons] at hfuel
        have hread := readMembers_of_reads (fun m' hm' => ih m' hm' (hnumbers m' hm')) fuel rest
          (by omega)
        obtain ⟨key, v⟩ := m
        have hstart : ∃ after,
            memberChars (key, v) ++ memberListChars members ++ rest = '"' :: after := ⟨_, rfl⟩
        obtain ⟨after, hstart⟩ := hstart
        rw [chars, List.cons_append, readValue_brace hstart rfl (by decide), hread]
        rfl

/-! ### Texts -/

theorem readValue_append_space {front : List Char} (h : ∀ c ∈ front, isSpace c = true)
    (fuel : Nat) (cs : List Char) : readValue fuel (front ++ cs) = readValue fuel cs := by
  have hskip : skipSpace (front ++ cs) = skipSpace cs := List.dropWhile_append_of_pos h
  cases fuel with
  | zero => rfl
  | succ fuel => rw [readValue, readValue, hskip]

/-- The text of a value whose numbers reread is read in full, as what spells out the value. Space in
front of it makes no difference. -/
theorem readDocument_append_space {front : List Char} (hspace : ∀ c ∈ front, isSpace c = true)
    (v : Json) (h : ∀ n ∈ v.numbers, n.Rereads) :
    readDocument (String.ofList front ++ render v) = (v.toDocument, true) := by
  have hread := reads_of_rereads v h (2 * (front ++ chars v).length + 2) []
    (by rw [List.length_append]; omega) .nothing
  rw [List.append_nil] at hread
  rw [readDocument, String.toList_append, render, String.toList_ofList, String.toList_ofList]
  dsimp only
  rw [readValue_append_space hspace, hread]
  rfl

theorem readDocument_render (v : Json) (h : ∀ n ∈ v.numbers, n.Rereads) :
    readDocument (render v) = (v.toDocument, true) := by
  have hspace : ∀ c ∈ ([] : List Char), isSpace c = true := nofun
  simpa using readDocument_append_space hspace v h

end WorkflowCanvas.Json
