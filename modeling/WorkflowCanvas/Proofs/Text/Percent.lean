import WorkflowCanvas.Text.Percent

/-!
Escaping and its inverse.

Every octet is spelled in characters of ASCII, so the octets of a segment are those of the spellings
one after the other. Each spelling is resolved to its octet whatever stands behind it, and therefore
a segment that was made from a text stands for that text. No spelling has a slash, so the segment
stays one when the path around it is taken apart.
-/

namespace WorkflowCanvas.Text.Percent

/-! ### Octets -/

/-- The octets of the spelling of an octet. -/
def spelling (b : UInt8) : List UInt8 := (escape b).flatMap String.utf8EncodeChar

/-- An octet is spelled as itself, or as an escape with its two digits. -/
theorem spelling_cases (b : UInt8) :
    (b ≠ 0x25 ∧ spelling b = [b]) ∨ ∃ high low, octetValue? high = some (b / 16) ∧
      octetValue? low = some (b % 16) ∧ spelling b = [0x25, high, low] := by
  have hoctets : ∀ n : Fin 256, let b := UInt8.ofFin n
      if isPlain b then b ≠ 0x25 ∧ spelling b = [b]
      else
        let high := (hexDigit (b / 16)).toNat.toUInt8
        let low := (hexDigit (b % 16)).toNat.toUInt8
        octetValue? high = some (b / 16) ∧ octetValue? low = some (b % 16) ∧
          spelling b = [0x25, high, low] := by
    decide +kernel
  have h := hoctets b.toFin
  by_cases hplain : isPlain b
  · exact .inl (by simpa [hplain] using h)
  · exact .inr ⟨_, _, by simpa [hplain] using h⟩

theorem sixteen_mul_div_add_mod (b : UInt8) : 16 * (b / 16) + b % 16 = b := by
  have hlt : b.toNat < 256 := b.toNat_lt
  rw [← UInt8.toNat_inj]
  simp only [UInt8.toNat_add, UInt8.toNat_mul, UInt8.toNat_div, UInt8.toNat_mod, UInt8.reduceToNat]
  omega

theorem unescape_of_ne {b : UInt8} (hb : b ≠ 0x25) (rest : List UInt8) :
    unescape (b :: rest) = b :: unescape rest := by
  match rest with
  | [] | [_] => simp [unescape]
  | high :: low :: rest =>
    rw [unescape]
    split
    · rw [if_neg hb]
    · rfl

theorem unescape_spelling (b : UInt8) (rest : List UInt8) :
    unescape (spelling b ++ rest) = b :: unescape rest := by
  rcases spelling_cases b with ⟨hb, heq⟩ | ⟨high, low, hhigh, hlow, heq⟩
  · rw [heq]
    exact unescape_of_ne hb rest
  · rw [heq, List.cons_append, List.cons_append, List.cons_append, unescape, hhigh, hlow]
    simp [sixteen_mul_div_add_mod]

theorem unescape_flatMap_spelling (bs : List UInt8) : unescape (bs.flatMap spelling) = bs := by
  induction bs with
  | nil => simp [unescape]
  | cons b rest ih => rw [List.flatMap_cons, unescape_spelling, ih]

/-! ### Texts -/

theorem toList_loop (bytes : ByteArray) (i : Nat) (read : List UInt8) :
    ByteArray.toList.loop bytes i read = read.reverse ++ bytes.data.toList.drop i := by
  induction i, read using ByteArray.toList.loop.induct bytes with
  | case1 i read hi ih =>
      have hdrop : bytes.data.toList.drop i = bytes.get! i :: bytes.data.toList.drop (i + 1) := by
        rw [List.drop_eq_getElem_cons hi, Array.getElem_toList]
        exact congrArg (· :: _) (getElem!_pos bytes.data i hi).symm
      rw [ByteArray.toList.loop, if_pos hi, ih, hdrop, List.reverse_cons, List.append_assoc]
      rfl
  | case2 i read hi =>
      rw [ByteArray.toList.loop, if_neg hi, List.drop_eq_nil_of_le (Nat.le_of_not_lt hi),
        List.append_nil]

theorem toList_eq (bytes : ByteArray) : bytes.toList = bytes.data.toList := toList_loop bytes 0 []

/-- The segment that is made from a text stands for it. -/
theorem decode?_encode (s : String) : decode? (encode s) = some s := by
  have hoctets : (encode s).toUTF8.toList = s.toUTF8.toList.flatMap spelling := by
    rw [encode, toList_eq, String.toUTF8, String.toByteArray_ofList, List.utf8Encode,
      List.toList_data_toByteArray, List.flatMap_assoc]
    rfl
  rw [decode?, hoctets, unescape_flatMap_spelling, toList_eq, Array.toArray_toList]
  exact dif_pos s.isValidUTF8

theorem slash_notMem_encode (s : String) : '/' ∉ (encode s).toList := by
  have hoctets : ∀ n : Fin 256, '/' ∉ escape (UInt8.ofFin n) := by decide +kernel
  rw [encode, String.toList_ofList, List.mem_flatMap]
  rintro ⟨b, _, hb⟩
  exact hoctets b.toFin hb

theorem encode_ne_empty {s : String} (hs : s ≠ "") : encode s ≠ "" := by
  intro heq
  have hencode : encode "" = "" := by simp [encode, toList_eq]
  have hsame : some s = some "" := by rw [← decode?_encode s, ← decode?_encode "", heq, hencode]
  exact hs (Option.some.inj hsame)

end WorkflowCanvas.Text.Percent
