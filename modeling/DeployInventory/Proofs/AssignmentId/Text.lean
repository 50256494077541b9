import DeployInventory.AssignmentId
import DeployInventory.Proofs.Text.Parts
/-!
# Proofs.AssignmentId.Text — the text of an id names the id

The numbers of an id are written in ASCII digits, so the dots of its text are just those between the numbers
(`splitAtChar_dotted`) and there is nothing to trim. Reading the text gives the id back (`parse_text`).
-/
namespace DeployInventory

theorem isDecimalDigit_of_isDigit {c : Char} (h : c.isDigit = true) : isDecimalDigit c = true := by
  rw [Char.isDigit_iff_toNat] at h
  -- the ASCII digits are the first range of the table
  exact List.any_eq_true.2 ⟨(0x30, 0x39), List.mem_cons_self, by simpa using h⟩

theorem isBlank_of_isDigit {c : Char} (h : c.isDigit = true) : isBlank c = false := by
  have hc : 48 ≤ c.toNat ∧ c.toNat ≤ 57 := by simpa using Char.isDigit_iff_toNat.1 h
  simp [isBlank, blankTable, CharTable.has]
  omega

/-! ## Numbers -/

theorem isDigit_of_mem_decimalChars {n : Nat} {c : Char} (h : c ∈ decimalChars n) : c.isDigit = true :=
  Nat.isDigit_of_mem_toDigits (by decide) (by decide) h

theorem dot_not_mem_decimalChars {n : Nat} : '.' ∉ decimalChars n :=
  fun h => absurd (isDigit_of_mem_decimalChars h) (by decide)

theorem decimalValue_decimalChars (n : Nat) : decimalValue (decimalChars n) = n := by
  calc decimalValue (decimalChars n) = Nat.ofDigitChars 10 (Nat.toDigits 10 n) 0 := by
        rw [Nat.ofDigitChars_eq_foldl]
        simp only [decimalValue, decimalChars, digitValue, Nat.mul_comm]
    _ = n := Nat.ofDigitChars_ten_toDigits

namespace AssignmentId

theorem isDigitRun_decimalChars (n : Nat) : isDigitRun (decimalChars n) = true := by
  have hne : decimalChars n ≠ [] := Nat.toDigits_ne_nil
  have hall : (decimalChars n).all isDecimalDigit = true :=
    List.all_eq_true.2 fun c hc => isDecimalDigit_of_isDigit (isDigit_of_mem_decimalChars hc)
  simp [isDigitRun, hne, hall]

theorem component?_decimalChars (n : UInt64) : component? (decimalChars n.toNat) = some n := by
  have hall : (decimalChars n.toNat).all Char.isDigit = true :=
    List.all_eq_true.2 fun c hc => isDigit_of_mem_decimalChars hc
  rw [component?, decimalValue_decimalChars, if_pos ⟨hall, n.toNat_lt⟩, UInt64.ofNat_toNat]

theorem dotted_cons_cons (n m : UInt64) (rest : List UInt64) :
    dotted (n :: m :: rest) = decimalChars n.toNat ++ '.' :: dotted (m :: rest) := rfl

theorem isDigit_of_mem_dotted {c : Char} : ∀ {l : List UInt64}, c ∈ dotted l → c.isDigit = true ∨ c = '.'
  | [], h => by cases h
  | [n], h => .inl (isDigit_of_mem_decimalChars h)
  | n :: m :: rest, h => by
    rw [dotted_cons_cons, List.mem_append, List.mem_cons] at h
    rcases h with h | h | h
    · exact .inl (isDigit_of_mem_decimalChars h)
    · exact .inr h
    · exact isDigit_of_mem_dotted h

/-- **The dots of a text are between the numbers.** -/
theorem splitAtChar_dotted : ∀ {l : List UInt64}, l ≠ [] →
    splitAtChar '.' (dotted l) = l.map fun n => decimalChars n.toNat
  | [n], _ => splitAtChar_of_not_mem dot_not_mem_decimalChars
  | n :: m :: rest, _ => by
    rw [dotted_cons_cons, splitAtChar_append dot_not_mem_decimalChars, splitAtChar_dotted (List.cons_ne_nil m rest)]
    rfl

theorem mapM_component?_decimalChars : ∀ l : List UInt64,
    (l.map fun n => decimalChars n.toNat).mapM component? = some l
  | [] => rfl
  | n :: rest => by
    rw [List.map_cons, List.mapM_cons, component?_decimalChars, mapM_component?_decimalChars rest]
    rfl

theorem trimChars_dotted (l : List UInt64) : trimChars (dotted l) = dotted l := by
  refine trimChars_of_not_blank fun c hc => ?_
  rcases isDigit_of_mem_dotted hc with hc | rfl
  · exact isBlank_of_isDigit hc
  · decide

/-- **The text of an id reads as the id.** -/
theorem parse_text (i : AssignmentId) : parse i.text = .ok i := by
  have hne : i.components ≠ [] := List.cons_ne_nil _ _
  have hdigits : (i.components.map fun n => decimalChars n.toNat).all isDigitRun = true := by
    simp [isDigitRun_decimalChars]
  rw [parse, text, String.toList_ofList, trimChars_dotted, splitAtChar_dotted hne, if_pos hdigits,
    mapM_component?_decimalChars]
  rfl

end AssignmentId
end DeployInventory
