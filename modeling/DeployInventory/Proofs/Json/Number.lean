import DeployInventory.Json.Printer
import DeployInventory.Proofs.AssignmentId.Text
import DeployInventory.Proofs.Number.Shortest
import Mathlib.Data.List.Induction
/-!
# Proofs.Json.Number — numbers as text

A decimal is written as digits, digits after a point and a power of ten, in one of two layouts; whatever the layout, the
text tells the number (`Writes.unique`). So a double is told by its text (`doubleChars_injective`), and so is a number,
since only doubles have a point or a power (`chars_injective`).
-/
namespace DeployInventory

/-! ## Digits -/

theorem decimalValue_append (ds es : List Char) :
    decimalValue (ds ++ es) = decimalValue ds * 10 ^ es.length + decimalValue es := by
  induction es using List.reverseRecOn with
  | nil => simp [decimalValue]
  | append_singleton es c ih =>
    have hlast : ∀ l : List Char, decimalValue (l ++ [c]) = decimalValue l * 10 + digitValue c := fun l => by
      rw [decimalValue, List.foldl_append]
      rfl
    rw [← List.append_assoc, hlast, hlast, ih, List.length_append, List.length_singleton, pow_succ]
    ring

theorem decimalValue_zeros (n : Nat) : decimalValue (List.replicate n '0') = 0 := by
  induction n with
  | zero => rfl
  | succ n ih =>
    rw [List.replicate_succ', decimalValue_append, ih, Nat.zero_mul]
    rfl

/-! ## Texts of decimals -/

/-- The digits after the point, with the point, where there are some. -/
def fractionText : List Char → List Char
  | [] => []
  | part => '.' :: part

/-- The power of ten that a text ends with, if it is not left out. -/
def IsPower (power : List Char) : Prop :=
  power = [] ∨ ∃ sign ds, power = 'e' :: sign :: ds ∧ (sign = '+' ∨ sign = '-') ∧ ∀ c ∈ ds, c.isDigit = true

def powerOf : List Char → Int
  | 'e' :: '-' :: ds => -(decimalValue ds : Int)
  | 'e' :: _ :: ds => decimalValue ds
  | _ => 0

/-- **A text of a number that is not written as an integer**: it has a point or a power. -/
inductive Writes : List Char → ℚ → Prop where
  | mk (whole part power : List Char) (hne : whole ≠ []) (hwhole : ∀ c ∈ whole, c.isDigit = true)
      (hpart : ∀ c ∈ part, c.isDigit = true) (hpower : IsPower power) (hmark : part ≠ [] ∨ power ≠ []) :
      Writes (whole ++ (fractionText part ++ power))
        (decimalValue (whole ++ part) * 10 ^ (powerOf power - part.length))

/-- The number that a text tells. -/
def textValue (t : List Char) : ℚ :=
  let mantissa := t.takeWhile (· != 'e')
  let part := (mantissa.dropWhile (· != '.')).tail
  decimalValue (mantissa.takeWhile (· != '.') ++ part) * 10 ^ (powerOf (t.dropWhile (· != 'e')) - part.length)

theorem ne_of_isDigit {c mark : Char} (hc : c.isDigit = true) (hmark : mark.isDigit = false) : (c != mark) = true := by
  rw [bne_iff_ne]
  rintro rfl
  rw [hc] at hmark
  cases hmark

namespace Writes

variable {t : List Char} {v w : ℚ}

theorem of_eq (whole part power : List Char) (hne : whole ≠ []) (hwhole : ∀ c ∈ whole, c.isDigit = true)
    (hpart : ∀ c ∈ part, c.isDigit = true) (hpower : IsPower power) (hmark : part ≠ [] ∨ power ≠ [])
    (ht : t = whole ++ (fractionText part ++ power))
    (hv : v = decimalValue (whole ++ part) * 10 ^ (powerOf power - part.length)) : Writes t v := by
  rw [ht, hv]
  exact .mk whole part power hne hwhole hpart hpower hmark

theorem textValue_eq (h : Writes t v) : textValue t = v := by
  obtain ⟨whole, part, power, -, hwhole, hpart, hpower, -⟩ := h
  have hfraction : ∀ c ∈ whole ++ fractionText part, (c != 'e') = true := by
    intro c hc
    rcases List.mem_append.1 hc with hc | hc
    · exact ne_of_isDigit (hwhole c hc) rfl
    · cases part with
      | nil => cases hc
      | cons d part =>
        rcases List.mem_cons.1 hc with rfl | hc
        · rfl
        · exact ne_of_isDigit (hpart c hc) rfl
  have hstart : power.takeWhile (· != 'e') = [] ∧ power.dropWhile (· != 'e') = power := by
    rcases hpower with rfl | ⟨sign, ds, rfl, -, -⟩ <;> exact ⟨rfl, rfl⟩
  have hmantissa : (whole ++ (fractionText part ++ power)).takeWhile (· != 'e') = whole ++ fractionText part := by
    rw [← List.append_assoc, List.takeWhile_append_of_pos hfraction, hstart.1, List.append_nil]
  have hrest : (whole ++ (fractionText part ++ power)).dropWhile (· != 'e') = power := by
    rw [← List.append_assoc, List.dropWhile_append_of_pos hfraction, hstart.2]
  have hpoint : ∀ c ∈ whole, (c != '.') = true := fun c hc => ne_of_isDigit (hwhole c hc) rfl
  have hbefore : (whole ++ fractionText part).takeWhile (· != '.') = whole := by
    rw [List.takeWhile_append_of_pos hpoint]
    cases part <;> simp [fractionText]
  have hafter : ((whole ++ fractionText part).dropWhile (· != '.')).tail = part := by
    rw [List.dropWhile_append_of_pos hpoint]
    cases part <;> simp [fractionText]
  rw [textValue, hmantissa, hrest, hbefore, hafter]

/-- **The text tells the number.** -/
theorem unique (h : Writes t v) (h' : Writes t w) : v = w := by
  rw [← h.textValue_eq, ← h'.textValue_eq]

theorem exists_head (h : Writes t v) : ∃ c rest, t = c :: rest ∧ c.isDigit = true := by
  obtain ⟨whole, part, power, hne, hwhole, -, -, -⟩ := h
  cases whole with
  | nil => contradiction
  | cons c whole => exact ⟨c, _, rfl, hwhole c List.mem_cons_self⟩

theorem exists_mark (h : Writes t v) : ∃ c ∈ t, c = '.' ∨ c = 'e' := by
  obtain ⟨whole, part, power, -, -, -, hpower, hmark⟩ := h
  cases part with
  | cons d part => exact ⟨'.', by simp [fractionText], .inl rfl⟩
  | nil =>
    rcases hpower with rfl | ⟨sign, ds, rfl, -, -⟩
    · simp at hmark
    · exact ⟨'e', by simp, .inr rfl⟩

/-- Besides digits a text has a point, the letter of the power and signs. -/
theorem mem_cases (h : Writes t v) : ∀ c ∈ t, c.isDigit = true ∨ c ∈ ['.', 'e', '+', '-'] := by
  obtain ⟨whole, part, power, -, hwhole, hpart, hpower, -⟩ := h
  intro c hc
  rcases List.mem_append.1 hc with hc | hc
  · exact .inl (hwhole c hc)
  · rcases List.mem_append.1 hc with hc | hc
    · cases part with
      | nil => cases hc
      | cons d part =>
        rcases List.mem_cons.1 hc with rfl | hc
        · exact .inr (by simp)
        · exact .inl (hpart c hc)
    · rcases hpower with rfl | ⟨sign, ds, rfl, hsign, hds⟩
      · cases hc
      · rcases List.mem_cons.1 hc with rfl | hc
        · exact .inr (by simp)
        · rcases List.mem_cons.1 hc with rfl | hc
          · exact .inr (by rcases hsign with rfl | rfl <;> simp)
          · exact .inl (hds c hc)

end Writes

namespace Decimal

variable {d : Decimal}

theorem isDigit_of_mem_digitText {c : Char} (hc : c ∈ d.digitText) : c.isDigit = true := isDigit_of_mem_decimalChars hc

theorem digitText_ne_nil : d.digitText ≠ [] := Nat.toDigits_ne_nil

theorem isDigit_of_mem_zeros {n : Nat} {c : Char} (hc : c ∈ List.replicate n '0') : c.isDigit = true := by
  rw [(List.mem_replicate.1 hc).2]
  rfl

theorem decimalValue_digitText : decimalValue d.digitText = d.digits := decimalValue_decimalChars d.digits

theorem writes_whole {n : Nat} (hn : d.exponent = n) :
    Writes (d.digitText ++ List.replicate n '0' ++ ['.', '0']) d.value := by
  refine .of_eq (d.digitText ++ List.replicate n '0') ['0'] []
    (List.append_ne_nil_of_left_ne_nil digitText_ne_nil _) ?_ (by simp) (.inl rfl) (.inl (by simp))
    (by simp [fractionText]) ?_
  · intro c hc
    exact (List.mem_append.1 hc).elim isDigit_of_mem_digitText isDigit_of_mem_zeros
  · have hzero : decimalValue ['0'] = 0 := rfl
    rw [decimalValue_append, decimalValue_append, decimalValue_digitText, decimalValue_zeros, List.length_replicate,
      hzero, value, hn]
    simp [powerOf]

theorem writes_within {n : Nat} (hn : d.exponent = -n) (hpos : 0 < n) (hplaces : n < d.digitText.length) :
    Writes (d.digitText.take (d.digitText.length - n) ++ '.' :: d.digitText.drop (d.digitText.length - n)) d.value := by
  have hlength : (d.digitText.drop (d.digitText.length - n)).length = n := by
    rw [List.length_drop]
    omega
  have hpart : d.digitText.drop (d.digitText.length - n) ≠ [] := by
    rw [← List.length_pos_iff, hlength]
    exact hpos
  refine .of_eq (d.digitText.take (d.digitText.length - n)) (d.digitText.drop (d.digitText.length - n)) [] ?_
    (fun c hc => isDigit_of_mem_digitText (List.mem_of_mem_take hc))
    (fun c hc => isDigit_of_mem_digitText (List.mem_of_mem_drop hc)) (.inl rfl) (.inl hpart) ?_ ?_
  · rw [← List.length_pos_iff, List.length_take]
    omega
  · rw [List.append_nil, fractionText.eq_2 _ hpart]
  · rw [List.take_append_drop, hlength, decimalValue_digitText, value, hn]
    simp [powerOf]

theorem writes_before {n : Nat} (hn : d.exponent = -n) (hplaces : d.digitText.length ≤ n) :
    Writes ('0' :: '.' :: (List.replicate (n - d.digitText.length) '0' ++ d.digitText)) d.value := by
  have hlength : (List.replicate (n - d.digitText.length) '0' ++ d.digitText).length = n := by
    rw [List.length_append, List.length_replicate]
    omega
  have hpart : List.replicate (n - d.digitText.length) '0' ++ d.digitText ≠ [] :=
    List.append_ne_nil_of_right_ne_nil _ digitText_ne_nil
  have hvalue : decimalValue (['0'] ++ (List.replicate (n - d.digitText.length) '0' ++ d.digitText)) = d.digits := by
    rw [decimalValue_append, decimalValue_append, decimalValue_zeros, decimalValue_digitText]
    simp [decimalValue, digitValue]
  refine .of_eq ['0'] (List.replicate (n - d.digitText.length) '0' ++ d.digitText) []
    (by simp) (by simp) ?_ (.inl rfl) (.inl hpart) ?_ ?_
  · intro c hc
    exact (List.mem_append.1 hc).elim isDigit_of_mem_zeros isDigit_of_mem_digitText
  · rw [List.append_nil, fractionText.eq_2 _ hpart]
    rfl
  · rw [hvalue, hlength, value, hn]
    simp [powerOf]

theorem writes_positional (d : Decimal) : Writes d.positional d.value := by
  unfold positional
  dsimp only
  split
  · rename_i hexponent
    obtain ⟨n, hn⟩ := Int.eq_ofNat_of_zero_le hexponent
    rw [hn, Int.toNat_natCast]
    exact writes_whole hn
  · rename_i hexponent
    obtain ⟨n, hn⟩ := Int.eq_ofNat_of_zero_le (a := -d.exponent) (by omega)
    have hexp : d.exponent = -(n : Int) := by omega
    rw [hn, Int.toNat_natCast]
    split
    · rename_i hplaces
      exact writes_within hexp (by omega) hplaces
    · rename_i hplaces
      exact writes_before hexp (by omega)

theorem powerOf_signed (n : Int) :
    powerOf ('e' :: (if n < 0 then '-' else '+') :: decimalChars n.natAbs) = n := by
  split
  · rw [powerOf, decimalValue_decimalChars]
    omega
  · rw [powerOf, decimalValue_decimalChars]
    · omega
    · simp

theorem writes_scientific (d : Decimal) : Writes d.scientific d.value := by
  have hpower : IsPower ('e' :: (if d.leadingPower < 0 then '-' else '+') :: decimalChars d.leadingPower.natAbs) := by
    refine .inr ⟨_, _, rfl, ?_, fun c hc => isDigit_of_mem_decimalChars hc⟩
    split <;> simp
  cases htext : d.digitText with
  | nil => exact absurd htext digitText_ne_nil
  | cons c rest =>
    have hdigit : ∀ k ∈ c :: rest, k.isDigit = true := fun k hk => isDigit_of_mem_digitText (htext ▸ hk)
    obtain ⟨hc, hrest⟩ := List.forall_mem_cons.1 hdigit
    refine .of_eq [c] rest _ (by simp) (by simpa using hc) hrest hpower (.inr (by simp)) ?_ ?_
    · rw [scientific, htext]
      cases rest <;> rfl
    · have hleading : d.leadingPower - rest.length = d.exponent := by
        rw [leadingPower, htext, List.length_cons]
        push_cast
        ring
      rw [powerOf_signed, hleading, List.singleton_append, ← htext, decimalValue_digitText, value]

end Decimal

namespace JsonNumber

variable {x y : Binary64} {n m : JsonNumber}

/-- The text of a double without its sign. -/
def magnitudeChars (x : Binary64) : List Char :=
  if x.isZero || (decide (-5 ≤ x.shortest.leadingPower) && decide (x.shortest.leadingPower < 16)) then
    x.shortest.positional
  else x.shortest.scientific

theorem doubleChars_eq (x : Binary64) :
    doubleChars x = if x.negative then '-' :: magnitudeChars x else magnitudeChars x := rfl

theorem writes_magnitudeChars (x : Binary64) : Writes (magnitudeChars x) x.shortest.value := by
  unfold magnitudeChars
  split
  · exact Decimal.writes_positional _
  · exact Decimal.writes_scientific _

/-- **A double is told by its text.** -/
theorem doubleChars_injective (h : doubleChars x = doubleChars y) : x = y := by
  have hx := writes_magnitudeChars x
  have hy := writes_magnitudeChars y
  obtain ⟨c, rest, hc, hdigit⟩ := hx.exists_head
  obtain ⟨d, rest', hd, hdigit'⟩ := hy.exists_head
  rw [doubleChars_eq, doubleChars_eq] at h
  have hsame : ∀ {t}, magnitudeChars x = t → magnitudeChars y = t → x.magnitude = y.magnitude := fun hxt hyt => by
    rw [hxt] at hx
    rw [hyt] at hy
    exact Binary64.magnitude_eq_of_shortest (hx.unique hy)
  cases hnx : x.negative <;> cases hny : y.negative <;> simp only [hnx, hny, if_true, if_false, Bool.false_eq_true] at h
  · exact Binary64.ext_magnitude (hnx.trans hny.symm) (hsame h rfl)
  · rw [hc] at h
    rw [(List.cons.inj h).1] at hdigit
    cases hdigit
  · rw [hd] at h
    rw [← (List.cons.inj h).1] at hdigit'
    cases hdigit'
  · exact Binary64.ext_magnitude (hnx.trans hny.symm) (hsame (List.cons.inj h).2 rfl)

/-! ## Integers -/

theorem chars_natCast (k : Nat) : (integer (k : Int)).chars = decimalChars k := by
  show (Nat.repr k).toList = decimalChars k
  rw [Nat.repr, String.toList_ofList, decimalChars]

theorem chars_negSucc (k : Nat) : (integer (.negSucc k)).chars = '-' :: decimalChars (k + 1) := by
  have hdigits : (Nat.repr (k + 1)).toList = decimalChars (k + 1) := chars_natCast (k + 1)
  have htext : (integer (.negSucc k)).chars = ("-" ++ Nat.repr (k + 1)).toList := rfl
  rw [htext, String.toList_append, hdigits]
  rfl

theorem mem_chars_integer {k : Int} : ∀ c ∈ (integer k).chars, c.isDigit = true ∨ c = '-' := by
  cases k with
  | ofNat k =>
    intro c hc
    exact .inl (isDigit_of_mem_decimalChars (chars_natCast k ▸ hc))
  | negSucc k =>
    intro c hc
    rw [chars_negSucc] at hc
    exact (List.mem_cons.1 hc).symm.imp isDigit_of_mem_decimalChars id

theorem decimalChars_injective {k l : Nat} (h : decimalChars k = decimalChars l) : k = l := by
  rw [← decimalValue_decimalChars k, h, decimalValue_decimalChars]

theorem minus_not_mem_decimalChars {k : Nat} : '-' ∉ decimalChars k :=
  fun h => absurd (isDigit_of_mem_decimalChars h) (by decide)

theorem chars_integer_injective {k l : Int} (h : (integer k).chars = (integer l).chars) : k = l := by
  have hsign : ∀ a b : Nat, decimalChars a ≠ '-' :: decimalChars (b + 1) := fun a b heq =>
    minus_not_mem_decimalChars (k := a) (heq ▸ List.mem_cons_self)
  cases k with
  | ofNat a =>
    cases l with
    | ofNat b =>
      have hdigits := (chars_natCast a).symm.trans (h.trans (chars_natCast b))
      exact congrArg Int.ofNat (decimalChars_injective hdigits)
    | negSucc b => exact absurd ((chars_natCast a).symm.trans (h.trans (chars_negSucc b))) (hsign a b)
  | negSucc a =>
    cases l with
    | ofNat b => exact absurd ((chars_natCast b).symm.trans (h.symm.trans (chars_negSucc a))) (hsign b a)
    | negSucc b =>
      have htail := (chars_negSucc a).symm.trans (h.trans (chars_negSucc b))
      rw [Nat.succ.inj (decimalChars_injective (List.cons.inj htail).2)]

/-! ## Numbers -/

/-- A double has a point or a power. -/
theorem exists_mark_doubleChars (x : Binary64) : ∃ c ∈ doubleChars x, c = '.' ∨ c = 'e' := by
  obtain ⟨c, hc, hmark⟩ := (writes_magnitudeChars x).exists_mark
  refine ⟨c, ?_, hmark⟩
  rw [doubleChars_eq]
  split
  · exact List.mem_cons_of_mem _ hc
  · exact hc

theorem chars_integer_ne_double {k : Int} {x : Binary64} : (integer k).chars ≠ (double x).chars := by
  intro h
  obtain ⟨c, hc, hmark⟩ := exists_mark_doubleChars x
  have hchars : (double x).chars = doubleChars x := rfl
  rw [← hchars, ← h] at hc
  have hcase := mem_chars_integer c hc
  rcases hmark with rfl | rfl <;> simp at hcase

/-- **A number is told by its text.** -/
theorem chars_injective (h : n.chars = m.chars) : n = m := by
  cases n with
  | integer k =>
    cases m with
    | integer l => rw [chars_integer_injective h]
    | double y => exact absurd h chars_integer_ne_double
  | double x =>
    cases m with
    | integer l => exact absurd h.symm chars_integer_ne_double
    | double y => exact congrArg double (doubleChars_injective h)

theorem mem_chars : ∀ c ∈ n.chars, c.isDigit = true ∨ c ∈ ['.', 'e', '+', '-'] := by
  intro c hc
  cases n with
  | integer k => exact (mem_chars_integer c hc).imp id fun hminus => by simp [hminus]
  | double x =>
    have hmagnitude := (writes_magnitudeChars x).mem_cases c
    have hchars : c ∈ doubleChars x := hc
    rw [doubleChars_eq] at hchars
    split at hchars
    · rcases List.mem_cons.1 hchars with rfl | hchars
      · exact .inr (by simp)
      · exact hmagnitude hchars
    · exact hmagnitude hchars

theorem exists_head_chars (n : JsonNumber) : ∃ c rest, n.chars = c :: rest ∧ (c.isDigit = true ∨ c = '-') := by
  cases n with
  | integer k =>
    cases hchars : (integer k).chars with
    | nil =>
      cases k with
      | ofNat k => exact absurd ((chars_natCast k).symm.trans hchars) Nat.toDigits_ne_nil
      | negSucc k =>
        rw [chars_negSucc] at hchars
        cases hchars
    | cons c rest => exact ⟨c, rest, rfl, mem_chars_integer c (hchars ▸ List.mem_cons_self)⟩
  | double x =>
    obtain ⟨c, rest, hc, hdigit⟩ := (writes_magnitudeChars x).exists_head
    have hchars : (double x).chars = doubleChars x := rfl
    rw [hchars, doubleChars_eq]
    split
    · exact ⟨'-', _, rfl, .inr rfl⟩
    · exact ⟨c, rest, hc, .inl hdigit⟩

end JsonNumber
end DeployInventory
