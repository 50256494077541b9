import DeployInventory.Proofs.AssignmentId.Text
import DeployInventory.Proofs.Checked
import Mathlib.Data.Nat.Digits.Defs
/-!
# Proofs.AssignmentId.Grammar — which texts are ids

A text is an id when what is left of it without the white space around it is runs of ASCII digits with single dots
between them, each the number of a 64-bit word (`parse_eq_ok_iff`). A dotted sequence of decimal digits of any script
that is no such text is out of range (`parse_eq_outOfRange_iff`), and any other text is malformed
(`parse_eq_malformed_iff`). Of the texts that name an id one is canonical, the one that is written
(`eq_text_of_canonical`).
-/
namespace DeployInventory

theorem digitValue_lt {c : Char} (h : c.isDigit = true) : digitValue c < 10 := by
  have hc : 48 ≤ c.toNat ∧ c.toNat ≤ 57 := by simpa using Char.isDigit_iff_toNat.1 h
  show c.toNat - 48 < 10
  omega

theorem digitChar_digitValue {c : Char} (h : c.isDigit = true) : Nat.digitChar (digitValue c) = c := by
  have hc : 48 ≤ c.toNat ∧ c.toNat ≤ 57 := by simpa using Char.isDigit_iff_toNat.1 h
  refine Char.toNat_inj.1 ?_
  rw [Nat.toNat_digitChar_of_lt_ten (digitValue_lt h)]
  show 48 + (c.toNat - 48) = c.toNat
  omega

theorem decimalChars_digitValue {c : Char} (h : c.isDigit = true) : decimalChars (digitValue c) = [c] := by
  rw [decimalChars, Nat.toDigits_of_lt_base (digitValue_lt h), digitChar_digitValue h]

/-- A positive number keeps its digits in front when more digits follow. -/
theorem decimalChars_append {cs : List Char} (hcs : ∀ c ∈ cs, c.isDigit = true) : ∀ {n : Nat}, 0 < n →
    decimalChars n ++ cs = decimalChars (cs.foldl (fun n c => n * 10 + digitValue c) n) := by
  induction cs with
  | nil =>
    intro n _
    rw [List.append_nil]
    rfl
  | cons c cs ih =>
    obtain ⟨hc, hcs⟩ := List.forall_mem_cons.1 hcs
    intro n hn
    have hdigit : decimalChars n ++ [c] = decimalChars (n * 10 + digitValue c) := by
      rw [← decimalChars_digitValue hc, Nat.mul_comm]
      exact Nat.toDigits_append_toDigits (by decide) hn (digitValue_lt hc)
    rw [List.foldl_cons, ← ih hcs (by omega), ← hdigit, List.append_assoc]
    rfl

/-- **A run of digits without a zero in front is how its number is written.** -/
theorem decimalChars_decimalValue {part : List Char} (hne : part ≠ []) (hdigits : ∀ c ∈ part, c.isDigit = true)
    (hzero : part = ['0'] ∨ part.head? ≠ some '0') : decimalChars (decimalValue part) = part := by
  rcases hzero with rfl | hzero
  · decide
  · cases part with
    | nil => exact absurd rfl hne
    | cons c cs =>
      obtain ⟨hc, hcs⟩ := List.forall_mem_cons.1 hdigits
      have hpos : 0 < 0 * 10 + digitValue c := by
        rw [Nat.zero_mul, Nat.zero_add, Nat.pos_iff_ne_zero]
        intro hv
        have hchar := digitChar_digitValue hc
        rw [hv] at hchar
        exact hzero (by rw [List.head?_cons, ← hchar]; rfl)
      rw [decimalValue, List.foldl_cons, ← decimalChars_append hcs hpos, Nat.zero_mul, Nat.zero_add,
        decimalChars_digitValue hc]
      rfl

theorem head?_decimalChars_ne {n : Nat} (hn : 0 < n) : (decimalChars n).head? ≠ some '0' := by
  induction n using Nat.strongRecOn with
  | ind n ih =>
    by_cases hlt : n < 10
    · rw [decimalChars, Nat.toDigits_of_lt_base hlt, List.head?_cons]
      intro hchar
      have hnat := congrArg Char.toNat (Option.some.inj hchar)
      rw [Nat.toNat_digitChar_of_lt_ten hlt] at hnat
      have hval : 48 + n = 48 := hnat
      omega
    · have hfront : decimalChars n = decimalChars (n / 10) ++ [Nat.digitChar (n % 10)] :=
        Nat.toDigits_of_base_le (by decide) (by omega)
      have hne : decimalChars (n / 10) ≠ [] := Nat.toDigits_ne_nil
      have hhead := ih (n / 10) (by omega) (by omega)
      rw [List.head?_eq_some_head hne] at hhead
      rwa [hfront, List.head?_append, List.head?_eq_some_head hne]

theorem eq_zero_or_head?_decimalChars (n : Nat) : decimalChars n = ['0'] ∨ (decimalChars n).head? ≠ some '0' := by
  rcases Nat.eq_zero_or_pos n with rfl | hn
  · exact .inl (by decide)
  · exact .inr (head?_decimalChars_ne hn)

namespace AssignmentId

variable {source : String} {s : List Char} {p : Char → Bool} {parts : List (List Char)} {part : List Char}
variable {i : AssignmentId} {n : UInt64} {l : List UInt64}

/-- **The number a run of digits stands for**: the last digit counts once, each before it ten times the next. -/
def runValue (part : List Char) : Nat := Nat.ofDigits 10 (part.map digitValue).reverse

/-- **What is left of a text without the white space around it is these runs with single dots between them.** -/
structure DottedRuns (p : Char → Bool) (s : List Char) (parts : List (List Char)) : Prop where
  nonempty : parts ≠ []
  runs : ∀ part ∈ parts, part ≠ [] ∧ ∀ c ∈ part, p c = true
  joined : Stripped s (['.'].intercalate parts)

/-- **A text without white space and without a number that has a zero too many.** -/
def Canonical (source : String) : Prop :=
  ∃ parts, DottedRuns Char.isDigit source.toList parts ∧ source.toList = ['.'].intercalate parts ∧
    ∀ part ∈ parts, part = ['0'] ∨ part.head? ≠ some '0'

theorem decimalValue_eq_runValue (part : List Char) : decimalValue part = runValue part := by
  rw [runValue, Nat.ofDigits_eq_foldr, List.foldr_reverse, List.foldl_map]
  simp only [decimalValue, Nat.mul_comm, Nat.add_comm, Nat.cast_id]

theorem component?_eq_some_iff :
    component? part = some n ↔ (∀ c ∈ part, c.isDigit = true) ∧ runValue part = n.toNat := by
  rw [component?, decimalValue_eq_runValue, ← List.all_eq_true]
  constructor
  · intro h
    split at h
    · rename_i hpart
      refine ⟨hpart.1, ?_⟩
      rw [← Option.some.inj h, UInt64.toNat_ofNat_of_lt' hpart.2]
    · cases h
  · rintro ⟨hdigits, hvalue⟩
    rw [hvalue, if_pos ⟨hdigits, n.toNat_lt⟩, UInt64.ofNat_toNat]

theorem mapM_component?_eq_some_iff : parts.mapM component? = some l ↔
    (∀ part ∈ parts, ∀ c ∈ part, c.isDigit = true) ∧ parts.map runValue = l.map UInt64.toNat := by
  induction parts generalizing l with
  | nil =>
    rw [List.mapM_nil]
    cases l with
    | nil => simp
    | cons n l => simp
  | cons part parts ih =>
    rw [List.mapM_cons]
    cases l with
    | nil => simp [Option.bind_eq_some_iff]
    | cons n l =>
      simp only [Option.bind_eq_bind, Option.bind_eq_some_iff, Option.pure_def, Option.some.injEq, List.cons.injEq,
        List.map_cons, List.forall_mem_cons, component?_eq_some_iff]
      constructor
      · rintro ⟨m, ⟨hdigits, hvalue⟩, k, hk, rfl, rfl⟩
        obtain ⟨hrest, hvalues⟩ := ih.1 hk
        exact ⟨⟨hdigits, hrest⟩, hvalue, hvalues⟩
      · rintro ⟨⟨hdigits, hrest⟩, hvalue, hvalues⟩
        exact ⟨n, ⟨hdigits, hvalue⟩, l, ih.2 ⟨hrest, hvalues⟩, rfl, rfl⟩

theorem runValue_lt_of_map (h : parts.map runValue = l.map UInt64.toNat) (hpart : part ∈ parts) :
    runValue part < 2 ^ 64 := by
  have hmem : runValue part ∈ l.map UInt64.toNat := h ▸ List.mem_map_of_mem hpart
  obtain ⟨n, -, hn⟩ := List.mem_map.1 hmem
  rw [← hn]
  exact n.toNat_lt

/-! ## The runs of a text -/

/-- The dots of the runs are those the text is cut at. -/
theorem dottedRuns_iff (hp : p '.' = false) : DottedRuns p s parts ↔
    splitAtChar '.' (trimChars s) = parts ∧ ∀ part ∈ parts, part ≠ [] ∧ ∀ c ∈ part, p c = true := by
  constructor
  · intro h
    have hdot : ∀ part ∈ parts, '.' ∉ part := fun part hpart hmem => by
      have hdigit := (h.runs part hpart).2 '.' hmem
      rw [hp] at hdigit
      cases hdigit
    exact ⟨splitAtChar_eq_iff.2 ⟨h.nonempty, hdot, trimChars_eq_iff.2 h.joined⟩, h.runs⟩
  · rintro ⟨hsplit, hruns⟩
    obtain ⟨hne, -, hjoin⟩ := splitAtChar_eq_iff.1 hsplit
    exact ⟨hne, hruns, trimChars_eq_iff.1 hjoin⟩

theorem DottedRuns.unique {parts' : List (List Char)} (hp : p '.' = false) (h : DottedRuns p s parts)
    (h' : DottedRuns p s parts') : parts = parts' :=
  ((dottedRuns_iff hp).1 h).1.symm.trans ((dottedRuns_iff hp).1 h').1

theorem DottedRuns.mono {q : Char → Bool} (h : DottedRuns p s parts)
    (hq : ∀ part ∈ parts, ∀ c ∈ part, p c = true → q c = true) : DottedRuns q s parts :=
  ⟨h.nonempty, fun part hpart => ⟨(h.runs part hpart).1,
    fun c hc => hq part hpart c hc ((h.runs part hpart).2 c hc)⟩, h.joined⟩

theorem all_isDigitRun_iff : parts.all isDigitRun = true ↔
    ∀ part ∈ parts, part ≠ [] ∧ ∀ c ∈ part, isDecimalDigit c = true := by
  simp [isDigitRun]

/-! ## Reading -/

theorem parse_of_dottedRuns (h : DottedRuns isDecimalDigit source.toList parts) : parse source =
    match parts.mapM component? with
    | some (n :: rest) => .ok ⟨n, rest⟩
    | _ => .error (.outOfRange source) := by
  obtain ⟨hsplit, hruns⟩ := (dottedRuns_iff (by decide)).1 h
  rw [parse, hsplit]
  exact if_pos (all_isDigitRun_iff.2 hruns)

theorem parse_of_not_dottedRuns (h : ¬ ∃ parts, DottedRuns isDecimalDigit source.toList parts) :
    parse source = .error (.malformed source) := by
  rw [parse]
  exact if_neg fun hall => h ⟨_, (dottedRuns_iff (by decide)).2 ⟨rfl, all_isDigitRun_iff.1 hall⟩⟩

/-- **An id is read from runs of ASCII digits**, the numbers in their order. -/
theorem parse_eq_ok_iff : parse source = .ok i ↔
    ∃ parts, DottedRuns Char.isDigit source.toList parts ∧ parts.map runValue = i.components.map UInt64.toNat := by
  constructor
  · intro h
    by_cases hruns : ∃ parts, DottedRuns isDecimalDigit source.toList parts
    · obtain ⟨parts, hruns⟩ := hruns
      rw [parse_of_dottedRuns hruns] at h
      split at h
      · rename_i n rest hl
        obtain ⟨hdigits, hvalues⟩ := mapM_component?_eq_some_iff.1 hl
        rw [← Except.ok.inj h]
        exact ⟨parts, hruns.mono fun part hpart c hc _ => hdigits part hpart c hc, hvalues⟩
      · cases h
    · rw [parse_of_not_dottedRuns hruns] at h
      cases h
  · rintro ⟨parts, hruns, hvalues⟩
    have hdigits : ∀ part ∈ parts, ∀ c ∈ part, c.isDigit = true := fun part hpart => (hruns.runs part hpart).2
    rw [parse_of_dottedRuns (hruns.mono fun _ _ _ _ => isDecimalDigit_of_isDigit),
      mapM_component?_eq_some_iff.2 ⟨hdigits, hvalues⟩]
    rfl

/-- Runs of ASCII digits are read when each fits. -/
theorem succeeds_parse_iff : Succeeds (parse source) ↔
    ∃ parts, DottedRuns Char.isDigit source.toList parts ∧ ∀ part ∈ parts, runValue part < 2 ^ 64 := by
  constructor
  · rintro ⟨i, hi⟩
    obtain ⟨parts, hruns, hvalues⟩ := parse_eq_ok_iff.1 hi
    exact ⟨parts, hruns, fun part hpart => runValue_lt_of_map hvalues hpart⟩
  · rintro ⟨parts, hruns, hfit⟩
    cases parts with
    | nil => exact absurd rfl hruns.nonempty
    | cons part parts =>
      refine ⟨⟨UInt64.ofNat (runValue part), parts.map fun part => UInt64.ofNat (runValue part)⟩,
        parse_eq_ok_iff.2 ⟨part :: parts, hruns, ?_⟩⟩
      have hvalues : (part :: parts).map runValue =
          ((part :: parts).map fun part => UInt64.ofNat (runValue part)).map UInt64.toNat := by
        rw [List.map_map]
        exact List.map_congr_left fun part hpart => (UInt64.toNat_ofNat_of_lt' (hfit part hpart)).symm
      exact hvalues

theorem parse_eq_malformed_iff {q : String} : parse source = .error (.malformed q) ↔
    q = source ∧ ¬ ∃ parts, DottedRuns isDecimalDigit source.toList parts := by
  constructor
  · intro h
    by_cases hruns : ∃ parts, DottedRuns isDecimalDigit source.toList parts
    · obtain ⟨parts, hruns⟩ := hruns
      rw [parse_of_dottedRuns hruns] at h
      split at h <;> cases h
    · rw [parse_of_not_dottedRuns hruns] at h
      cases h
      exact ⟨rfl, hruns⟩
  · rintro ⟨rfl, hruns⟩
    exact parse_of_not_dottedRuns hruns

/-- **A dotted sequence of digits is out of range** when one of its numbers is too large or in another script. -/
theorem parse_eq_outOfRange_iff {q : String} : parse source = .error (.outOfRange q) ↔
    q = source ∧ ∃ parts, DottedRuns isDecimalDigit source.toList parts ∧
      ∃ part ∈ parts, (∃ c ∈ part, c.isDigit = false) ∨ 2 ^ 64 ≤ runValue part := by
  constructor
  · intro h
    by_cases hruns : ∃ parts, DottedRuns isDecimalDigit source.toList parts
    · obtain ⟨parts, hruns⟩ := hruns
      have hq : q = source := by
        rw [parse_of_dottedRuns hruns] at h
        split at h <;> cases h
        rfl
      refine ⟨hq, parts, hruns, ?_⟩
      -- were every number of ASCII digits and small enough the text would be read
      by_contra hfit
      have hdigits : ∀ part ∈ parts, ∀ c ∈ part, isDecimalDigit c = true → c.isDigit = true := by
        intro part hpart c hc _
        by_contra hdigit
        exact hfit ⟨part, hpart, .inl ⟨c, hc, Bool.eq_false_iff.2 hdigit⟩⟩
      have hsmall : ∀ part ∈ parts, runValue part < 2 ^ 64 := fun part hpart =>
        Nat.lt_of_not_le fun hlarge => hfit ⟨part, hpart, .inr hlarge⟩
      obtain ⟨i, hi⟩ := succeeds_parse_iff.2 ⟨parts, hruns.mono hdigits, hsmall⟩
      rw [hi] at h
      cases h
    · rw [parse_of_not_dottedRuns hruns] at h
      cases h
  · rintro ⟨rfl, parts, hruns, part, hpart, hunfit⟩
    rw [parse_of_dottedRuns hruns]
    split
    · rename_i n rest hl
      obtain ⟨hdigits, hvalues⟩ := mapM_component?_eq_some_iff.1 hl
      rcases hunfit with ⟨c, hc, hdigit⟩ | hlarge
      · rw [hdigits part hpart c hc] at hdigit
        cases hdigit
      · exact absurd (runValue_lt_of_map hvalues hpart) (Nat.not_lt.2 hlarge)
    · rfl

/-! ## The canonical text -/

theorem dotted_eq_intercalate (hl : l ≠ []) :
    dotted l = ['.'].intercalate (l.map fun n => decimalChars n.toNat) := by
  rw [← splitAtChar_dotted hl, intercalate_splitAtChar]

theorem canonical_text (i : AssignmentId) : Canonical i.text := by
  have hne : i.components ≠ [] := List.cons_ne_nil _ _
  have htext : i.text.toList = ['.'].intercalate (i.components.map fun n => decimalChars n.toNat) := by
    rw [text, String.toList_ofList, dotted_eq_intercalate hne]
  refine ⟨i.components.map fun n => decimalChars n.toNat, ⟨by simpa using hne, ?_, ?_⟩, htext, ?_⟩
  · refine List.forall_mem_map.2 fun n _ => ⟨Nat.toDigits_ne_nil, fun c hc => isDigit_of_mem_decimalChars hc⟩
  · rw [← dotted_eq_intercalate hne, text, String.toList_ofList]
    exact trimChars_eq_iff.1 (trimChars_dotted i.components)
  · exact List.forall_mem_map.2 fun n _ => eq_zero_or_head?_decimalChars n.toNat

/-- **An id has one canonical text**, the one that is written. -/
theorem eq_text_of_canonical {c : String} (hc : Canonical c) (hparse : parse c = .ok i) : c = i.text := by
  obtain ⟨parts, hruns, hjoin, hzeros⟩ := hc
  obtain ⟨parts', hruns', hvalues⟩ := parse_eq_ok_iff.1 hparse
  cases hruns.unique (by decide) hruns'
  -- each run is how the number it stands for is written
  have hwritten : i.components.map (fun n => decimalChars n.toNat) = parts := by
    have hmap := congrArg (List.map decimalChars) hvalues
    rw [List.map_map, List.map_map] at hmap
    refine hmap.symm.trans ((List.map_congr_left fun part hpart => ?_).trans (List.map_id parts))
    rw [Function.comp_apply, ← decimalValue_eq_runValue]
    exact decimalChars_decimalValue (hruns.runs part hpart).1 (hruns.runs part hpart).2 (hzeros part hpart)
  have hne : i.components ≠ [] := List.cons_ne_nil _ _
  rw [← String.ofList_toList (s := c), hjoin, text, dotted_eq_intercalate hne, hwritten]

/-- **Ids are read and written faithfully.** -/
theorem parse_faithful (source : String) :
    (Succeeds (parse source) ↔
      ∃ parts, DottedRuns Char.isDigit source.toList parts ∧ ∀ part ∈ parts, runValue part < 2 ^ 64) ∧
    (∀ i, parse source = .ok i ↔
      ∃ parts, DottedRuns Char.isDigit source.toList parts ∧ parts.map runValue = i.components.map UInt64.toNat) ∧
    (∀ q, parse source = .error (.outOfRange q) ↔
      q = source ∧ ∃ parts, DottedRuns isDecimalDigit source.toList parts ∧
        ∃ part ∈ parts, (∃ c ∈ part, c.isDigit = false) ∨ 2 ^ 64 ≤ runValue part) ∧
    (∀ q, parse source = .error (.malformed q) ↔
      q = source ∧ ¬ ∃ parts, DottedRuns isDecimalDigit source.toList parts) ∧
    (∀ i : AssignmentId, parse i.text = .ok i) ∧
    (∀ i, parse source = .ok i → Canonical i.text ∧ ∀ c, Canonical c ∧ parse c = .ok i ↔ c = i.text) := by
  refine ⟨succeeds_parse_iff, fun i => parse_eq_ok_iff, fun q => parse_eq_outOfRange_iff,
    fun q => parse_eq_malformed_iff, parse_text, fun i _ => ⟨canonical_text i, fun c => ⟨?_, ?_⟩⟩⟩
  · exact fun h => eq_text_of_canonical h.1 h.2
  · rintro rfl
    exact ⟨canonical_text i, parse_text i⟩

theorem paddedId_faithful : parse " 3.01 " = .ok ⟨3, [1]⟩ ∧
    ∀ c, Canonical c ∧ parse c = .ok ⟨3, [1]⟩ ↔ c = "3.1" :=
  have hparse : parse " 3.01 " = .ok ⟨3, [1]⟩ := by decide
  ⟨hparse, ((parse_faithful " 3.01 ").2.2.2.2.2 ⟨3, [1]⟩ hparse).2⟩

end AssignmentId
end DeployInventory
