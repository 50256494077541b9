import DeployInventory.Text.Blank
import DeployInventory.Text.Split
/-!
# Proofs.Text.Parts — what is left of a text that is trimmed or cut

Trimming takes white space off both ends and nothing else (`trimChars_eq_iff`), and the parts of a text that is cut at a
mark are the lists of characters without the mark that the text joins (`splitAtChar_eq_iff`).
-/
namespace DeployInventory

variable {s t : List Char} {mark : Char} {parts : List (List Char)}

/-- **A text without the white space around it.** -/
structure Stripped (s t : List Char) : Prop where
  around : ∃ before after, s = before ++ t ++ after ∧ (∀ c ∈ before, isBlank c = true) ∧ ∀ c ∈ after, isBlank c = true
  first : ∀ c ∈ t.head?, isBlank c = false
  last : ∀ c ∈ t.getLast?, isBlank c = false

theorem head?_dropWhile_isBlank (s : List Char) : ∀ c ∈ (s.dropWhile isBlank).head?, isBlank c = false := by
  induction s with
  | nil => simp
  | cons a s ih =>
    rw [List.dropWhile_cons]
    split
    · exact ih
    · rename_i ha
      simpa using ha

theorem dropWhile_of_head? (h : ∀ c ∈ t.head?, isBlank c = false) : t.dropWhile isBlank = t := by
  cases t with
  | nil => rfl
  | cons c t => rw [List.dropWhile_cons_of_neg (by simp [h c rfl])]

theorem stripped_trimChars (s : List Char) : Stripped s (trimChars s) := by
  have hfront : s = s.takeWhile isBlank ++ s.dropWhile isBlank := List.takeWhile_append_dropWhile.symm
  generalize hd : s.dropWhile isBlank = d at hfront
  have hback : d = trimChars s ++ (d.reverse.takeWhile isBlank).reverse := by
    rw [trimChars, hd, ← List.reverse_append, List.takeWhile_append_dropWhile, List.reverse_reverse]
  refine ⟨⟨s.takeWhile isBlank, (d.reverse.takeWhile isBlank).reverse, ?_, ?_, ?_⟩, ?_, ?_⟩
  · rw [List.append_assoc, ← hback]
    exact hfront
  · exact fun c hc => List.all_eq_true.1 List.all_takeWhile c hc
  · intro c hc
    rw [List.mem_reverse] at hc
    exact List.all_eq_true.1 List.all_takeWhile c hc
  · intro c hc
    -- a first character that is left is the first one behind the white space
    have hdc : c ∈ d.head? := by
      rw [hback, List.head?_append, Option.mem_def.1 hc]
      rfl
    rw [← hd] at hdc
    exact head?_dropWhile_isBlank s c hdc
  · intro c hc
    rw [trimChars, List.getLast?_reverse] at hc
    exact head?_dropWhile_isBlank _ c hc

theorem Stripped.trimChars_eq (h : Stripped s t) : trimChars s = t := by
  obtain ⟨⟨before, after, rfl, hbefore, hafter⟩, hfirst, hlast⟩ := h
  have hfront : (before ++ t ++ after).dropWhile isBlank = (t ++ after).dropWhile isBlank := by
    rw [List.append_assoc, List.dropWhile_append_of_pos hbefore]
  rw [trimChars, hfront]
  by_cases ht : t = []
  · subst ht
    have hnone : (after ++ []).dropWhile isBlank = [] := List.dropWhile_append_of_pos hafter
    rw [List.append_nil] at hnone
    rw [List.nil_append, hnone]
    rfl
  · have hkept : (t ++ after).dropWhile isBlank = t ++ after := by
      refine dropWhile_of_head? fun c hc => hfirst c ?_
      rw [List.head?_append, List.head?_eq_some_head ht] at hc
      rw [List.head?_eq_some_head ht]
      exact hc
    rw [hkept, List.reverse_append, List.dropWhile_append_of_pos (by simpa using hafter),
      dropWhile_of_head? (by simpa using hlast), List.reverse_reverse]

/-- **Trimming takes the white space off both ends**, and nothing else. -/
theorem trimChars_eq_iff : trimChars s = t ↔ Stripped s t := by
  constructor
  · rintro rfl
    exact stripped_trimChars s
  · exact fun h => h.trimChars_eq

/-- What has no white space in it is not trimmed. -/
theorem trimChars_of_not_blank (h : ∀ c ∈ s, isBlank c = false) : trimChars s = s := by
  refine trimChars_eq_iff.2 ⟨⟨[], [], by simp, by simp, by simp⟩, fun c hc => ?_, fun c hc => ?_⟩
  · exact h c (List.mem_of_mem_head? hc)
  · exact h c (List.mem_of_mem_getLast? hc)

/-! ## Parts between marks -/

theorem splitAtChar_of_not_mem : ∀ {part : List Char}, mark ∉ part → splitAtChar mark part = [part]
  | [], _ => rfl
  | c :: part, h => by
    rw [List.mem_cons, not_or] at h
    rw [splitAtChar, if_neg (Ne.symm h.1), splitAtChar_of_not_mem h.2]

theorem splitAtChar_append {rest : List Char} : ∀ {part : List Char}, mark ∉ part →
    splitAtChar mark (part ++ mark :: rest) = part :: splitAtChar mark rest
  | [], _ => by rw [List.nil_append, splitAtChar, if_pos rfl]
  | c :: part, h => by
    rw [List.mem_cons, not_or] at h
    rw [List.cons_append, splitAtChar, if_neg (Ne.symm h.1), splitAtChar_append h.2]

theorem splitAtChar_ne_nil (mark : Char) (s : List Char) : splitAtChar mark s ≠ [] := by
  cases s with
  | nil => simp [splitAtChar]
  | cons c s =>
    rw [splitAtChar]
    split
    · simp
    · split <;> simp

theorem intercalate_splitAtChar (mark : Char) (s : List Char) : [mark].intercalate (splitAtChar mark s) = s := by
  induction s with
  | nil => rfl
  | cons c s ih =>
    rw [splitAtChar]
    split
    · rename_i hc
      rw [List.intercalate_cons_of_ne_nil (splitAtChar_ne_nil mark s), ih, hc]
      rfl
    · split
      · rename_i hnil
        exact absurd hnil (splitAtChar_ne_nil mark s)
      · rename_i part rest hparts
        rw [hparts] at ih
        rw [List.intercalate_cons_cons_left, ih]

theorem not_mem_of_mem_splitAtChar (mark : Char) (s : List Char) : ∀ part ∈ splitAtChar mark s, mark ∉ part := by
  induction s with
  | nil => simp [splitAtChar]
  | cons c s ih =>
    rw [splitAtChar]
    split
    · simpa using ih
    · rename_i hc
      split
      · simp [Ne.symm hc]
      · rename_i part rest hparts
        rw [hparts, List.forall_mem_cons] at ih
        refine List.forall_mem_cons.2 ⟨?_, ih.2⟩
        rw [List.mem_cons, not_or]
        exact ⟨Ne.symm hc, ih.1⟩

theorem splitAtChar_intercalate (hne : parts ≠ []) (hparts : ∀ part ∈ parts, mark ∉ part) :
    splitAtChar mark ([mark].intercalate parts) = parts := by
  induction parts with
  | nil => exact absurd rfl hne
  | cons part parts ih =>
    obtain ⟨hpart, hparts⟩ := List.forall_mem_cons.1 hparts
    by_cases hrest : parts = []
    · subst hrest
      rw [List.intercalate_singleton, splitAtChar_of_not_mem hpart]
    · rw [List.intercalate_cons_of_ne_nil hrest, List.append_assoc, List.singleton_append, splitAtChar_append hpart,
        ih hrest hparts]

/-- **The parts of a text** are those without the mark that it joins. -/
theorem splitAtChar_eq_iff : splitAtChar mark s = parts ↔
    parts ≠ [] ∧ (∀ part ∈ parts, mark ∉ part) ∧ s = [mark].intercalate parts := by
  constructor
  · rintro rfl
    exact ⟨splitAtChar_ne_nil mark s, not_mem_of_mem_splitAtChar mark s, (intercalate_splitAtChar mark s).symm⟩
  · rintro ⟨hne, hparts, rfl⟩
    exact splitAtChar_intercalate hne hparts

end DeployInventory
