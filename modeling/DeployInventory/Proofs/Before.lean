import Mathlib.Data.List.Permutation
/-!
# Proofs.Before — what stands before what in a list

One element stands before another when the two are a sublist. In a list without repetition that is transitive
(`pair_sublist_trans`) and what positions say (`idxOf_lt_of_pair_sublist`). What stands before the first place of an
element is what `takeWhile` gives up to it (`takeWhile_bne_append`).
-/
namespace DeployInventory

theorem pair_sublist_trans : ∀ {l : List String}, l.Nodup → ∀ {a b c : String}, [a, b].Sublist l → [b, c].Sublist l →
    [a, c].Sublist l
  | [], _, _, _, _, hab, _ => by cases hab
  | m :: l, hnd, a, b, c, hab, hbc => by
    rw [List.nodup_cons] at hnd
    cases hab with
    | cons _ hab =>
      cases hbc with
      | cons _ hbc => exact (pair_sublist_trans hnd.2 hab hbc).cons _
      | cons_cons _ _ => exact absurd (hab.subset (by simp)) hnd.1
    | cons_cons _ hb =>
      cases hbc with
      | cons _ hbc => exact List.Sublist.cons_cons _ ((List.sublist_cons_self b [c]).trans hbc)
      | cons_cons _ _ => exact absurd (List.singleton_sublist.1 hb) hnd.1

theorem mem_of_pair_sublist : ∀ {before after : List String} {a b : String}, (before ++ a :: after).Nodup →
    [a, b].Sublist (before ++ a :: after) → b ∈ after
  | [], after, a, b, hnd, hab => by
    cases hab with
    | cons _ hab => exact absurd (hab.subset List.mem_cons_self) (List.nodup_cons.1 hnd).1
    | cons_cons _ hb => exact List.singleton_sublist.1 hb
  | m :: before, after, a, b, hnd, hab => by
    rw [List.cons_append, List.nodup_cons] at hnd
    cases hab with
    | cons _ hab => exact mem_of_pair_sublist hnd.2 hab
    | cons_cons _ _ => exact absurd (by simp) hnd.1

theorem idxOf_lt_of_pair_sublist : ∀ {l : List String}, l.Nodup → ∀ {a b : String}, [a, b].Sublist l →
    l.idxOf a < l.idxOf b
  | [], _, _, _, hab => by cases hab
  | m :: l, hnd, a, b, hab => by
    rw [List.nodup_cons] at hnd
    have hne : ∀ {c : String}, c ∈ l → m ≠ c := fun hc hm => hnd.1 (hm ▸ hc)
    cases hab with
    | cons _ hab =>
      rw [List.idxOf_cons_ne l (hne (hab.subset (by simp))), List.idxOf_cons_ne l (hne (hab.subset (by simp)))]
      exact Nat.succ_lt_succ (idxOf_lt_of_pair_sublist hnd.2 hab)
    | cons_cons _ hb =>
      rw [List.idxOf_cons_self, List.idxOf_cons_ne l (hne (List.singleton_sublist.1 hb))]
      exact Nat.succ_pos _

theorem bne_of_not_mem {l : List String} {b : String} (hb : b ∉ l) : ∀ a ∈ l, (a != b) = true := by
  intro a ha
  rw [bne_iff_ne]
  rintro rfl
  exact hb ha

theorem takeWhile_bne_append {before after : List String} {b : String} (hb : b ∉ before) :
    (before ++ b :: after).takeWhile (· != b) = before := by
  rw [List.takeWhile_append_of_pos (bne_of_not_mem hb), List.takeWhile_cons_of_neg (by simp), List.append_nil]

theorem dropWhile_bne_append {before after : List String} {b : String} (hb : b ∉ before) :
    (before ++ b :: after).dropWhile (· != b) = b :: after := by
  rw [List.dropWhile_append_of_pos (bne_of_not_mem hb), List.dropWhile_cons_of_neg (by simp)]

/-- Turned round, a list without repetition has behind an element what it had before it. -/
theorem dropWhile_reverse_of_nodup {l : List String} {b : String} (hnd : l.Nodup) (hb : b ∈ l) :
    l.reverse.dropWhile (· != b) = b :: (l.takeWhile (· != b)).reverse := by
  obtain ⟨before, after, rfl, hbefore⟩ := List.eq_append_cons_of_mem hb
  have hafter : b ∉ after.reverse := by
    rw [List.mem_reverse]
    exact (List.nodup_cons.1 (List.nodup_append.1 hnd).2.1).1
  rw [takeWhile_bne_append hbefore, List.reverse_append, List.reverse_cons, List.append_assoc, List.singleton_append,
    dropWhile_bne_append hafter]

end DeployInventory
