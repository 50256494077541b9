import DeployInventory.NameMap
import Mathlib.Data.List.Nodup
/-!
# Proofs.NameMap — look-ups in lists of entries

A list of entries is searched from its start, and the map made of a list has the last entry with a name
(`find?_ofList`). Where no name stands twice these are the same look-ups (`find?_ofList_of_nodup`).
-/
namespace DeployInventory
namespace NameMap

universe u v

variable {α : Type u} {β : Type v} {l k : List (String × α)} {n : String}

theorem valueOf?_eq_find? (n : String) : ∀ l : List (String × α), valueOf? n l = (l.find? (·.1 == n)).map (·.2)
  | [] => rfl
  | e :: l => by
    rw [valueOf?.eq_2, List.find?_cons, valueOf?_eq_find? n l]
    by_cases he : e.1 = n
    · simp [he]
    · simp [he, beq_eq_false_iff_ne.2 he]

theorem valueOf?_append : valueOf? n (l ++ k) = (valueOf? n l).or (valueOf? n k) := by
  simp only [valueOf?_eq_find?, List.find?_append, Option.map_or]

theorem valueOf?_eq_none_iff : valueOf? n l = none ↔ n ∉ l.map Prod.fst := by
  rw [valueOf?_eq_find?, Option.map_eq_none_iff, List.find?_eq_none]
  simp only [beq_iff_eq, List.mem_map, not_exists, not_and]

theorem valueOf?_filter (p : String → Bool) (n : String) : ∀ l : List (String × α),
    valueOf? n (l.filter fun e => p e.1) = if p n then valueOf? n l else none
  | [] => by simp [valueOf?]
  | e :: l => by
    have hl := valueOf?_filter p n l
    by_cases he : e.1 = n
    · subst he
      by_cases hp : p e.1
      · simp [hp, valueOf?]
      · simpa [hp, valueOf?] using hl
    · by_cases hp : p e.1
      · simpa [hp, he, valueOf?] using hl
      · simpa [hp, he, valueOf?] using hl

theorem map_valueOf?_of_forall {f : α → α} (h : ∀ e ∈ l, f e.2 = e.2) : (valueOf? n l).map f = valueOf? n l := by
  have hl : (l.map fun e => (e.1, f e.2)) = l.map fun e => e :=
    List.map_congr_left fun e he => Prod.ext rfl (h e he)
  rw [← valueOf?_map, hl, List.map_id']

theorem not_mem_names {m : NameMap α} : n ∉ m.names ↔ m.find? n = none := by
  rw [mem_names, Option.eq_none_iff_forall_ne_some]
  exact not_exists

theorem mem_names_insert {m : NameMap α} {name : String} {a : α} :
    n ∈ (m.insert name a).names ↔ n = name ∨ n ∈ m.names := by
  rw [mem_names, mem_names]
  simp only [find?_insert]
  by_cases hn : name = n
  · simp [hn]
  · simp [hn, Ne.symm hn]

/-! ## The map of a list -/

theorem find?_foldl_insert (n : String) : ∀ (l : List (String × α)) (m : NameMap α),
    (l.foldl (fun m e => m.insert e.1 e.2) m).find? n = ((l.reverse.find? (·.1 == n)).map (·.2)).or (m.find? n)
  | [], _ => rfl
  | e :: l, m => by
    rw [List.foldl_cons, find?_foldl_insert n l, find?_insert, List.reverse_cons, List.find?_append]
    cases l.reverse.find? (·.1 == n) with
    | some f => rfl
    | none =>
      by_cases he : e.1 = n
      · simp [he]
      · simp [he]

/-- **Of the entries with one name the last counts.** -/
theorem find?_ofList (l : List (String × α)) (n : String) :
    (ofList l).find? n = (l.reverse.find? (·.1 == n)).map (·.2) := by
  rw [ofList, find?_foldl_insert, find?_empty, Option.or_none]

theorem mem_of_mem_ofList {e : String × α} (he : e ∈ (ofList l).entries) : e ∈ l := by
  have hfind := find?_eq_some_iff.2 he
  rw [find?_ofList, Option.map_eq_some_iff] at hfind
  obtain ⟨f, hf, hvalue⟩ := hfind
  have hname : f.1 = e.1 := by simpa using List.find?_some hf
  rw [← Prod.ext hname hvalue]
  exact List.mem_reverse.1 (List.mem_of_find?_eq_some hf)

theorem find?_ofList_of_nodup (n : String) : ∀ {l : List (String × α)}, (l.map Prod.fst).Nodup →
    (ofList l).find? n = valueOf? n l
  | [], _ => rfl
  | e :: l, h => by
    obtain ⟨he, hl⟩ := List.nodup_cons.1 h
    have hrest := find?_ofList_of_nodup n hl
    rw [find?_ofList] at hrest ⊢
    rw [List.reverse_cons, List.find?_append, Option.map_or, hrest, valueOf?.eq_2]
    by_cases hn : e.1 = n
    · rw [valueOf?_eq_none_iff.2 (hn ▸ he)]
      simp [hn]
    · simp [hn]

theorem entries_map (f : α → β) (m : NameMap α) : (m.map f).entries = m.entries.map fun e => (e.1, f e.2) := rfl

theorem map_id' (m : NameMap α) : m.map (fun a => a) = m :=
  ext_find? fun n => by rw [find?_map, Option.map_id']

theorem ofList_map (f : α → β) (l : List (String × α)) :
    ofList (l.map fun e => (e.1, f e.2)) = (ofList l).map f := by
  refine ext_find? fun n => ?_
  rw [find?_map, find?_ofList, find?_ofList, ← List.map_reverse, List.find?_map, Option.map_map, Option.map_map]
  rfl

theorem nodup_entries (m : NameMap α) : (m.entries.map Prod.fst).Nodup := by
  rw [List.nodup_iff_pairwise_ne, List.pairwise_map]
  exact m.ascending.imp fun h => String.ne_of_lt h

/-- **A map is the map of its entries.** -/
theorem ofList_entries (m : NameMap α) : ofList m.entries = m :=
  ext_find? fun n => find?_ofList_of_nodup n m.nodup_entries

theorem valueOf?_eq_some_of_mem {a : α} (h : (l.map Prod.fst).Nodup) (ha : (n, a) ∈ l) : valueOf? n l = some a := by
  induction l with
  | nil => cases ha
  | cons e l ih =>
    obtain ⟨he, hl⟩ := List.nodup_cons.1 h
    rw [valueOf?.eq_2]
    rcases List.mem_cons.1 ha with rfl | ha
    · rw [if_pos rfl]
    · have hne : e.1 ≠ n := fun hn => he (hn ▸ List.mem_map_of_mem ha)
      rw [if_neg hne, ih hl ha]

/-- **The map of a list in which no name stands twice** has the entries of the list. -/
theorem perm_entries_ofList (h : (l.map Prod.fst).Nodup) : l.Perm (ofList l).entries := by
  have hl : l.Nodup := List.Nodup.of_map Prod.fst h
  have hentries : (ofList l).entries.Nodup := List.Nodup.of_map Prod.fst (nodup_entries _)
  rw [List.perm_ext_iff_of_nodup hl hentries]
  intro e
  constructor
  · intro he
    rw [← find?_eq_some_iff, find?_ofList_of_nodup e.1 h]
    exact valueOf?_eq_some_of_mem h he
  · exact mem_of_mem_ofList

theorem entries_ofList_of_ascending (h : l.Pairwise fun a b => a.1 < b.1) : (ofList l).entries = l :=
  congrArg entries (ofList_entries ⟨l, h⟩)

end NameMap
end DeployInventory
