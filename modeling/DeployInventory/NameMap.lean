/-!
# NameMap — finite maps keyed by names, listed in ascending order

A map is its list of entries, which ascends by name, so two maps that answer every look-up alike are equal
(`NameMap.ext_find?`). What `insert` and `map` do is said through `find?`.
-/
namespace DeployInventory

universe u v

/-- **A finite map from names to values**, its entries ascending by name. -/
structure NameMap (α : Type u) where
  entries : List (String × α)
  ascending : entries.Pairwise (fun a b => a.1 < b.1)

namespace NameMap

variable {α : Type u} {β : Type v}

def empty : NameMap α := ⟨[], .nil⟩

instance : Inhabited (NameMap α) := ⟨empty⟩

/-- The value under a name in a list of entries: the first one that carries it. -/
def valueOf? (name : String) : List (String × α) → Option α
  | [] => none
  | (n, a) :: rest => if n = name then some a else valueOf? name rest

def find? (m : NameMap α) (name : String) : Option α := valueOf? name m.entries

def contains (m : NameMap α) (name : String) : Bool := (m.find? name).isSome

/-- The names that have a value, ascending. -/
def names (m : NameMap α) : List String := m.entries.map Prod.fst

/-- The values, in the order of their names. -/
def values (m : NameMap α) : List α := m.entries.map Prod.snd

/-- Puts an entry before the first larger name, in place of an equal one. -/
def insertEntry (name : String) (a : α) : List (String × α) → List (String × α)
  | [] => [(name, a)]
  | e :: rest =>
    if name < e.1 then (name, a) :: e :: rest
    else if name = e.1 then (name, a) :: rest
    else e :: insertEntry name a rest

theorem mem_insertEntry {name : String} {a : α} {e : String × α} :
    ∀ {l : List (String × α)}, e ∈ insertEntry name a l → e = (name, a) ∨ e ∈ l
  | [], h => by simpa [insertEntry] using h
  | f :: rest, h => by
    unfold insertEntry at h
    split at h
    · simpa using h
    · split at h
      · simp only [List.mem_cons] at h ⊢
        grind
      · simp only [List.mem_cons] at h ⊢
        rcases h with h | h
        · exact .inr (.inl h)
        · rcases mem_insertEntry h with h | h
          · exact .inl h
          · exact .inr (.inr h)

theorem pairwise_insertEntry (name : String) (a : α) :
    ∀ {l : List (String × α)}, l.Pairwise (fun x y => x.1 < y.1) →
      (insertEntry name a l).Pairwise (fun x y => x.1 < y.1)
  | [], _ => by simp [insertEntry]
  | e :: rest, h => by
    have hr := List.pairwise_cons.1 h
    unfold insertEntry
    split
    · rename_i hlt
      refine List.pairwise_cons.2 ⟨fun x hx => ?_, h⟩
      rcases List.mem_cons.1 hx with rfl | hx
      · exact hlt
      · exact String.lt_trans hlt (hr.1 x hx)
    · split
      · rename_i heq
        exact List.pairwise_cons.2 ⟨fun x hx => heq ▸ hr.1 x hx, hr.2⟩
      · refine List.pairwise_cons.2 ⟨fun x hx => ?_, pairwise_insertEntry name a hr.2⟩
        rcases mem_insertEntry hx with rfl | hx
        · grind
        · exact hr.1 x hx

/-- Stores a value under a name, in place of the one stored there. -/
def insert (m : NameMap α) (name : String) (a : α) : NameMap α :=
  ⟨insertEntry name a m.entries, pairwise_insertEntry name a m.ascending⟩

def map (f : α → β) (m : NameMap α) : NameMap β :=
  ⟨m.entries.map (fun e => (e.1, f e.2)), by
    rw [List.pairwise_map]
    exact m.ascending⟩

/-- The map of a list of entries; of two with one name the later counts. -/
def ofList (l : List (String × α)) : NameMap α := l.foldl (fun m e => m.insert e.1 e.2) empty

/-- Changes the value under a name, which is `create` when there is none. -/
def update (m : NameMap α) (name : String) (create : α) (change : α → α) : NameMap α :=
  m.insert name (change ((m.find? name).getD create))

def size (m : NameMap α) : Nat := m.entries.length

@[simp] theorem find?_empty (name : String) : (empty : NameMap α).find? name = none := rfl

theorem valueOf?_insertEntry (name : String) (a : α) (n : String) :
    ∀ {l : List (String × α)}, l.Pairwise (fun x y => x.1 < y.1) →
      valueOf? n (insertEntry name a l) = if name = n then some a else valueOf? n l
  | [], _ => by simp [insertEntry, valueOf?]
  | e :: rest, h => by
    have hr := List.pairwise_cons.1 h
    unfold insertEntry
    split
    · simp [valueOf?]
    · split
      · rename_i heq
        by_cases hn : name = n
        · simp [valueOf?, hn]
        · simp [valueOf?, hn, ← heq]
      · rename_i hne
        rw [valueOf?.eq_2, valueOf?_insertEntry name a n hr.2, valueOf?.eq_2]
        by_cases hn : name = n
        · simp [hn, show e.1 ≠ n from fun h => hne (hn.trans h.symm)]
        · simp [hn]

@[simp] theorem find?_insert (m : NameMap α) (name : String) (a : α) (n : String) :
    (m.insert name a).find? n = if name = n then some a else m.find? n :=
  valueOf?_insertEntry name a n m.ascending

theorem find?_insert_self (m : NameMap α) (name : String) (a : α) : (m.insert name a).find? name = some a := by
  simp

theorem find?_update (m : NameMap α) (name : String) (create : α) (change : α → α) (n : String) :
    (m.update name create change).find? n =
      if name = n then some (change ((m.find? name).getD create)) else m.find? n := by
  simp [update]

theorem valueOf?_map (f : α → β) (n : String) :
    ∀ l : List (String × α), valueOf? n (l.map (fun e => (e.1, f e.2))) = (valueOf? n l).map f
  | [] => rfl
  | e :: rest => by
    simp only [List.map_cons, valueOf?, valueOf?_map f n rest]
    split <;> rfl

@[simp] theorem find?_map (f : α → β) (m : NameMap α) (n : String) : (m.map f).find? n = (m.find? n).map f :=
  valueOf?_map f n m.entries

theorem valueOf?_eq_some {n : String} {a : α} :
    ∀ {l : List (String × α)}, l.Pairwise (fun x y => x.1 < y.1) → (valueOf? n l = some a ↔ (n, a) ∈ l)
  | [], _ => by simp [valueOf?]
  | e :: rest, h => by
    have hr := List.pairwise_cons.1 h
    by_cases hn : e.1 = n
    · simp only [valueOf?, hn, if_pos, Option.some.injEq, List.mem_cons]
      constructor
      · rintro rfl
        exact .inl (by rw [← hn])
      · rintro (h | h)
        · exact congrArg Prod.snd h.symm
        · exact absurd (hn ▸ hr.1 _ h) (String.lt_irrefl _)
    · simp only [valueOf?, hn, if_neg, not_false_eq_true, List.mem_cons, valueOf?_eq_some hr.2]
      constructor
      · exact .inr
      · rintro (h | h)
        · exact absurd (congrArg Prod.fst h.symm) hn
        · exact h

/-- A name has the value of the entry that carries it. -/
theorem find?_eq_some_iff {m : NameMap α} {n : String} {a : α} : m.find? n = some a ↔ (n, a) ∈ m.entries :=
  valueOf?_eq_some m.ascending

theorem mem_names {m : NameMap α} {n : String} : n ∈ m.names ↔ ∃ a, m.find? n = some a := by
  simp only [names, List.mem_map, find?_eq_some_iff]
  constructor
  · rintro ⟨⟨k, a⟩, h, rfl⟩
    exact ⟨a, h⟩
  · rintro ⟨a, h⟩
    exact ⟨(n, a), h, rfl⟩

theorem length_names (m : NameMap α) : m.names.length = m.size := List.length_map _

theorem eq_of_mem_iff :
    ∀ {l k : List (String × α)}, l.Pairwise (fun x y => x.1 < y.1) → k.Pairwise (fun x y => x.1 < y.1) →
      (∀ e, e ∈ l ↔ e ∈ k) → l = k
  | [], [], _, _, _ => rfl
  | [], e :: _, _, _, h => absurd ((h e).2 List.mem_cons_self) (by simp)
  | e :: _, [], _, _, h => absurd ((h e).1 List.mem_cons_self) (by simp)
  | e :: l, f :: k, hl, hk, h => by
    have hl' := List.pairwise_cons.1 hl
    have hk' := List.pairwise_cons.1 hk
    have hef : e = f := by
      rcases List.mem_cons.1 ((h e).1 List.mem_cons_self) with he | he
      · exact he
      · rcases List.mem_cons.1 ((h f).2 List.mem_cons_self) with hf | hf
        · exact hf.symm
        · exact absurd (hl'.1 _ hf) (String.lt_asymm (hk'.1 _ he))
    subst hef
    rw [eq_of_mem_iff hl'.2 hk'.2 fun x => ?_]
    have hx := h x
    simp only [List.mem_cons] at hx
    constructor
    · intro hm
      exact (hx.1 (.inr hm)).resolve_left fun he => String.lt_irrefl _ (he ▸ hl'.1 _ hm)
    · intro hm
      exact (hx.2 (.inr hm)).resolve_left fun he => String.lt_irrefl _ (he ▸ hk'.1 _ hm)

/-- **Maps that answer every look-up alike are equal.** -/
theorem ext_find? {m k : NameMap α} (h : ∀ n, m.find? n = k.find? n) : m = k := by
  cases m with
  | mk l hl =>
    cases k with
    | mk k hk =>
      have : l = k := eq_of_mem_iff hl hk fun e => by
        have := h e.1
        constructor
        · intro hm
          have he := (find?_eq_some_iff (m := ⟨l, hl⟩)).2 hm
          exact (find?_eq_some_iff (m := ⟨k, hk⟩)).1 (this ▸ he)
        · intro hm
          have he := (find?_eq_some_iff (m := ⟨k, hk⟩)).2 hm
          exact (find?_eq_some_iff (m := ⟨l, hl⟩)).1 (this.symm ▸ he)
      subst this
      rfl

end NameMap

end DeployInventory
