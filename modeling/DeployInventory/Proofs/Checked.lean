import Mathlib.Data.List.Forall2
/-!
# Proofs.Checked — when a computation that can fail gives a result, and how it fails

A computation in steps gives a result when each of its steps does; one over a list, when it does at every place; one
that looks for the first place with something is decided by one place (`exists_of_findSomeM?_ne`). It fails only in ways
in which one of its steps does (`FailsOnly.bind`, `FailsOnly.mapM`).
-/
namespace DeployInventory

variable {ε α β : Type}

theorem bind_eq_ok_iff {x : Except ε α} {f : α → Except ε β} {b : β} :
    (x >>= f) = .ok b ↔ ∃ a, x = .ok a ∧ f a = .ok b := by
  cases x with
  | error e => simp [bind, Except.bind]
  | ok a => simp [bind, Except.bind]

/-- What follows a step counts only for what the step can give. -/
theorem bind_congr_of_ok {x : Except ε α} {f g : α → Except ε β} (h : ∀ a, x = .ok a → f a = g a) :
    (x >>= f) = (x >>= g) := by
  cases x with
  | error e => rfl
  | ok a => exact h a rfl

theorem map_eq_ok_iff {x : Except ε α} {f : α → β} {b : β} : x.map f = .ok b ↔ ∃ a, x = .ok a ∧ f a = b := by
  cases x with
  | error e => simp [Except.map]
  | ok a => simp [Except.map]

theorem map_eq_error_iff {x : Except ε α} {f : α → β} {e : ε} : x.map f = .error e ↔ x = .error e := by
  cases x with
  | error e' => simp [Except.map]
  | ok a => simp [Except.map]

theorem toOption_eq_some_iff {x : Except ε α} {a : α} : x.toOption = some a ↔ x = .ok a := by
  cases x with
  | error e => simp [Except.toOption]
  | ok b => simp [Except.toOption]

theorem ok_unique {x : Except ε α} {a b : α} (ha : x = .ok a) (hb : x = .ok b) : a = b :=
  Except.ok.inj (ha.symm.trans hb)

/-- A check of what a computation gives, if it gives something. -/
theorem exists_of_any {o : Option α} {p : α → Bool} (h : o.any p = true) : ∃ a, o = some a ∧ p a = true := by
  cases o with
  | none => cases h
  | some a => exact ⟨a, rfl, h⟩

theorem pure_eq_ok_iff {a b : α} : (pure a : Except ε α) = .ok b ↔ a = b := by
  simp [pure, Except.pure]

/-- **A checked function over a list gives a result when it does at every place.** -/
theorem mapM_eq_ok_iff {f : α → Except ε β} : ∀ {l : List α} {out : List β},
    l.mapM f = .ok out ↔ List.Forall₂ (fun a b => f a = .ok b) l out
  | [], out => by
    rw [List.mapM_nil, pure_eq_ok_iff, List.forall₂_nil_left_iff, eq_comm]
  | a :: l, out => by
    rw [List.mapM_cons, bind_eq_ok_iff, List.forall₂_cons_left_iff]
    constructor
    · rintro ⟨b, hb, h⟩
      obtain ⟨bs, hbs, h⟩ := bind_eq_ok_iff.1 h
      exact ⟨b, bs, hb, mapM_eq_ok_iff.1 hbs, (pure_eq_ok_iff.1 h).symm⟩
    · rintro ⟨b, bs, hb, hbs, rfl⟩
      exact ⟨b, hb, bind_eq_ok_iff.2 ⟨bs, mapM_eq_ok_iff.2 hbs, rfl⟩⟩

theorem forall₂_of_mem {R S : α → β → Prop} {l : List α} {k : List β} (h : List.Forall₂ R l k)
    (hRS : ∀ a ∈ l, ∀ b, R a b → S a b) : List.Forall₂ S l k := by
  induction h with
  | nil => exact .nil
  | cons hab _ ih =>
    obtain ⟨ha, hl⟩ := List.forall_mem_cons.1 hRS
    exact .cons (ha _ hab) (ih hl)

/-- Named lists side by side, told from the names and from what is named. -/
theorem forall₂_of_map_fst_snd {R : α → β → Prop} {l : List (String × α)} {k : List (String × β)}
    (hnames : l.map Prod.fst = k.map Prod.fst) (h : List.Forall₂ R (l.map Prod.snd) (k.map Prod.snd)) :
    List.Forall₂ (fun a b => a.1 = b.1 ∧ R a.2 b.2) l k := by
  induction l generalizing k with
  | nil =>
    cases k with
    | nil => exact .nil
    | cons b k => simp at hnames
  | cons a l ih =>
    cases k with
    | nil => simp at hnames
    | cons b k =>
      rw [List.map_cons, List.map_cons, List.cons.injEq] at hnames
      rw [List.map_cons, List.map_cons, List.forall₂_cons] at h
      exact .cons ⟨hnames.1, h.1⟩ (ih hnames.2 h.2)

/-- Computations that are the same place by place are the same over the lists. -/
theorem mapM_eq_of_forall₂ {γ : Type} {f : α → Except ε β} {g : γ → Except ε β} {l : List α} {k : List γ}
    (h : List.Forall₂ (fun a c => f a = g c) l k) : l.mapM f = k.mapM g := by
  induction h with
  | nil => rfl
  | cons hac _ ih => rw [List.mapM_cons, List.mapM_cons, hac, ih]

/-! ## Errors put in other words -/

section Words

variable {ε' : Type} {g : ε → ε'} {x : Except ε α}

theorem mapError_eq_ok_iff {a : α} : x.mapError g = .ok a ↔ x = .ok a := by
  cases x with
  | error e => simp [Except.mapError]
  | ok b => simp [Except.mapError]

theorem mapError_map {f : α → β} : (x.map f).mapError g = (x.mapError g).map f := by
  cases x <;> rfl

theorem mapError_bind {f : α → Except ε β} :
    (x >>= f).mapError g = x.mapError g >>= fun a => (f a).mapError g := by
  cases x <;> rfl

theorem mapError_mapM {f : α → Except ε β} (l : List α) :
    (l.mapM f).mapError g = l.mapM fun a => (f a).mapError g := by
  induction l with
  | nil => rfl
  | cons a l ih =>
    rw [List.mapM_cons, List.mapM_cons, mapError_bind, ← ih]
    refine congrArg _ (funext fun b => ?_)
    rw [mapError_bind]
    rfl

end Words

/-! ## The first of a list that gives something or fails -/

section First

variable {f : α → Except ε (Option β)} {a : α} {l before after : List α}

theorem findSomeM?_cons_none (ha : f a = .ok none) : (a :: l).findSomeM? f = l.findSomeM? f := by
  rw [List.findSomeM?, ha]
  rfl

theorem findSomeM?_cons_ne (ha : f a ≠ .ok none) : (a :: l).findSomeM? f = f a := by
  rw [List.findSomeM?]
  cases hfa : f a with
  | error e => rfl
  | ok found =>
    cases found with
    | none => exact absurd hfa ha
    | some b => rfl

theorem findSomeM?_append_none (hbefore : ∀ b ∈ before, f b = .ok none) :
    (before ++ after).findSomeM? f = after.findSomeM? f := by
  induction before with
  | nil => rfl
  | cons b before ih =>
    obtain ⟨hb, hbefore⟩ := List.forall_mem_cons.1 hbefore
    rw [List.cons_append, findSomeM?_cons_none hb, ih hbefore]

theorem findSomeM?_eq_ok_none_iff : l.findSomeM? f = .ok none ↔ ∀ a ∈ l, f a = .ok none := by
  induction l with
  | nil => simp [List.findSomeM?, pure_eq_ok_iff]
  | cons a l ih =>
    rw [List.forall_mem_cons]
    by_cases ha : f a = .ok none
    · rw [findSomeM?_cons_none ha, ih]
      simp [ha]
    · rw [findSomeM?_cons_ne ha]
      simp [ha]

/-- **Where the whole list does not give nothing, one place decides**, and nothing before it does. -/
theorem exists_of_findSomeM?_ne (hl : l.findSomeM? f ≠ .ok none) :
    ∃ before a after, l = before ++ a :: after ∧ (∀ b ∈ before, f b = .ok none) ∧ f a = l.findSomeM? f := by
  induction l with
  | nil => exact absurd rfl hl
  | cons a l ih =>
    by_cases ha : f a = .ok none
    · rw [findSomeM?_cons_none ha] at hl ⊢
      obtain ⟨before, b, after, rfl, hbefore, hb⟩ := ih hl
      exact ⟨a :: before, b, after, rfl, List.forall_mem_cons.2 ⟨ha, hbefore⟩, hb⟩
    · exact ⟨[], a, l, rfl, by simp, (findSomeM?_cons_ne ha).symm⟩

end First

/-! ## Ways to fail -/

def Succeeds (x : Except ε α) : Prop := ∃ a, x = .ok a

/-- **A computation that fails does so in one of some ways.** -/
def FailsOnly (x : Except ε α) (P : ε → Prop) : Prop := ∀ e, x = .error e → P e

section Ways

variable {x : Except ε α} {f : α → Except ε β} {P Q : ε → Prop}

theorem succeeds_iff_failsOnly : Succeeds x ↔ FailsOnly x fun _ => False := by
  cases x with
  | error e => simp [Succeeds, FailsOnly]
  | ok a => simp [Succeeds, FailsOnly]

theorem Succeeds.failsOnly (hx : Succeeds x) : FailsOnly x P := by
  obtain ⟨a, rfl⟩ := hx
  intro e he
  cases he

theorem Succeeds.bind (hx : Succeeds x) (hf : ∀ a, x = .ok a → Succeeds (f a)) : Succeeds (x >>= f) := by
  obtain ⟨a, ha⟩ := hx
  obtain ⟨b, hb⟩ := hf a ha
  exact ⟨b, bind_eq_ok_iff.2 ⟨a, ha, hb⟩⟩

theorem Succeeds.map {g : α → β} (hx : Succeeds x) : Succeeds (x.map g) := by
  obtain ⟨a, ha⟩ := hx
  exact ⟨g a, map_eq_ok_iff.2 ⟨a, ha, rfl⟩⟩

theorem succeeds_pure {a : α} : Succeeds (pure a : Except ε α) := ⟨a, rfl⟩

theorem FailsOnly.mono (hx : FailsOnly x P) (hPQ : ∀ e, P e → Q e) : FailsOnly x Q := fun e he => hPQ e (hx e he)

/-- **A computation in two steps fails only as one of them does.** -/
theorem FailsOnly.bind (hx : FailsOnly x P) (hf : ∀ a, x = .ok a → FailsOnly (f a) P) : FailsOnly (x >>= f) P := by
  cases x with
  | error e =>
    intro e' he
    cases he
    exact hx e rfl
  | ok a => exact hf a rfl

theorem FailsOnly.mapM : ∀ {l : List α}, (∀ a ∈ l, FailsOnly (f a) P) → FailsOnly (l.mapM f) P
  | [], _ => succeeds_pure.failsOnly
  | a :: l, h => by
    rw [List.mapM_cons]
    refine (h a List.mem_cons_self).bind fun b _ => ?_
    exact (FailsOnly.mapM fun c hc => h c (List.mem_cons_of_mem _ hc)).bind fun bs _ => succeeds_pure.failsOnly

theorem Succeeds.mapM {l : List α} (h : ∀ a ∈ l, Succeeds (f a)) : Succeeds (l.mapM f) :=
  succeeds_iff_failsOnly.2 (.mapM fun a ha => (h a ha).failsOnly)

end Ways

end DeployInventory
