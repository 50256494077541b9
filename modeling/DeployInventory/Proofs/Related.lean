import DeployInventory.Proofs.Exchange
/-!
# Proofs.Related — two states that receive the same edits

A relation between two states is kept by an edit of both when it is kept in the views that the edit is routed to
(`Routed.related`). Tables are related when they have the same names and the members under them are (`NameMap.Related`);
an edit of one member keeps that when it does for the member (`NameMap.Related.touch`).
-/
namespace DeployInventory

universe u v w x

section Runs

variable {σ : Type u} {ε : Type v} {τ : Type w} {δ : Type x} {act : σ → ε → σ} {view : σ → τ}
  {route : ε → Option δ} {act' : τ → δ → τ} {s t : σ}

theorem Routed.congr (h : Routed act view route act') (hst : view s = view t) (r : ε) :
    view (act s r) = view (act t r) := by
  rw [h, h, hst]

theorem Routed.related {Rel : τ → τ → Prop} (h : Routed act view route act') {r : ε}
    (hact : ∀ x a b, route r = some x → Rel a b → Rel (act' a x) (act' b x)) (hst : Rel (view s) (view t)) :
    Rel (view (act s r)) (view (act t r)) := by
  rw [h, h]
  cases hr : route r with
  | none => exact hst
  | some x => exact hact x _ _ hr hst

end Runs

namespace NameMap

/-- **Tables with the same names**, under each of which the members are related. -/
def Related {α β : Type} (Rel : String → α → β → Prop) (m : NameMap α) (m' : NameMap β) : Prop :=
  ∀ k, Option.Rel (Rel k) (m.find? k) (m'.find? k)

namespace Related

section Members

variable {α β : Type} {Rel Rel' : String → α → β → Prop} {m : NameMap α} {m' : NameMap β} {k : String} {a : α} {b : β}

theorem find?_cases (h : m.Related Rel m') (k : String) :
    (m.find? k = none ∧ m'.find? k = none) ∨ ∃ a b, m.find? k = some a ∧ m'.find? k = some b ∧ Rel k a b := by
  have hk := h k
  cases ha : m.find? k <;> cases hb : m'.find? k <;> rw [ha, hb] at hk <;> cases hk
  · exact .inl ⟨rfl, rfl⟩
  · rename_i hab
    exact .inr ⟨_, _, rfl, rfl, hab⟩

theorem find?_eq_none_iff (h : m.Related Rel m') : m.find? k = none ↔ m'.find? k = none := by
  obtain ⟨ha, hb⟩ | ⟨a, b, ha, hb, -⟩ := h.find?_cases k
  · rw [ha, hb]
    simp
  · rw [ha, hb]
    simp

theorem exists_right (h : m.Related Rel m') (ha : m.find? k = some a) : ∃ b, m'.find? k = some b ∧ Rel k a b := by
  obtain ⟨hnone, -⟩ | ⟨a', b, ha', hb, hab⟩ := h.find?_cases k
  · rw [hnone] at ha
    cases ha
  · rw [ha'] at ha
    cases ha
    exact ⟨b, hb, hab⟩

theorem mono (h : m.Related Rel m') (hmono : ∀ k a b, m.find? k = some a → Rel k a b → Rel' k a b) :
    m.Related Rel' m' := by
  intro k
  obtain ⟨ha, hb⟩ | ⟨a, b, ha, hb, hab⟩ := h.find?_cases k
  · rw [ha, hb]
    exact .none
  · rw [ha, hb]
    exact .some (hmono k a b ha hab)

/-- New members are put under one name; under the others the tables are related as they are. -/
theorem insert (hab : Rel k a b) (hrest : ∀ n, n ≠ k → Option.Rel (Rel n) (m.find? n) (m'.find? n)) :
    (m.insert k a).Related Rel (m'.insert k b) := by
  intro n
  rw [find?_insert, find?_insert]
  by_cases hn : k = n
  · subst hn
    rw [if_pos rfl, if_pos rfl]
    exact .some hab
  · rw [if_neg hn, if_neg hn]
    exact hrest n (Ne.symm hn)

end Members

section Table

variable {α : Type} {Rel : String → α → α → Prop} {m m' : NameMap α}

theorem refl (hrefl : ∀ k a, Rel k a a) (m : NameMap α) : m.Related Rel m := by
  intro k
  cases m.find? k with
  | none => exact .none
  | some a => exact .some (hrefl k a)

/-- What related members have in common, the tables have in common. -/
theorem map_eq {γ : Type} (h : m.Related Rel m') {f : α → γ} (hf : ∀ k a b, Rel k a b → f a = f b) :
    m.map f = m'.map f := by
  refine ext_find? fun k => ?_
  rw [find?_map, find?_map]
  obtain ⟨ha, hb⟩ | ⟨a, b, ha, hb, hab⟩ := h.find?_cases k
  · rw [ha, hb]
  · rw [ha, hb, Option.map_some, Option.map_some, hf k a b hab]

theorem eq (h : m.Related Rel m') (heq : ∀ k a b, Rel k a b → a = b) : m = m' := by
  refine ext_find? fun k => ?_
  obtain ⟨ha, hb⟩ | ⟨a, b, ha, hb, hab⟩ := h.find?_cases k
  · rw [ha, hb]
  · rw [ha, hb, heq k a b hab]

theorem touch {ε : Type} (h : m.Related Rel m') {key : ε → Option String} {fresh : String → α} {receive : α → ε → α}
    {r : ε} (hfresh : ∀ k, Rel k (fresh k) (fresh k))
    (hreceive : ∀ k a b, key r = some k → Rel k a b → Rel k (receive a r) (receive b r)) :
    (m.touch key fresh receive r).Related Rel (m'.touch key fresh receive r) := by
  intro k
  refine (find?_touch key fresh receive k).related (fun x a b hx hab => ?_) (h k)
  obtain ⟨rfl, hk⟩ := eq_of_guard_eq_some hx
  refine .some (hreceive k _ _ hk ?_)
  cases hab with
  | none => exact hfresh k
  | some hab => exact hab

theorem update (hrefl : ∀ k a, Rel k a a) {k : String} {a create : α} {change : α → α} (ha : m.find? k = some a)
    (hchange : Rel k a (change a)) : m.Related Rel (m.update k create change) := by
  intro n
  rw [find?_update]
  by_cases hn : k = n
  · subst hn
    rw [if_pos rfl, ha, Option.getD_some]
    exact .some hchange
  · rw [if_neg hn]
    exact refl hrefl m n

end Table

end Related

end NameMap

end DeployInventory
