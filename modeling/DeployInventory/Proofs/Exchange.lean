import DeployInventory.Proofs.Replay
/-!
# Proofs.Exchange — edits whose order does not count

Two edits commute on a state when they leave the same in either order. As for the repetition of a batch, a state is
taken apart into views, and of two edits of which a view sees at most one the order does not count there
(`view_commutes`). Tables and lists with named members leave it to the member that both edits name
(`NameMap.commutes_touch`, `commutes_touchNamed`).
-/
namespace DeployInventory

universe u v w x

/-- **Two edits commute on a state**: in either order they leave the same. -/
def Commutes {σ : Type u} {ε : Type v} (act : σ → ε → σ) (s : σ) (r q : ε) : Prop :=
  act (act s r) q = act (act s q) r

section View

variable {σ : Type u} {ε : Type v} {τ : Type w} {δ : Type x} {act : σ → ε → σ} {view : σ → τ}
  {route : ε → Option δ} {act' : τ → δ → τ} {s : σ} {r q : ε}

/-- **In a view two edits commute when what is routed to it does.** -/
theorem view_commutes (P : σ → Prop) (hr : ∀ s, P s → view (act s r) = (route r).elim (view s) (act' (view s)))
    (hq : ∀ s, P s → view (act s q) = (route q).elim (view s) (act' (view s))) (hs : P s) (hsr : P (act s r))
    (hsq : P (act s q)) (h : ∀ x y, route r = some x → route q = some y → Commutes act' (view s) x y) :
    view (act (act s r) q) = view (act (act s q) r) := by
  rw [hq _ hsr, hr _ hs, hr _ hsq, hq _ hs]
  cases hx : route r with
  | none => rfl
  | some x =>
    cases hy : route q with
    | none => rfl
    | some y => exact h x y hx hy

theorem Routed.commutes (hview : Routed act view route act')
    (h : ∀ x y, route r = some x → route q = some y → Commutes act' (view s) x y) :
    view (act (act s r) q) = view (act (act s q) r) :=
  view_commutes (fun _ => True) (fun s _ => hview s r) (fun s _ => hview s q) trivial trivial trivial h

end View

section Table

variable {α : Type u} {ε : Type v} {key : ε → Option String} {fresh : String → α} {receive : α → ε → α} {r q : ε}

theorem commutes_touchMember {fresh : α} {a : Option α} (h : Commutes receive (a.getD fresh) r q) :
    Commutes (touchMember receive fresh) a r q :=
  congrArg some h

/-- An edit passes to the member that it names. -/
theorem eq_of_guard_eq_some {k : String} {x : ε} (h : Option.guard (key · == some k) r = some x) :
    r = x ∧ key r = some k := by
  rw [Option.guard_eq_some_iff] at h
  exact ⟨h.1, by simpa using h.2⟩

/-- **Edits of a table commute when they do on the member that both name**, if there is one. -/
theorem NameMap.commutes_touch {m : NameMap α}
    (h : ∀ k, key r = some k → key q = some k → Commutes receive ((m.find? k).getD (fresh k)) r q) :
    Commutes (NameMap.touch key fresh receive) m r q := by
  refine ext_find? fun k => (find?_touch key fresh receive k).commutes fun x y hx hy => ?_
  obtain ⟨rfl, hr⟩ := eq_of_guard_eq_some hx
  obtain ⟨rfl, hq⟩ := eq_of_guard_eq_some hy
  exact commutes_touchMember (h k hr hq)

end Table

section Named

variable {α : Type u} {ε : Type v} {name : α → String} {key : ε → Option String} {fresh : String → α}
  {receive : α → ε → α} {r q : ε}

/-- **Edits of one member of a list commute when they do on that member.** Edits of two members need not: the one that
comes first is made first. -/
theorem commutes_touchNamed (hfresh : ∀ k, name (fresh k) = k)
    (hreceive : ∀ a r k, key r = some k → name a = k → name (receive a r) = k) {l : List α}
    (hl : (l.map name).Nodup) (hkeys : ∀ k n, key r = some k → key q = some n → k = n)
    (h : ∀ k, key r = some k → key q = some k →
      Commutes receive ((l.find? (name · == k)).getD (fresh k)) r q) :
    Commutes (touchNamed name key fresh receive) l r q := by
  have hnd : ∀ {s : List α} (r : ε), (s.map name).Nodup → ((touchNamed name key fresh receive s r).map name).Nodup :=
    fun r hs => nodup_touchNamed hfresh hreceive hs r
  refine ext_of_map_eq name (hnd q (hnd r hl)) ((map_touchNamed hfresh hreceive).commutes fun k n hr hq => ?_)
    fun n => (find?_touchNamed hfresh hreceive n).commutes fun x y hx hy => ?_
  · rw [hkeys k n hr hq]
    rfl
  · obtain ⟨rfl, hr⟩ := eq_of_guard_eq_some hx
    obtain ⟨rfl, hq⟩ := eq_of_guard_eq_some hy
    exact commutes_touchMember (h n hr hq)

end Named

end DeployInventory
