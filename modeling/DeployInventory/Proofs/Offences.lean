import DeployInventory.Proofs.Checked
import Mathlib.Data.List.Lex
/-!
# Proofs.Offences — the first thing that is wrong with a nested structure

A computation over a nested structure fails where something is wrong with it. Each thing that is wrong stands at the end
of a path into the structure, and paths are ordered depth first: what is above comes before what is below, and where two
paths part, the earlier step decides. A traversal that stops at the first part that fails tells of the first offence
(`Judged.mapM`).
-/
namespace DeployInventory

variable {σ ε α β : Type}

/-- **What is wrong with a nested structure**: errors, each at the end of a path of steps. -/
abbrev Offences (σ ε : Type) := List σ → ε → Prop

namespace Offences

variable {before : σ → σ → Prop} {O O' : Offences σ ε} {p q : List σ} {e e' : ε} {x : Except ε α}

/-- **The first offence**, depth first. -/
structure First (before : σ → σ → Prop) (O : Offences σ ε) (p : List σ) (e : ε) : Prop where
  offends : O p e
  first : ∀ q e', O q e' → (q = p ∧ e' = e) ∨ List.Lex before p q

theorem First.unique [Std.Asymm before] (h : First before O p e) (h' : First before O q e') : e = e' := by
  rcases h.first q e' h'.offends with ⟨-, he⟩ | hpq
  · exact he.symm
  rcases h'.first p e h.offends with ⟨-, he⟩ | hqp
  · exact he
  · exact absurd hqp (Std.Asymm.asymm _ _ hpq)

/-- **Whether a computation fails as offences say**: with the first one, and not at all where there is none. -/
structure Judged (before : σ → σ → Prop) (O : Offences σ ε) (x : Except ε α) : Prop where
  ok : ∀ a, x = .ok a → ∀ p e, ¬ O p e
  error : ∀ e, x = .error e → ∃ p, First before O p e

theorem Judged.succeeds_iff (h : Judged before O x) : Succeeds x ↔ ∀ p e, ¬ O p e := by
  constructor
  · rintro ⟨a, ha⟩
    exact h.ok a ha
  · intro hnone
    cases x with
    | ok a => exact ⟨a, rfl⟩
    | error e =>
      obtain ⟨p, hp⟩ := h.error e rfl
      exact absurd hp.offends (hnone p e)

theorem Judged.eq_error_iff [Std.Asymm before] (h : Judged before O x) : x = .error e ↔ ∃ p, First before O p e := by
  refine ⟨h.error e, ?_⟩
  rintro ⟨p, hp⟩
  cases x with
  | ok a => exact absurd hp.offends (h.ok a rfl p e)
  | error e' =>
    obtain ⟨q, hq⟩ := h.error e' rfl
    rw [hq.unique hp]

theorem Judged.congr (h : Judged before O x) (hO : ∀ p e, O p e ↔ O' p e) : Judged before O' x := by
  obtain rfl : O = O' := funext fun p => funext fun e => propext (hO p e)
  exact h

theorem Judged.map {f : α → β} (h : Judged before O x) : Judged before O (x.map f) where
  ok b hb := by
    obtain ⟨a, ha, -⟩ := map_eq_ok_iff.1 hb
    exact h.ok a ha
  error e he := h.error e (map_eq_error_iff.1 he)

theorem judged_ok {a : α} (h : ∀ p e, ¬ O p e) : Judged before O (.ok a) where
  ok _ _ := h
  error e he := by cases he

theorem judged_error (h : ∀ q e', O q e' ↔ q = [] ∧ e' = e) : Judged before O (.error e : Except ε α) where
  ok a ha := by cases ha
  error e' he' := by
    cases he'
    exact ⟨[], (h [] e).2 ⟨rfl, rfl⟩, fun q e' hq => .inl ((h q e').1 hq)⟩

/-- The offences of the parts that steps lead to. -/
def ofParts (parts : List (σ × α)) (O : α → Offences σ ε) : Offences σ ε := fun p e =>
  ∃ s a q, p = s :: q ∧ (s, a) ∈ parts ∧ O a q e

/-- **A traversal fails at the first part that fails.** -/
theorem Judged.mapM {O : α → Offences σ ε} {f : α → Except ε β} : ∀ {parts : List (σ × α)},
    (parts.Pairwise fun c d => before c.1 d.1) → (∀ c ∈ parts, Judged before (O c.2) (f c.2)) →
    Judged before (ofParts parts O) (parts.mapM fun c => f c.2)
  | [], _, _ => judged_ok (by simp [ofParts])
  | (s, a) :: parts, horder, hparts => by
    obtain ⟨hs, horder⟩ := List.pairwise_cons.1 horder
    obtain ⟨ha, hparts⟩ := List.forall_mem_cons.1 hparts
    have hrest := Judged.mapM horder hparts
    have hsplit : ∀ p e, ofParts ((s, a) :: parts) O p e ↔ (∃ q, p = s :: q ∧ O a q e) ∨ ofParts parts O p e := by
      intro p e
      simp only [ofParts, List.mem_cons, Prod.mk.injEq]
      constructor
      · rintro ⟨t, b, q, rfl, ⟨rfl, rfl⟩ | hb, hq⟩
        · exact .inl ⟨q, rfl, hq⟩
        · exact .inr ⟨t, b, q, rfl, hb, hq⟩
      · rintro (⟨q, rfl, hq⟩ | ⟨t, b, q, rfl, hb, hq⟩)
        · exact ⟨s, a, q, rfl, .inl ⟨rfl, rfl⟩, hq⟩
        · exact ⟨t, b, q, rfl, .inr hb, hq⟩
    cases hfa : f a with
    | error e =>
      have hfails : ((s, a) :: parts).mapM (fun c => f c.2) = .error e := by
        rw [List.mapM_cons]
        simp only [hfa]
        rfl
      rw [hfails]
      obtain ⟨p, hp⟩ := ha.error e hfa
      refine ⟨fun b hb => (by cases hb), fun e' he' => ⟨s :: p, ?_⟩⟩
      cases he'
      refine ⟨(hsplit _ _).2 (.inl ⟨p, rfl, hp.offends⟩), fun q e' hq => ?_⟩
      rcases (hsplit _ _).1 hq with ⟨q, rfl, hpart⟩ | ⟨t, b, q, rfl, hb, -⟩
      · rcases hp.first q e' hpart with ⟨rfl, rfl⟩ | hlex
        · exact .inl ⟨rfl, rfl⟩
        · exact .inr (.cons hlex)
      · exact .inr (.rel (hs _ hb))
    | ok b =>
      have hgoes : ((s, a) :: parts).mapM (fun c => f c.2) = (parts.mapM fun c => f c.2).map (b :: ·) := by
        rw [List.mapM_cons]
        simp only [hfa]
        rfl
      rw [hgoes]
      -- nothing is wrong with this part, so the offences are those of the rest
      refine hrest.map.congr fun p e => ?_
      rw [hsplit]
      refine (or_iff_right ?_).symm
      rintro ⟨q, -, hq⟩
      exact ha.ok b hfa q e hq

/-- The offences of the members of a list, each below the step to its position. -/
def ofMembers (step : Nat → σ) (l : List α) (O : α → Offences σ ε) : Offences σ ε := fun p e =>
  ∃ i a q, p = step i :: q ∧ l[i]? = some a ∧ O a q e

theorem Judged.mapM_members {step : Nat → σ} {O : α → Offences σ ε} {f : α → Except ε β} {l : List α}
    (hstep : ∀ i j, i < j → before (step i) (step j)) (hl : ∀ a ∈ l, Judged before (O a) (f a)) :
    Judged before (ofMembers step l O) (l.mapM f) := by
  let parts : List (σ × α) := l.zipIdx.map fun c => (step c.2, c.1)
  have hparts : ∀ s a, (s, a) ∈ parts ↔ ∃ i, s = step i ∧ l[i]? = some a := by
    intro s a
    simp only [parts, List.mem_map, Prod.exists, Prod.mk.injEq, List.mem_zipIdx_iff_getElem?]
    constructor
    · rintro ⟨b, i, hi, rfl, rfl⟩
      exact ⟨i, rfl, hi⟩
    · rintro ⟨i, rfl, hi⟩
      exact ⟨a, i, hi, rfl, rfl⟩
  have horder : parts.Pairwise fun c d => before c.1 d.1 := by
    have hpositions : (l.zipIdx.map Prod.snd).Pairwise (· < ·) := by
      rw [List.zipIdx_map_snd]
      exact List.pairwise_lt_range' 1
    rw [List.pairwise_map] at hpositions ⊢
    exact hpositions.imp fun h => hstep _ _ h
  have hmapM : (parts.mapM fun c => f c.2) = l.mapM f := by
    conv_rhs => rw [← List.zipIdx_map_fst 0 l]
    rw [List.mapM_map, List.mapM_map]
    rfl
  have hjudged : Judged before (ofParts parts O) (parts.mapM fun c => f c.2) := Judged.mapM horder fun c hc => by
    obtain ⟨i, -, hi⟩ := (hparts c.1 c.2).1 hc
    exact hl c.2 (List.mem_of_getElem? hi)
  rw [← hmapM]
  refine hjudged.congr fun p e => ?_
  simp only [ofParts, ofMembers, hparts]
  constructor
  · rintro ⟨s, a, q, rfl, ⟨i, rfl, hi⟩, hq⟩
    exact ⟨i, a, q, rfl, hi, hq⟩
  · rintro ⟨i, a, q, rfl, hi, hq⟩
    exact ⟨_, a, q, rfl, ⟨i, rfl, hi⟩, hq⟩

end Offences
end DeployInventory
