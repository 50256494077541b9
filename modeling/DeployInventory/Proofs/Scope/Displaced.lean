import DeployInventory.Proofs.Inventory.Replay
import DeployInventory.Proofs.Scope.Precedence
/-!
# Proofs.Scope.Displaced — an override that was made too early

The overrides of a scope stand in the order of their first use. Where one was made before its time, empty, all that is
assigned later finds it at that place (`Scope.Displaced.assign`). Nothing else differs, and a look-up can notice it only
where a name is contested: where it decided the name, and one of the overrides that it stands under now defines the name
too (`Scope.Displaced.find?_share`).
-/
namespace DeployInventory

open VariableList (Defines)

namespace Scope

/-! ## Overrides in two runs -/

theorem map_assignOverride (k : String) (a : Assignment) (l : List Override) :
    (assignOverride k a l).map (·.query.environment) = addName (l.map (·.query.environment)) k := by
  have hfresh : (⟨⟨k⟩, []⟩ : Override).query.environment = k := rfl
  rw [assignOverride_eq_changeNamed]
  refine map_changeNamed (fun o : Override => o.query.environment) hfresh (fun _ ho => ?_) l
  exact ho

theorem map_assignOverride_of_mem {k : String} {l : List Override} (hk : k ∈ l.map (·.query.environment))
    (a : Assignment) : (assignOverride k a l).map (·.query.environment) = l.map (·.query.environment) := by
  rw [map_assignOverride, addName, if_pos hk]

theorem length_assignOverride {k : String} {l : List Override} (hk : k ∈ l.map (·.query.environment))
    (a : Assignment) : (assignOverride k a l).length = l.length := by
  simpa using congrArg List.length (map_assignOverride_of_mem hk a)

theorem assignOverride_append_of_mem {k : String} (a : Assignment) : ∀ {l : List Override} (l' : List Override),
    k ∈ l.map (·.query.environment) → assignOverride k a (l ++ l') = assignOverride k a l ++ l'
  | [], _, hk => by cases hk
  | o :: l, l', hk => by
    rw [List.cons_append, assignOverride, assignOverride]
    by_cases ho : o.query.environment = k
    · rw [if_pos ho, if_pos ho, List.cons_append]
    · have hl : k ∈ l.map (·.query.environment) := (List.mem_cons.1 hk).resolve_left (Ne.symm ho)
      rw [if_neg ho, if_neg ho, assignOverride_append_of_mem a l' hl, List.cons_append]

theorem assignOverride_append_of_notMem {k : String} (a : Assignment) : ∀ {l : List Override} (l' : List Override),
    k ∉ l.map (·.query.environment) → assignOverride k a (l ++ l') = l ++ assignOverride k a l'
  | [], _, _ => rfl
  | o :: l, l', hk => by
    obtain ⟨ho, hl⟩ := not_or.1 (List.mem_cons.not.1 hk)
    rw [List.cons_append, assignOverride, if_neg (Ne.symm ho), assignOverride_append_of_notMem a l' hl,
      List.cons_append]

theorem assignOverride_of_notMem {k : String} {l : List Override} (hk : k ∉ l.map (·.query.environment))
    (a : Assignment) : assignOverride k a l = l ++ [⟨⟨k⟩, VariableList.assign [] a⟩] := by
  simpa [assignOverride] using assignOverride_append_of_notMem a [] hk

/-- **Overrides of which one is displaced**: in the second list it was made, empty, when there were `made` others. In
the first it is made on its first use, if it comes to that. -/
inductive DisplacedOverride (made : Nat) (environment : String) : List Override → List Override → Prop where
  | unused (before after : List Override) (hmade : before.length = made)
      (hbefore : environment ∉ before.map (·.query.environment))
      (hafter : environment ∉ after.map (·.query.environment)) :
      DisplacedOverride made environment (before ++ after) (before ++ ⟨⟨environment⟩, []⟩ :: after)
  | used (before between : List Override) (o : Override) (after : List Override) (hmade : before.length = made)
      (hbefore : environment ∉ before.map (·.query.environment))
      (hbetween : environment ∉ between.map (·.query.environment)) (ho : o.query.environment = environment) :
      DisplacedOverride made environment (before ++ (between ++ o :: after)) (before ++ o :: (between ++ after))

variable {made : Nat} {e : String} {l l' : List Override}

/-- **Whatever is assigned finds the displaced override where it is.** -/
theorem DisplacedOverride.assign (h : DisplacedOverride made e l l') (k : String) (a : Assignment) :
    DisplacedOverride made e (assignOverride k a l) (assignOverride k a l') := by
  cases h with
  | unused before after hmade hbefore hafter =>
    by_cases hk : k ∈ before.map (·.query.environment)
    · rw [assignOverride_append_of_mem a _ hk, assignOverride_append_of_mem a _ hk]
      refine .unused _ _ ((length_assignOverride hk a).trans hmade) ?_ hafter
      rwa [map_assignOverride_of_mem hk]
    · rw [assignOverride_append_of_notMem a _ hk, assignOverride_append_of_notMem a _ hk, assignOverride]
      split
      · -- the first use of the displaced override: in the other run it is made now
        rename_i hke
        cases hke
        rw [assignOverride_of_notMem hafter]
        have hused := DisplacedOverride.used before after ⟨⟨e⟩, VariableList.assign [] a⟩ [] hmade hbefore hafter rfl
        rwa [List.append_nil] at hused
      · rename_i hke
        refine .unused _ _ hmade hbefore ?_
        rw [map_assignOverride, mem_addName, not_or]
        exact ⟨hke, hafter⟩
  | used before between o after hmade hbefore hbetween ho =>
    by_cases hk : k ∈ before.map (·.query.environment)
    · rw [assignOverride_append_of_mem a _ hk, assignOverride_append_of_mem a _ hk]
      refine .used _ _ o after ((length_assignOverride hk a).trans hmade) ?_ hbetween ho
      rwa [map_assignOverride_of_mem hk]
    · rw [assignOverride_append_of_notMem a _ hk, assignOverride_append_of_notMem a _ hk]
      by_cases hb : k ∈ between.map (·.query.environment)
      · have hko : o.query.environment ≠ k := fun hko => hbetween (ho ▸ hko ▸ hb)
        rw [assignOverride_append_of_mem a _ hb, assignOverride, if_neg hko, assignOverride_append_of_mem a _ hb]
        refine .used before _ o after hmade hbefore ?_ ho
        rwa [map_assignOverride_of_mem hb]
      · rw [assignOverride_append_of_notMem a _ hb, assignOverride, assignOverride,
          assignOverride_append_of_notMem a _ hb]
        split
        · exact .used before between _ after hmade hbefore hbetween ho
        · exact .used before between o _ hmade hbefore hbetween ho

/-- **A scope, and what it is where one override is displaced.** -/
structure Displaced (made : Nat) (environment : String) (s t : Scope) : Prop where
  entries : s.entries = t.entries
  overrides : DisplacedOverride made environment s.overrides t.overrides

variable {s t : Scope}

theorem Displaced.assign (h : s.Displaced made e t) (a : Assignment) : (s.assign a).Displaced made e (t.assign a) := by
  unfold Scope.assign
  cases a.environment with
  | none => exact ⟨congrArg (VariableList.assign · a) h.entries, h.overrides⟩
  | some k => exact ⟨h.entries, h.overrides.assign k a⟩

/-! ## What a look-up notices -/

variable {environments : Hierarchy} {origin environment name : String}

/-- **A name that overrides contest**: it is decided by the override for one environment, but one of those that were
made before that override, and after the first `made`, defines it too. Both match the environment that is looked
from. -/
inductive Contested (s : Scope) (made : Nat) (e : String) (environments : Hierarchy) (environment name : String) :
    Prop where
  | intro (before : List Override) (p : Override) (between : List Override) (o : Override) (after : List Override)
      (hat : s.overrides = before ++ p :: (between ++ o :: after)) (hmade : made ≤ before.length)
      (ho : o.query.environment = e) (hpmatches : p.Matches environments environment) (hpdef : Defines p.entries name)
      (homatches : o.Matches environments environment) (hodef : Defines o.entries name)
      (hlast : ∀ q ∈ after, q.Matches environments environment → ¬ Defines q.entries name) :
      Contested s made e environments environment name

/-- **A look-up notices a displaced override only where the name is contested.** -/
theorem Displaced.find?_share (h : s.Displaced made e t) (hfree : ¬ s.Contested made e environments environment name) :
    (s.share environments origin environment).find? name = (t.share environments origin environment).find? name := by
  obtain ⟨entries, overrides⟩ := s
  obtain ⟨_, overrides'⟩ := t
  obtain ⟨rfl, hoverrides⟩ := h
  rw [Scope.find?_share, Scope.find?_share]
  refine congrArg (Option.or · _) ?_
  dsimp only at hoverrides ⊢
  cases hoverrides with
  | unused before after hmade hbefore hafter =>
    have hempty : (Override.share environments origin environment ⟨⟨e⟩, []⟩).find? name = none := by
      rw [Override.find?_share_eq_none_iff]
      rintro - ⟨_, h, -⟩
      cases h
    simp only [List.flatMap_append, List.flatMap_cons, LayerStack.find?_append, hempty, Option.or_none]
  | used before between o after hmade hbefore hbetween ho =>
    simp only [List.flatMap_append, List.flatMap_cons, LayerStack.find?_append, Option.or_assoc]
    cases hafter : LayerStack.find? (after.flatMap (Override.share environments origin environment)) name with
    | some r => rfl
    | none =>
      rw [Option.none_or, Option.none_or, ← Option.or_assoc, ← Option.or_assoc]
      refine congrArg (Option.or · _) ?_
      by_cases hnone : (o.share environments origin environment).find? name = none
      · rw [hnone, Option.none_or, Option.or_none]
      · -- the override decides the name, so none of those that it stands under now defines it
        rw [LayerStack.find?_flatMap_eq_none_iff] at hafter
        rw [Override.find?_share_eq_none_iff, Classical.not_imp, not_not] at hnone
        have hbetween : LayerStack.find? (between.flatMap (Override.share environments origin environment)) name =
            none := by
          rw [LayerStack.find?_flatMap_eq_none_iff]
          intro p hp
          rw [Override.find?_share_eq_none_iff]
          intro hpmatches hpdef
          obtain ⟨first, last, rfl⟩ := List.append_of_mem hp
          refine hfree ⟨before ++ first, p, last, o, after, by simp, by simp [hmade], ho, hpmatches, hpdef, hnone.1,
            hnone.2, fun q hq => ?_⟩
          exact Override.find?_share_eq_none_iff.1 (hafter q hq)
        rw [hbetween, Option.none_or, Option.or_none]

end Scope

end DeployInventory
