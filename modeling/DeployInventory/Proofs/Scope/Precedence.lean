import DeployInventory.Proofs.Checked
import DeployInventory.Proofs.EnvironmentQuery
import DeployInventory.Proofs.Inventory.Consistent
import DeployInventory.Proofs.Layers.Lookup
/-!
# Proofs.Scope.Precedence — which of its lists a scope takes a name from

As seen from an environment, a scope's own variables lie under its overrides, and overrides declared later lie above
those declared earlier; those that do not match the environment are not there (`layers_eq_share`). So a name is decided
by the last matching override that defines it, else by the scope's own variables (`Scope.find?_share_eq_some_iff`).
-/
namespace DeployInventory

open VariableList (Defines Last Newest)

/-- Whether an override is for an environment: for the environment itself or for one that it inherits from. -/
def Override.Matches (o : Override) (environments : Hierarchy) (environment : String) : Prop :=
  environments.AtOrAbove o.query.environment environment

open Classical in
/-- What an override adds to a stack: its layer where it matches. -/
noncomputable def Override.share (environments : Hierarchy) (origin environment : String) (o : Override) : LayerStack :=
  if o.Matches environments environment then [⟨origin ++ o.query.text, o.entries⟩] else []

namespace Scope

/-- What a scope adds to a stack. -/
noncomputable def share (s : Scope) (environments : Hierarchy) (origin environment : String) : LayerStack :=
  ⟨origin, s.entries⟩ :: s.overrides.flatMap (Override.share environments origin environment)

/-- Whether a scope defines a name for an environment: in its own variables or in a matching override. -/
def DefinesFor (s : Scope) (environments : Hierarchy) (environment name : String) : Prop :=
  Defines s.entries name ∨ ∃ o ∈ s.overrides, o.Matches environments environment ∧ Defines o.entries name

/-- **The list of a scope that decides a name**, with the suffix of its label: the last matching override that defines
the name, else the scope's own variables. -/
inductive Decides (s : Scope) (environments : Hierarchy) (environment name : String) :
    String → VariableList → Prop where
  | own (hnone : ∀ o ∈ s.overrides, o.Matches environments environment → ¬ Defines o.entries name) :
      Decides s environments environment name "" s.entries
  | override (before : List Override) (o : Override) (after : List Override) (hat : s.overrides = before ++ o :: after)
      (hmatches : o.Matches environments environment) (hdef : Defines o.entries name)
      (hlast : ∀ p ∈ after, p.Matches environments environment → ¬ Defines p.entries name) :
      Decides s environments environment name o.query.text o.entries

end Scope

variable {environments : Hierarchy} {origin environment name : String} {r : ResolvedVariable}

namespace Override

variable {o : Override}

theorem mem_share_iff {l : Layer} : l ∈ o.share environments origin environment ↔
    o.Matches environments environment ∧ l = ⟨origin ++ o.query.text, o.entries⟩ := by
  unfold share
  by_cases ho : o.Matches environments environment
  · simp [ho]
  · simp [ho]

theorem find?_share_eq_none_iff : (o.share environments origin environment).find? name = none ↔
    (o.Matches environments environment → ¬ Defines o.entries name) := by
  unfold share
  by_cases ho : o.Matches environments environment
  · rw [if_pos ho, LayerStack.find?_singleton_eq_none_iff]
    simp [ho]
  · rw [if_neg ho, LayerStack.find?_nil]
    simp [ho]

theorem find?_share_eq_some_iff_last : (o.share environments origin environment).find? name = some r ↔
    o.Matches environments environment ∧ r.origin = origin ++ o.query.text ∧ Last o.entries name r.entry := by
  unfold share
  by_cases ho : o.Matches environments environment
  · rw [if_pos ho, LayerStack.find?_singleton_eq_some_iff_last]
    simp [ho]
  · rw [if_neg ho, LayerStack.find?_nil]
    simp [ho]

end Override

namespace Scope

theorem overrideLayers_eq_flatMap_share : ∀ {overrides : List Override} {ls : List Layer},
    overrideLayers environments origin environment overrides = .ok ls →
      ls = overrides.flatMap (Override.share environments origin environment)
  | [], _, h => by
    cases h
    rfl
  | o :: rest, ls, h => by
    unfold overrideLayers at h
    obtain ⟨included, hincluded, h⟩ := bind_eq_ok_iff.1 h
    obtain ⟨above, habove, h⟩ := bind_eq_ok_iff.1 h
    have hmatches : included = true ↔ o.Matches environments environment :=
      EnvironmentQuery.atOrAbove_iff_of_includes hincluded
    rw [← pure_eq_ok_iff.1 h, List.flatMap_cons, ← overrideLayers_eq_flatMap_share habove, Override.share]
    simp only [← hmatches]
    cases included with
    | true => rfl
    | false => rfl

variable {s : Scope}

/-- **The layers of a scope**, where no query runs into an error. -/
theorem layers_eq_share {ls : List Layer} (h : s.layers environments origin environment = .ok ls) :
    ls = s.share environments origin environment := by
  unfold layers at h
  obtain ⟨above, habove, h⟩ := bind_eq_ok_iff.1 h
  rw [← pure_eq_ok_iff.1 h, overrideLayers_eq_flatMap_share habove]
  rfl

theorem mem_share_iff {l : Layer} : l ∈ s.share environments origin environment ↔ l = ⟨origin, s.entries⟩ ∨
    ∃ o ∈ s.overrides, o.Matches environments environment ∧ l = ⟨origin ++ o.query.text, o.entries⟩ := by
  rw [share, List.mem_cons, List.mem_flatMap]
  simp only [Override.mem_share_iff]

theorem find?_share : (s.share environments origin environment).find? name =
    (LayerStack.find? (s.overrides.flatMap (Override.share environments origin environment)) name).or
      (LayerStack.find? [⟨origin, s.entries⟩] name) :=
  LayerStack.find?_cons _ _

theorem find?_share_eq_none_iff :
    (s.share environments origin environment).find? name = none ↔ ¬ s.DefinesFor environments environment name := by
  rw [find?_share, Option.or_eq_none_iff, LayerStack.find?_flatMap_eq_none_iff,
    LayerStack.find?_singleton_eq_none_iff]
  simp only [Override.find?_share_eq_none_iff]
  unfold DefinesFor
  rw [not_or, and_comm]
  simp

/-- **A scope takes a name from the list that decides it, and the last entry there.** -/
theorem find?_share_eq_some_iff_last : (s.share environments origin environment).find? name = some r ↔
    ∃ label l, s.Decides environments environment name label l ∧ r.origin = origin ++ label ∧ Last l name r.entry := by
  rw [find?_share, Option.or_eq_some_iff, LayerStack.find?_flatMap_eq_none_iff, LayerStack.find?_flatMap,
    findSome?_reverse_eq_some_iff, LayerStack.find?_singleton_eq_some_iff_last]
  simp only [Override.find?_share_eq_none_iff, Override.find?_share_eq_some_iff_last]
  constructor
  · rintro (⟨before, o, after, hat, ⟨hmatches, horigin, hlast⟩, hafter⟩ | ⟨hnone, horigin, hlast⟩)
    · exact ⟨_, _, .override before o after hat hmatches hlast.defines hafter, horigin, hlast⟩
    · exact ⟨_, _, .own hnone, by simpa using horigin, hlast⟩
  · rintro ⟨label, l, hdec, horigin, hlast⟩
    cases hdec with
    | own hnone => exact .inr ⟨hnone, by simpa using horigin, hlast⟩
    | override before o after hat hmatches _ hafter =>
      exact .inl ⟨before, o, after, hat, ⟨hmatches, horigin, hlast⟩, hafter⟩

theorem Decides.dated {label : String} {l : VariableList} (hs : s.Consistent)
    (hdec : s.Decides environments environment name label l) : l.Dated := by
  cases hdec with
  | own _ => exact hs.entries
  | override before o after hat _ _ _ => exact hs.overrides o (by simp [hat])

/-- **A scope takes a name from the list that decides it, and the newest entry there.** -/
theorem find?_share_eq_some_iff (hs : s.Consistent) : (s.share environments origin environment).find? name = some r ↔
    ∃ label l, s.Decides environments environment name label l ∧ r.origin = origin ++ label ∧
      Newest l name r.entry := by
  rw [find?_share_eq_some_iff_last]
  refine exists_congr fun label => exists_congr fun l => and_congr_right fun hdec => and_congr_right fun _ => ?_
  exact VariableList.last_iff_newest (hdec.dated hs)

end Scope

end DeployInventory
