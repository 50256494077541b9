import DeployInventory.Proofs.Scope.Precedence
import DeployInventory.Resolution.Variables
/-!
# Proofs.Resolution.Projects — where a project takes its variables from

The variables of a project are the shares of its lineage on each other (`projectVariables_eq_flatMap_share`). A share
is what a project's scope adds, so the most specific definition of a name wins (`mostSpecific_of_projectVariables`).
-/
namespace DeployInventory

open VariableList (Newest)

theorem ResolveError.ofLineage_eq_ok_iff {α : Type} {x : Except LineageError α} {a : α} :
    ofLineage x = .ok a ↔ x = .ok a := by
  cases x with
  | error e => simp [ofLineage]
  | ok b => simp [ofLineage]

namespace Inventory

variable {inv : Inventory} {environment name project : String} {stack : LayerStack} {r : ResolvedVariable}

/-- What a project adds to a stack. -/
noncomputable def projectShare (inv : Inventory) (environment project : String) : LayerStack :=
  match inv.projects.find? project with
  | none => []
  | some p => p.scope.share (inv.hierarchy .environment) ("project:" ++ project) environment

/-- Whether a project defines a name for an environment: in its own variables or in a matching override. -/
def ProjectDefines (inv : Inventory) (environment name project : String) : Prop :=
  ∃ p, inv.projects.find? project = some p ∧ p.scope.DefinesFor (inv.hierarchy .environment) environment name

/-- **Whether a project gives a definition of a name for an environment**: the newest entry with the name of the list
that decides it in the project's scope. -/
def ProjectGives (inv : Inventory) (environment name project : String) (r : ResolvedVariable) : Prop :=
  ∃ p label l, inv.projects.find? project = some p ∧
    p.scope.Decides (inv.hierarchy .environment) environment name label l ∧
    r.origin = "project:" ++ project ++ label ∧ Newest l name r.entry

theorem find?_projectShare_eq_none_iff :
    (inv.projectShare environment project).find? name = none ↔ ¬ inv.ProjectDefines environment name project := by
  unfold projectShare ProjectDefines
  cases inv.projects.find? project with
  | none => simp [LayerStack.find?_nil]
  | some p =>
    simp only [Scope.find?_share_eq_none_iff, Option.some.injEq]
    simp

theorem Consistent.find?_projectShare_eq_some_iff (hinv : inv.Consistent) :
    (inv.projectShare environment project).find? name = some r ↔ inv.ProjectGives environment name project r := by
  unfold projectShare ProjectGives
  cases hp : inv.projects.find? project with
  | none => simp [LayerStack.find?_nil]
  | some p =>
    simp only [Scope.find?_share_eq_some_iff (hinv.projects project p hp).scope, Option.some.injEq]
    simp

theorem projectChainLayers_eq_flatMap_share : ∀ {chain : List String} {stack : LayerStack},
    inv.projectChainLayers environment chain = .ok stack → stack = chain.flatMap (inv.projectShare environment)
  | [], _, h => by
    cases h
    rfl
  | n :: rest, stack, h => by
    unfold projectChainLayers at h
    rw [List.flatMap_cons, projectShare]
    cases hn : inv.projects.find? n with
    | none =>
      rw [hn] at h
      exact projectChainLayers_eq_flatMap_share h
    | some p =>
      rw [hn] at h
      obtain ⟨own, hown, h⟩ := bind_eq_ok_iff.1 h
      obtain ⟨above, habove, h⟩ := bind_eq_ok_iff.1 h
      rw [← pure_eq_ok_iff.1 h, Scope.layers_eq_share hown, projectChainLayers_eq_flatMap_share habove]

/-- **The variables of a project** are what its lineage adds, project by project. -/
theorem projectVariables_eq_flatMap_share (h : inv.projectVariables project environment = .ok stack) :
    ∃ chain, inv.lineage .project project = .ok chain ∧ stack = chain.flatMap (inv.projectShare environment) := by
  unfold projectVariables at h
  obtain ⟨_, _, h⟩ := bind_eq_ok_iff.1 h
  obtain ⟨_, _, h⟩ := bind_eq_ok_iff.1 h
  obtain ⟨chain, hchain, h⟩ := bind_eq_ok_iff.1 (ResolveError.ofLineage_eq_ok_iff.1 h)
  exact ⟨chain, hchain, projectChainLayers_eq_flatMap_share h⟩

/-- **The most specific definition wins.** A name is defined when a project of the lineage defines it. The definition
is given by a project of the lineage from which no other one that defines the name inherits: there by the last matching
override with the name, else by the project's own variables, and in that list by the entry with the greatest id. -/
theorem mostSpecific_of_projectVariables {records : List Record} (hinv : inv = ofRecords records)
    (h : inv.projectVariables project environment = .ok stack) (name : String) :
    ∃ chain, inv.lineage .project project = .ok chain ∧
      ((∃ r, stack.find? name = some r) ↔ ∃ q ∈ chain, inv.ProjectDefines environment name q) ∧
      ∀ r, stack.find? name = some r →
        ∃ q ∈ chain, inv.ProjectGives environment name q r ∧
          ∀ q' ∈ chain, (inv.hierarchy .project).IsAncestor q q' → ¬ inv.ProjectDefines environment name q' := by
  obtain ⟨chain, hchain, rfl⟩ := projectVariables_eq_flatMap_share h
  refine ⟨chain, hchain, ?_, fun r hr => ?_⟩
  · rw [← Option.isSome_iff_exists, ← not_iff_not, Option.not_isSome_iff_eq_none, LayerStack.find?_flatMap_eq_none_iff]
    simp only [find?_projectShare_eq_none_iff, not_exists, not_and]
  · obtain ⟨q, hq, hgives, hlast⟩ := LayerStack.exists_mem_of_find?_lineage hchain hr
    have hcons : inv.Consistent := hinv ▸ consistent_ofRecords records
    exact ⟨q, hq, hcons.find?_projectShare_eq_some_iff.1 hgives,
      fun q' hq' ha => find?_projectShare_eq_none_iff.1 (hlast q' hq' ha)⟩

/-- A port that a project sets for itself and, with an older id, one of its two heirs sets for all environments. -/
def portRecords : List Record :=
  [.environment { name := "all" }, .environment { name := "live", parents := ["all"] },
    .project { name := "base" }, .project { name := "web", parents := ["base"] },
    .project { name := "jobs", parents := ["base"] }, .project { name := "app", parents := ["web", "jobs"] },
    .assignment { id := .root 2, entry := ⟨"port", none, .reference "default"⟩, project := some "base" },
    .assignment
      { id := .root 1, entry := ⟨"port", none, .reference "web"⟩, environment := some "all", project := some "web" }]

def portOfApp : ResolvedVariable := ⟨"project:web@all", ⟨"port", some (.root 1), .reference "web"⟩⟩

theorem mostSpecific_port : ∃ stack, (ofRecords portRecords).projectVariables "app" "live" = .ok stack ∧
    stack.find? "port" = some portOfApp ∧
    ∃ q ∈ ["base", "web", "jobs", "app"], (ofRecords portRecords).ProjectGives "live" "port" q portOfApp := by
  obtain ⟨stack, hstack, hfind⟩ : ∃ stack, (ofRecords portRecords).projectVariables "app" "live" = .ok stack ∧
      stack.find? "port" = some portOfApp :=
    ⟨_, by cbv, by cbv⟩
  have hlineage : (ofRecords portRecords).lineage .project "app" = .ok ["base", "web", "jobs", "app"] := by cbv
  obtain ⟨chain, hchain, -, hwins⟩ := mostSpecific_of_projectVariables rfl hstack "port"
  obtain ⟨q, hq, hgives, -⟩ := hwins _ hfind
  rw [hlineage] at hchain
  cases hchain
  exact ⟨stack, hstack, hfind, q, hq, hgives⟩

end Inventory
end DeployInventory
