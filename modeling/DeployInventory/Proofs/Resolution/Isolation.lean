import DeployInventory.Proofs.Inventory.Alike
import DeployInventory.Proofs.Lineage.Locality
import DeployInventory.Proofs.Resolution.Failures
/-!
# Proofs.Resolution.Isolation — edits for unrelated environments

What a deployment sees comes from the globals, from the environments that its own inherits from and from the layers that
the projects of its chain show to its environment: inventories that agree there resolve it alike (`Indistinct`). An
assignment for an environment that the deployment's neither is nor inherits from leaves all of that as it was: it goes
to an override that does not match, or to a node that the walks do not meet. So does any number of them
(`deployVariables_isolated`).
-/
namespace DeployInventory

open Hierarchy (AgreeAbove)
open ResolveError (ofLineage)

/-! ## The layers of a scope -/

namespace Scope

variable {environments environments' : Hierarchy} {origin environment : String} {s : Scope}

theorem overrideLayers_congr (hagree : environments.AgreeAbove environments' environment) : ∀ overrides,
    overrideLayers environments' origin environment overrides = overrideLayers environments origin environment overrides
  | [] => rfl
  | o :: rest => by
    unfold overrideLayers
    rw [hagree.includes, overrideLayers_congr hagree rest]

theorem layers_congr (hagree : environments.AgreeAbove environments' environment) (s : Scope) (origin : String) :
    s.layers environments' origin environment = s.layers environments origin environment := by
  unfold layers
  rw [overrideLayers_congr hagree]

section Unrelated

variable {e : String} (hs : environments.Sound environment) (he : ¬ environments.AtOrAbove e environment)
include hs he

/-- A query that does not match can be told not to. -/
theorem includes_eq_ok_false : EnvironmentQuery.includes ⟨e⟩ environments environment = .ok false := by
  obtain ⟨b, hb⟩ := EnvironmentQuery.succeeds_includes hs ⟨e⟩
  cases b with
  | false => exact hb
  | true => exact absurd ((EnvironmentQuery.atOrAbove_iff_of_includes hb).1 rfl) he

/-- An override that does not match adds no layer, whether it is new or has changed. -/
theorem overrideLayers_assignOverride (a : Assignment) : ∀ overrides,
    overrideLayers environments origin environment (assignOverride e a overrides) =
      overrideLayers environments origin environment overrides
  | [] => by
    unfold assignOverride overrideLayers
    rw [includes_eq_ok_false hs he]
    rfl
  | o :: rest => by
    unfold assignOverride
    split
    · rename_i ho
      have hquery : o.query = ⟨e⟩ := by rw [← ho]
      unfold overrideLayers
      rw [hquery, includes_eq_ok_false hs he]
      rfl
    · unfold overrideLayers
      rw [overrideLayers_assignOverride a rest]

/-- **A scope shows the same layers after an assignment for an unrelated environment.** -/
theorem layers_assign {a : Assignment} (ha : a.environment = some e) (s : Scope) (origin : String) :
    (s.assign a).layers environments origin environment = s.layers environments origin environment := by
  unfold assign layers
  rw [ha]
  dsimp only
  rw [overrideLayers_assignOverride hs he]

end Unrelated

end Scope

/-! ## What a deployment can tell apart -/

/-- Projects that declare the same and show the same layers to an environment. -/
structure Project.Indistinct (environments : Hierarchy) (environment : String) (n m : Project) : Prop where
  header : n.header = m.header
  layers : ∀ origin, m.scope.layers environments origin environment = n.scope.layers environments origin environment

namespace Inventory

variable {inv inv' : Inventory} {project environment : String} {stack : LayerStack}

/-- **Inventories that a deployment cannot tell apart**, as the first one tells what it inherits from: they have the
same globals and environments, and projects that show it the same. -/
structure Indistinct (inv inv' : Inventory) (project environment : String) : Prop where
  globals : inv'.globals = inv.globals
  environments : ∀ n, (inv.hierarchy .environment).AtOrAbove n environment →
    inv'.environments.find? n = inv.environments.find? n
  projects : ∀ n, (inv.hierarchy .project).AtOrAbove n project →
    Option.Rel (Project.Indistinct (inv.hierarchy .environment) environment) (inv.projects.find? n)
      (inv'.projects.find? n)

namespace Indistinct

variable (h : inv.Indistinct inv' project environment)
include h

theorem find?_projects {n : String} (hn : (inv.hierarchy .project).AtOrAbove n project) :
    (inv.projects.find? n = none ∧ inv'.projects.find? n = none) ∨
      ∃ p q, inv.projects.find? n = some p ∧ inv'.projects.find? n = some q ∧
        p.Indistinct (inv.hierarchy .environment) environment q := by
  have hrel := h.projects n hn
  cases hp : inv.projects.find? n <;> cases hq : inv'.projects.find? n <;> rw [hp, hq] at hrel <;> cases hrel
  · exact .inl ⟨rfl, rfl⟩
  · rename_i hpq
    exact .inr ⟨_, _, rfl, rfl, hpq⟩

theorem agreeAbove_environment : (inv.hierarchy .environment).AgreeAbove (inv'.hierarchy .environment) environment := by
  intro n hn
  unfold hierarchy
  rw [NameMap.find?_map, NameMap.find?_map, h.environments n hn]

theorem agreeAbove_project : (inv.hierarchy .project).AgreeAbove (inv'.hierarchy .project) project := by
  intro n hn
  unfold hierarchy
  rw [NameMap.find?_map, NameMap.find?_map]
  obtain ⟨hp, hq⟩ | ⟨p, q, hp, hq, hpq⟩ := h.find?_projects hn
  · rw [hp, hq]
  · rw [hp, hq, Option.map_some, Option.map_some,
      show q.parents = p.parents from congrArg (·.1.parents) hpq.header.symm]

theorem abstract?_project : inv'.abstract? .project project = inv.abstract? .project project := by
  unfold abstract?
  obtain ⟨hp, hq⟩ | ⟨p, q, hp, hq, hpq⟩ := h.find?_projects .refl
  · rw [hp, hq]
  · rw [hp, hq, Option.map_some, Option.map_some,
      show q.isAbstract = p.isAbstract from congrArg (·.1.isAbstract) hpq.header.symm]

theorem abstract?_environment : inv'.abstract? .environment environment = inv.abstract? .environment environment := by
  unfold abstract?
  rw [h.environments environment .refl]

theorem environmentVariables : inv'.environmentVariables environment = inv.environmentVariables environment := by
  unfold Inventory.environmentVariables require lineage
  rw [h.abstract?_environment, h.agreeAbove_environment.descending, h.globals]
  refine bind_congr_of_ok fun _ _ => bind_congr_of_ok fun chain hchain => ?_
  rw [ResolveError.ofLineage_eq_ok_iff] at hchain
  have hlayers : inv'.environmentLayers chain = inv.environmentLayers chain := by
    refine List.filterMap_congr fun n hn => ?_
    rw [h.environments n ((Hierarchy.mem_descending_iff_atOrAbove hchain).1 hn)]
  rw [hlayers]

theorem projectChainLayers : ∀ chain, (∀ n ∈ chain, (inv.hierarchy .project).AtOrAbove n project) →
    inv'.projectChainLayers environment chain = inv.projectChainLayers environment chain
  | [], _ => rfl
  | n :: rest, hchain => by
    obtain ⟨hn, hrest⟩ := List.forall_mem_cons.1 hchain
    unfold Inventory.projectChainLayers
    rw [projectChainLayers rest hrest]
    obtain ⟨hp, hq⟩ | ⟨p, q, hp, hq, hpq⟩ := h.find?_projects hn
    · rw [hp, hq]
    · rw [hp, hq]
      dsimp only
      rw [Scope.layers_congr h.agreeAbove_environment, hpq.layers]

theorem projectLayers : inv'.projectLayers project environment = inv.projectLayers project environment := by
  unfold Inventory.projectLayers lineage
  rw [h.agreeAbove_project.descending]
  exact bind_congr_of_ok fun chain hchain => h.projectChainLayers chain fun n hn =>
    (Hierarchy.mem_descending_iff_atOrAbove hchain).1 hn

/-- **A deployment resolves alike in inventories that it cannot tell apart.** -/
theorem deployVariables : inv'.deployVariables project environment = inv.deployVariables project environment := by
  unfold Inventory.deployVariables requireDeployable
  rw [h.abstract?_project, h.abstract?_environment, h.environmentVariables, h.projectLayers]

end Indistinct

/-! ## Edits for unrelated environments -/

/-- **An assignment for an environment that a deployment's neither is nor inherits from.** -/
def Unrelated (inv : Inventory) (environment : String) (a : Assignment) : Prop :=
  ∃ e, a.environment = some e ∧ ¬ (inv.hierarchy .environment).AtOrAbove e environment

/-- What a deployment that succeeds has walked through exists. -/
theorem sound_of_deployVariables (h : inv.deployVariables project environment = .ok stack) :
    (inv.hierarchy .project).Sound project ∧ (inv.hierarchy .environment).Sound environment := by
  unfold deployVariables environmentVariables projectLayers at h
  obtain ⟨_, _, h⟩ := bind_eq_ok_iff.1 h
  obtain ⟨_, _, h⟩ := bind_eq_ok_iff.1 h
  obtain ⟨_, hbelow, h⟩ := bind_eq_ok_iff.1 h
  obtain ⟨_, habove, -⟩ := bind_eq_ok_iff.1 h
  obtain ⟨_, _, hbelow⟩ := bind_eq_ok_iff.1 hbelow
  obtain ⟨_, henvironments, -⟩ := bind_eq_ok_iff.1 hbelow
  obtain ⟨_, hprojects, -⟩ := bind_eq_ok_iff.1 (ResolveError.ofLineage_eq_ok_iff.1 habove)
  exact ⟨Hierarchy.exists_descending_iff.1 ⟨_, hprojects⟩,
    Hierarchy.exists_descending_iff.1 ⟨_, ResolveError.ofLineage_eq_ok_iff.1 henvironments⟩⟩

/-- **A deployment cannot tell that an unrelated assignment was made.** -/
theorem indistinct_apply (hproject : (inv.hierarchy .project).Sound project)
    (henvironment : (inv.hierarchy .environment).Sound environment) {a : Assignment}
    (ha : inv.Unrelated environment a) :
    inv.Indistinct (inv.apply (.assignment a)) project environment := by
  obtain ⟨e, he, hunrelated⟩ := ha
  refine ⟨?_, fun n hn => ?_, fun n hn => ?_⟩
  · have hglobal : (Record.assignment a).global? = none := by
      cases hg : (Record.assignment a).global? with
      | none => rfl
      | some b =>
        obtain ⟨hb, -, hnone⟩ := Assignment.owner_of_global hg
        cases hb
        rw [he] at hnone
        cases hnone
    rw [globals_apply, hglobal, Option.elim_none]
  · -- an assignment to an environment goes to the one that it is for
    have hother : (Record.assignment a).environment? ≠ some n := by
      intro hnamed
      rw [(Assignment.owner_of_environment hnamed).2, Option.some.injEq] at he
      exact hunrelated (he ▸ hn)
    rw [environments_apply, Option.elim_some, NameMap.find?_touch_of_ne hother]
  · obtain ⟨ps, hps⟩ := NameMap.mem_names.1 (hproject.known n hn)
    obtain ⟨p, hp, -⟩ := Option.map_eq_some_iff.1 ((NameMap.find?_map _ _ _).symm.trans hps)
    rw [projects_apply, Option.elim_some, hp]
    by_cases hnamed : (Record.assignment a).project? = some n
    · rw [NameMap.find?_touch_of_eq hnamed, hp, Option.getD_some]
      exact .some ⟨rfl, Scope.layers_assign henvironment hunrelated he p.scope⟩
    · rw [NameMap.find?_touch_of_ne hnamed, hp]
      exact .some ⟨rfl, fun _ => rfl⟩

/-- **Edits for unrelated environments are not seen.** Where a deployment to an environment succeeds, it still does
after any assignments, enabled or not and whoever owns them, for environments that this one neither is nor inherits
from: with the same layers, and so with the same view. -/
theorem deployVariables_isolated (h : inv.deployVariables project environment = .ok stack) (edits : List Assignment)
    (hedits : ∀ a ∈ edits, inv.Unrelated environment a) :
    (inv.applyAll (edits.map .assignment)).deployVariables project environment = .ok stack := by
  induction edits generalizing inv with
  | nil => exact h
  | cons a edits ih =>
    obtain ⟨ha, hrest⟩ := List.forall_mem_cons.1 hedits
    obtain ⟨hproject, henvironment⟩ := sound_of_deployVariables h
    have hstep : inv.Indistinct (inv.apply (.assignment a)) project environment :=
      indistinct_apply hproject henvironment ha
    -- the edit may make an environment, but none that the deployment's inherits from
    have hstill : ∀ b ∈ edits, (inv.apply (.assignment a)).Unrelated environment b := by
      intro b hb
      obtain ⟨e, he, hunrelated⟩ := hrest b hb
      exact ⟨e, he, fun hreached => hunrelated (hstep.agreeAbove_environment.atOrAbove hreached)⟩
    exact ih (hstep.deployVariables.trans h) hstill

/-- A shop with a port for all environments and another one for the live ones. -/
def portShop : Inventory :=
  ofRecords [.environment { name := "all" }, .environment { name := "live", parents := ["all"] },
    .project { name := "base" }, .project { name := "shop", parents := ["base"] },
    .assignment { id := .root 1, entry := ⟨"port", none, .reference "default"⟩, project := some "base" },
    .assignment
      { id := .root 2, entry := ⟨"port", none, .reference "secure"⟩, environment := some "live"
        project := some "base" }]

/-- Edits for an environment that does not exist yet: of the project's parent, of an undeclared play, of the environment
itself, and an erasure. -/
def stagingEdits : List Assignment :=
  [{ id := .root 3, entry := ⟨"port", none, .reference "open"⟩, environment := some "staging", project := some "base" },
    { id := .root 4, entry := ⟨"port", none, .reference "open"⟩, environment := some "staging", playbook := some "site",
      play := some "restart" },
    { id := .root 5, entry := ⟨"port", none, .reference "open"⟩, environment := some "staging" },
    { id := .root 2, entry := ⟨"port", none, .value .null⟩, disabled := true, environment := some "staging",
      project := some "shop" }]

theorem portShop_isolated : ∃ stack, portShop.deployVariables "shop" "live" = .ok stack ∧
    stack.origins =
      ["global", "environment:all", "environment:live", "project:base", "project:base@live", "project:shop"] ∧
    (∀ a ∈ stagingEdits, portShop.Unrelated "live" a) ∧
    (portShop.applyAll (stagingEdits.map .assignment)).deployVariables "shop" "live" = .ok stack := by
  obtain ⟨stack, hstack, horigins⟩ : ∃ stack, portShop.deployVariables "shop" "live" = .ok stack ∧
      stack.origins =
        ["global", "environment:all", "environment:live", "project:base", "project:base@live", "project:shop"] :=
    ⟨_, by cbv, by cbv⟩
  have hedits : ∀ a ∈ stagingEdits, portShop.Unrelated "live" a := by
    have hanswer : (portShop.hierarchy .environment).isAncestor "staging" "live" = .ok false := by cbv
    have hstaging : ¬ (portShop.hierarchy .environment).AtOrAbove "staging" "live" := by
      rw [Hierarchy.atOrAbove_iff, ← (Hierarchy.isAncestor_eq_ok_iff.1 hanswer).2]
      decide
    have hfor : ∀ a ∈ stagingEdits, a.environment = some "staging" := by decide
    exact fun a ha => ⟨"staging", hfor a ha, hstaging⟩
  exact ⟨stack, hstack, horigins, hedits, deployVariables_isolated hstack stagingEdits hedits⟩

end Inventory

end DeployInventory
