import DeployInventory.Proofs.Resolution.Isolation
import DeployInventory.Resolution.Deployment
/-!
# Proofs.Resolution.Locality — what a deployment depends on

A deployment reads the globals, the projects of one lineage and the environments of another. Two inventories that agree
there give it the same layers and the same job order, or the same error, whatever else they hold (`deployment_local`):
the walks meet no other node, and no override asks about one.
-/
namespace DeployInventory

namespace Inventory

variable {inv inv' : Inventory} {project environment : String} {projects environments : List String}

/-- **Inventories that agree on the globals and on some of their projects and environments.** -/
structure AgreeOn (inv inv' : Inventory) (projects environments : List String) : Prop where
  globals : inv'.globals = inv.globals
  projects : ∀ n ∈ projects, inv'.projects.find? n = inv.projects.find? n
  environments : ∀ n ∈ environments, inv'.environments.find? n = inv.environments.find? n

/-- A deployment cannot tell inventories apart that agree on its two lineages. -/
theorem AgreeOn.indistinct (hagree : inv.AgreeOn inv' projects environments)
    (hprojects : inv.lineage .project project = .ok projects)
    (henvironments : inv.lineage .environment environment = .ok environments) :
    inv.Indistinct inv' project environment := by
  refine ⟨hagree.globals, fun n hn => ?_, fun n hn => ?_⟩
  · exact hagree.environments n ((Hierarchy.mem_descending_iff_atOrAbove henvironments).2 hn)
  · rw [hagree.projects n ((Hierarchy.mem_descending_iff_atOrAbove hprojects).2 hn)]
    cases inv.projects.find? n with
    | none => exact .none
    | some p => exact .some ⟨rfl, fun _ => rfl⟩

namespace Indistinct

variable (h : inv.Indistinct inv' project environment)
include h

theorem ownJobOrder {n : String} (hn : (inv.hierarchy .project).AtOrAbove n project) :
    (inv'.projects.find? n).bind (·.jobOrder) = (inv.projects.find? n).bind (·.jobOrder) := by
  obtain ⟨hp, hq⟩ | ⟨p, q, hp, hq, hpq⟩ := h.find?_projects hn
  · rw [hp, hq]
  · rw [hp, hq]
    exact congrArg (·.1.jobOrder) hpq.header.symm

theorem jobOrder : inv'.jobOrder project = inv.jobOrder project := by
  have hnearest := h.agreeAbove_project.nearest fun n hn => h.ownJobOrder hn
  unfold Inventory.jobOrder require
  dsimp only
  rw [h.abstract?_project, hnearest]

end Indistinct

/-- **Resolution is local.** Where the lineages of a project and of an environment can be listed, an inventory that
agrees with this one on their nodes and on the globals resolves a deployment of the one to the other to the same layers
or the same error, and gives the project the same job order. -/
theorem deployment_local (hprojects : inv.lineage .project project = .ok projects)
    (henvironments : inv.lineage .environment environment = .ok environments)
    (hagree : inv.AgreeOn inv' projects environments) :
    inv'.deployVariables project environment = inv.deployVariables project environment ∧
      inv'.jobOrder project = inv.jobOrder project := by
  have hsame := hagree.indistinct hprojects henvironments
  exact ⟨hsame.deployVariables, hsame.jobOrder⟩

/-- The shop among others: a project with a port and a job order of its own, environments in a circle, a project below
one that does not exist, and a playbook with the name of the shop. -/
def crowdedShop : Inventory :=
  portShop.applyAll
    [.environment { name := "east", parents := ["west"] }, .environment { name := "west", parents := ["east"] },
      .project { name := "other", parents := ["base"], jobOrder := some 3 },
      .project { name := "lost", parents := ["gone"] }, .playbook { name := "shop" },
      .assignment { id := .root 7, entry := ⟨"port", none, .value .null⟩, environment := some "east" },
      .assignment
        { id := .root 8, entry := ⟨"port", none, .reference "open"⟩, environment := some "live"
          project := some "other" }]

theorem crowdedShop_local : portShop.lineage .project "shop" = .ok ["base", "shop"] ∧
    portShop.lineage .environment "live" = .ok ["all", "live"] ∧
    portShop.AgreeOn crowdedShop ["base", "shop"] ["all", "live"] ∧
    crowdedShop.lineage .environment "east" = .error (.cyclic ["east", "west", "east"]) ∧
    (∃ stack, portShop.deployVariables "shop" "live" = .ok stack) ∧
    crowdedShop.deployVariables "shop" "live" = portShop.deployVariables "shop" "live" ∧
    crowdedShop.jobOrder "shop" = portShop.jobOrder "shop" := by
  have hprojects : portShop.lineage .project "shop" = .ok ["base", "shop"] := by cbv
  have henvironments : portShop.lineage .environment "live" = .ok ["all", "live"] := by cbv
  have hagree : portShop.AgreeOn crowdedShop ["base", "shop"] ["all", "live"] := by
    refine ⟨by cbv, ?_, ?_⟩
    · exact List.forall_mem_cons.2 ⟨by cbv, List.forall_mem_singleton.2 (by cbv)⟩
    · exact List.forall_mem_cons.2 ⟨by cbv, List.forall_mem_singleton.2 (by cbv)⟩
  exact ⟨hprojects, henvironments, hagree, by cbv, ⟨_, by cbv⟩, deployment_local hprojects henvironments hagree⟩

end Inventory

end DeployInventory
