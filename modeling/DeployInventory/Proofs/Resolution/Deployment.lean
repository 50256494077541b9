import DeployInventory.Proofs.Resolution.Projects
/-!
# Proofs.Resolution.Deployment — a deployment sees its project above its environment

The variables of an environment are the globals and, above them, the shares of its lineage; the most specific
environment that defines a name gives it, and the globals give what no environment defines (`givesAlong_of_find?`). A
deployment stacks the variables of its project on those: it succeeds when both do, fails as one of them does, and takes
from the environment what the project does not define (`deployVariables_layered`).
-/
namespace DeployInventory

open VariableList (Defines Last)

namespace Inventory

variable {inv : Inventory} {project environment name : String} {chain : List String} {below stack : LayerStack}
  {r : ResolvedVariable}

/-! ## The variables of an environment -/

/-- What an environment adds to a stack. -/
def environmentShare (inv : Inventory) (environment : String) : LayerStack :=
  ((inv.environments.find? environment).map fun e => ⟨"environment:" ++ environment, e.entries⟩).toList

def EnvironmentDefines (inv : Inventory) (name environment : String) : Prop :=
  ∃ e, inv.environments.find? environment = some e ∧ Defines e.entries name

/-- Whether an environment gives a definition of a name: the last entry with the name in its own list. -/
def EnvironmentGives (inv : Inventory) (name environment : String) (r : ResolvedVariable) : Prop :=
  ∃ e, inv.environments.find? environment = some e ∧ r.origin = "environment:" ++ environment ∧
    Last e.entries name r.entry

/-- **Where a lineage of environments takes a name from**: from one of them that no other one that defines the name
inherits from, or from the globals when none of them defines it. -/
inductive GivesAlong (inv : Inventory) (chain : List String) (name : String) (r : ResolvedVariable) : Prop where
  | environment (q : String) (hq : q ∈ chain) (hgives : inv.EnvironmentGives name q r)
      (hspecific : ∀ q' ∈ chain, (inv.hierarchy .environment).IsAncestor q q' → ¬ inv.EnvironmentDefines name q')
  | globals (horigin : r.origin = "global") (hlast : Last inv.globals name r.entry)
      (hnone : ∀ q ∈ chain, ¬ inv.EnvironmentDefines name q)

/-- The globals with the shares of a lineage above them. -/
def environmentStack (inv : Inventory) (chain : List String) : LayerStack :=
  ⟨"global", inv.globals⟩ :: chain.flatMap inv.environmentShare

theorem find?_environmentShare_eq_none_iff :
    (inv.environmentShare environment).find? name = none ↔ ¬ inv.EnvironmentDefines name environment := by
  unfold environmentShare EnvironmentDefines
  cases inv.environments.find? environment with
  | none => simp [LayerStack.find?_nil]
  | some e =>
    rw [Option.map_some, Option.toList_some, LayerStack.find?_singleton_eq_none_iff]
    simp

theorem find?_environmentShare_eq_some_iff :
    (inv.environmentShare environment).find? name = some r ↔ inv.EnvironmentGives name environment r := by
  unfold environmentShare EnvironmentGives
  cases inv.environments.find? environment with
  | none => simp [LayerStack.find?_nil]
  | some e =>
    rw [Option.map_some, Option.toList_some, LayerStack.find?_singleton_eq_some_iff_last]
    simp

theorem environmentVariables_eq_stack (h : inv.environmentVariables environment = .ok below) :
    ∃ chain, inv.lineage .environment environment = .ok chain ∧ below = inv.environmentStack chain := by
  have hlayers : ∀ chain, inv.environmentLayers chain = chain.flatMap inv.environmentShare := fun chain =>
    List.filterMap_eq_flatMap_toList _ _
  unfold environmentVariables at h
  obtain ⟨_, -, h⟩ := bind_eq_ok_iff.1 h
  obtain ⟨chain, hchain, h⟩ := bind_eq_ok_iff.1 h
  refine ⟨chain, ResolveError.ofLineage_eq_ok_iff.1 hchain, ?_⟩
  rw [← pure_eq_ok_iff.1 h, hlayers, environmentStack]

theorem find?_environmentStack_eq_none_iff : (inv.environmentStack chain).find? name = none ↔
    (∀ q ∈ chain, ¬ inv.EnvironmentDefines name q) ∧ ¬ Defines inv.globals name := by
  rw [environmentStack, LayerStack.find?_cons, Option.or_eq_none_iff, LayerStack.find?_flatMap_eq_none_iff,
    LayerStack.find?_singleton_eq_none_iff]
  simp only [find?_environmentShare_eq_none_iff]

theorem exists_find?_environmentStack_iff : (∃ r, (inv.environmentStack chain).find? name = some r) ↔
    Defines inv.globals name ∨ ∃ q ∈ chain, inv.EnvironmentDefines name q := by
  rw [← Option.ne_none_iff_exists', ne_eq, find?_environmentStack_eq_none_iff]
  grind

/-- **The most specific environment wins**, and the globals give what no environment defines. -/
theorem givesAlong_of_find? (hchain : inv.lineage .environment environment = .ok chain)
    (hr : (inv.environmentStack chain).find? name = some r) : inv.GivesAlong chain name r := by
  rw [environmentStack, LayerStack.find?_cons, Option.or_eq_some_iff] at hr
  rcases hr with hr | ⟨hnone, hr⟩
  · obtain ⟨q, hq, hgives, hspecific⟩ := LayerStack.exists_mem_of_find?_lineage hchain hr
    exact .environment q hq (find?_environmentShare_eq_some_iff.1 hgives)
      fun q' hq' ha => find?_environmentShare_eq_none_iff.1 (hspecific q' hq' ha)
  · obtain ⟨horigin, hlast⟩ := LayerStack.find?_singleton_eq_some_iff_last.1 hr
    rw [LayerStack.find?_flatMap_eq_none_iff] at hnone
    exact .globals horigin hlast fun q hq => find?_environmentShare_eq_none_iff.1 (hnone q hq)

/-! ## The variables of a deployment -/

theorem requireDeployable_eq_require {kind : NodeKind} (h : inv.abstract? kind name ≠ some true) :
    inv.requireDeployable kind name = inv.require kind name := by
  unfold requireDeployable require
  cases ha : inv.abstract? kind name with
  | none => rfl
  | some isAbstract =>
    cases isAbstract with
    | false => rfl
    | true => exact absurd ha h

/-- **A deployment stacks the variables of its project on those of its environment**, once neither of the two nodes is
abstract: what one of these lacks is missed in the same way by the other. -/
theorem deployVariables_eq (hproject : inv.abstract? .project project ≠ some true)
    (henvironment : inv.abstract? .environment environment ≠ some true) :
    inv.deployVariables project environment = (do
      inv.require .project project
      let below ← inv.environmentVariables environment
      let above ← inv.projectVariables project environment
      return below ++ above) := by
  unfold deployVariables
  rw [requireDeployable_eq_require hproject, requireDeployable_eq_require henvironment]
  refine bind_congr_of_ok fun _ hp => ?_
  -- The project is known here: of its view only the test of the environment is left, which both views make.
  have habove : inv.projectVariables project environment = (do
      inv.require .environment environment
      ResolveError.ofLineage (inv.projectLayers project environment)) := by
    unfold projectVariables
    rw [hp]
    rfl
  rw [habove]
  unfold environmentVariables
  cases inv.require .environment environment with
  | error e => rfl
  | ok _ => rfl

section Concrete

variable (hproject : inv.abstract? .project project ≠ some true)
  (henvironment : inv.abstract? .environment environment ≠ some true)
include hproject henvironment

theorem deployVariables_eq_ok_iff : inv.deployVariables project environment = .ok stack ↔
    ∃ above below, inv.projectVariables project environment = .ok above ∧
      inv.environmentVariables environment = .ok below ∧ stack = below ++ above := by
  rw [deployVariables_eq hproject henvironment, bind_eq_ok_iff]
  constructor
  · rintro ⟨_, -, h⟩
    obtain ⟨below, hbelow, h⟩ := bind_eq_ok_iff.1 h
    obtain ⟨above, habove, h⟩ := bind_eq_ok_iff.1 h
    exact ⟨above, below, habove, hbelow, (pure_eq_ok_iff.1 h).symm⟩
  · rintro ⟨above, below, habove, hbelow, rfl⟩
    obtain ⟨u, hknown, -⟩ := bind_eq_ok_iff.1 habove
    exact ⟨u, hknown, bind_eq_ok_iff.2 ⟨below, hbelow, bind_eq_ok_iff.2 ⟨above, habove, rfl⟩⟩⟩

theorem succeeds_deployVariables_iff : Succeeds (inv.deployVariables project environment) ↔
    Succeeds (inv.projectVariables project environment) ∧ Succeeds (inv.environmentVariables environment) := by
  unfold Succeeds
  simp only [deployVariables_eq_ok_iff hproject henvironment]
  constructor
  · rintro ⟨_, above, below, habove, hbelow, -⟩
    exact ⟨⟨above, habove⟩, below, hbelow⟩
  · rintro ⟨⟨above, habove⟩, below, hbelow⟩
    exact ⟨_, above, below, habove, hbelow, rfl⟩

theorem error_of_deployVariables : FailsOnly (inv.deployVariables project environment) fun e =>
    inv.projectVariables project environment = .error e ∨ inv.environmentVariables environment = .error e := by
  rw [deployVariables_eq hproject henvironment]
  refine FailsOnly.bind (fun e he => .inl ?_) fun _ _ => ?_
  · unfold projectVariables
    rw [he]
    rfl
  · refine FailsOnly.bind (fun e he => .inr he) fun _ _ => ?_
    exact FailsOnly.bind (fun e he => .inl he) fun _ _ => succeeds_pure.failsOnly

end Concrete

/-- **A deployment sees the view of its project above that of its environment.** For a project and an environment that
are not abstract, a deployment succeeds when both views can be made, and otherwise fails as one of them does. It takes
every name from the project where that defines it, if only as null, and from the environment where it does not. The
environment's view has the names that its lineage or the globals define; it takes them from an environment that no
other one of the lineage that defines the name inherits from, and from the globals only where none defines it. -/
theorem deployVariables_layered (hproject : inv.abstract? .project project ≠ some true)
    (henvironment : inv.abstract? .environment environment ≠ some true) :
    (Succeeds (inv.deployVariables project environment) ↔
      Succeeds (inv.projectVariables project environment) ∧ Succeeds (inv.environmentVariables environment)) ∧
    (∀ e, inv.deployVariables project environment = .error e →
      inv.projectVariables project environment = .error e ∨ inv.environmentVariables environment = .error e) ∧
    (∀ stack, inv.deployVariables project environment = .ok stack → ∃ above below,
      inv.projectVariables project environment = .ok above ∧ inv.environmentVariables environment = .ok below ∧
      ∀ name, stack.find? name = (above.find? name).or (below.find? name)) ∧
    ∀ below, inv.environmentVariables environment = .ok below → ∃ chain,
      inv.lineage .environment environment = .ok chain ∧ ∀ name,
        ((∃ r, below.find? name = some r) ↔
          Defines inv.globals name ∨ ∃ q ∈ chain, inv.EnvironmentDefines name q) ∧
        ∀ r, below.find? name = some r → inv.GivesAlong chain name r := by
  refine ⟨succeeds_deployVariables_iff hproject henvironment, error_of_deployVariables hproject henvironment,
    fun stack h => ?_, fun below h => ?_⟩
  · obtain ⟨above, below, habove, hbelow, rfl⟩ := (deployVariables_eq_ok_iff hproject henvironment).1 h
    exact ⟨above, below, habove, hbelow, fun name => LayerStack.find?_append⟩
  · obtain ⟨chain, hchain, rfl⟩ := environmentVariables_eq_stack h
    exact ⟨chain, hchain, fun name => ⟨exists_find?_environmentStack_iff, fun r hr => givesAlong_of_find? hchain hr⟩⟩

/-- A shop whose project sets a level to null that its environments set twice, beside a tier that only the environments
have and a region that only the globals have. -/
def layeredShop : Inventory :=
  ofRecords
    [.environment { name := "all", isAbstract := true }, .environment { name := "live", parents := ["all"] },
      .project { name := "shop" },
      .assignment { id := .root 1, entry := ⟨"region", none, .reference "home"⟩ },
      .assignment { id := .root 2, entry := ⟨"level", none, .reference "low"⟩, environment := some "all" },
      .assignment { id := .root 3, entry := ⟨"tier", none, .reference "third"⟩, environment := some "all" },
      .assignment { id := .root 4, entry := ⟨"level", none, .reference "high"⟩, environment := some "live" },
      .assignment { id := .root 5, entry := ⟨"level", none, .value .null⟩, project := some "shop" }]

theorem layeredShop_layered : layeredShop.abstract? .project "shop" ≠ some true ∧
    layeredShop.abstract? .environment "live" ≠ some true ∧
    ∃ stack above below, layeredShop.deployVariables "shop" "live" = .ok stack ∧
      layeredShop.projectVariables "shop" "live" = .ok above ∧ layeredShop.environmentVariables "live" = .ok below ∧
      stack.find? "level" = some ⟨"project:shop", ⟨"level", some (.root 5), .value .null⟩⟩ ∧
      stack.find? "tier" = below.find? "tier" ∧
      layeredShop.GivesAlong ["all", "live"] "level"
        ⟨"environment:live", ⟨"level", some (.root 4), .reference "high"⟩⟩ ∧
      layeredShop.GivesAlong ["all", "live"] "region" ⟨"global", ⟨"region", some (.root 1), .reference "home"⟩⟩ := by
  have hproject : layeredShop.abstract? .project "shop" ≠ some true := by cbv; decide
  have henvironment : layeredShop.abstract? .environment "live" ≠ some true := by cbv; decide
  obtain ⟨hiff, -, hstack, hbelow⟩ := deployVariables_layered hproject henvironment
  obtain ⟨above, habove, hlevel, htier⟩ : ∃ above, layeredShop.projectVariables "shop" "live" = .ok above ∧
      above.find? "level" = some ⟨"project:shop", ⟨"level", some (.root 5), .value .null⟩⟩ ∧
      above.find? "tier" = none :=
    ⟨_, by cbv, by cbv, by cbv⟩
  obtain ⟨below, hdown, hhigh, hhome⟩ : ∃ below, layeredShop.environmentVariables "live" = .ok below ∧
      below.find? "level" = some ⟨"environment:live", ⟨"level", some (.root 4), .reference "high"⟩⟩ ∧
      below.find? "region" = some ⟨"global", ⟨"region", some (.root 1), .reference "home"⟩⟩ :=
    ⟨_, by cbv, by cbv, by cbv⟩
  have hlineage : layeredShop.lineage .environment "live" = .ok ["all", "live"] := by cbv
  obtain ⟨stack, hdeployed⟩ := hiff.2 ⟨⟨above, habove⟩, below, hdown⟩
  obtain ⟨above', below', habove', hdown', hfind⟩ := hstack stack hdeployed
  obtain rfl := ok_unique habove habove'
  obtain rfl := ok_unique hdown hdown'
  obtain ⟨chain, hchain, hnames⟩ := hbelow below hdown
  obtain rfl := ok_unique hlineage hchain
  refine ⟨hproject, henvironment, stack, above, below, hdeployed, habove, hdown, ?_, ?_, (hnames _).2 _ hhigh,
    (hnames _).2 _ hhome⟩
  · rw [hfind, hlevel, Option.some_or]
  · rw [hfind, htier, Option.none_or]

end Inventory

end DeployInventory
