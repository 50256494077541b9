import DeployInventory.Plan.Order
import DeployInventory.Proofs.Inventory.Consistent
import DeployInventory.Proofs.Inventory.Validity
import DeployInventory.Proofs.Plan.Expansion
import DeployInventory.Proofs.Resolution.Projects
import DeployInventory.Resolution.Plays
/-!
# Proofs.Resolution.Failures — how resolution fails in a valid inventory

In an inventory whose nodes are all sound no walk along a hierarchy fails, whether it lists a lineage, asks for the
nearest attribute, matches a query or compares the candidates for a super play. What is left are the failures that
every operation documents (`Resolvable`): a node that does not exist or is abstract, a play that is not defined or is
inherited from several playbooks, a cycle among the items of a plan.
-/
namespace DeployInventory

open Hierarchy (Sound)

/-! ## Steps that cannot fail -/

theorem Hierarchy.Sound.succeeds_isAncestor {h : Hierarchy} {node : String} (hs : h.Sound node) (ancestor : String) :
    Succeeds (h.isAncestor ancestor node) :=
  Succeeds.map (Succeeds.map hs.exists_ancestors)

section Steps

variable {environments : Hierarchy} {environment : String}

theorem EnvironmentQuery.succeeds_includes (hs : environments.Sound environment) (q : EnvironmentQuery) :
    Succeeds (q.includes environments environment) :=
  exists_includes_eq_ok_iff.2 (.inr hs)

theorem Scope.succeeds_layers (hs : environments.Sound environment) (s : Scope) (origin : String) :
    Succeeds (s.layers environments origin environment) := by
  have habove : ∀ l, Succeeds (overrideLayers environments origin environment l) := by
    intro l
    induction l with
    | nil => exact ⟨[], rfl⟩
    | cons o rest ih =>
      unfold overrideLayers
      exact (o.query.succeeds_includes hs).bind fun _ _ => ih.bind fun _ _ => succeeds_pure
  exact (habove s.overrides).bind fun _ _ => succeeds_pure

theorem Host.succeeds_serves (hs : environments.Sound environment) (h : Host) :
    Succeeds (h.serves environments environment) := by
  unfold serves
  split
  · exact ⟨true, rfl⟩
  · rename_i q _
    exact q.succeeds_includes hs

end Steps

theorem ResolveError.succeeds_ofLineage {α : Type} {x : Except LineageError α} (hx : Succeeds x) :
    Succeeds (ofLineage x) := by
  obtain ⟨a, ha⟩ := hx
  exact ⟨a, ofLineage_eq_ok_iff.2 ha⟩

namespace Inventory

variable {inv : Inventory} {environment project playbook play hostGroup : String} {kind : NodeKind} {name : String}

section Steps

variable (hs : (inv.hierarchy .environment).Sound environment)
include hs

theorem succeeds_projectChainLayers : ∀ chain, Succeeds (inv.projectChainLayers environment chain)
  | [] => ⟨[], rfl⟩
  | n :: rest => by
    unfold projectChainLayers
    split
    · exact succeeds_projectChainLayers rest
    · rename_i p _
      exact (p.scope.succeeds_layers hs _).bind fun _ _ =>
        (succeeds_projectChainLayers rest).bind fun _ _ => succeeds_pure

theorem succeeds_playbookLayers (b : Playbook) : Succeeds (inv.playbookLayers play environment name b) := by
  unfold playbookLayers
  refine (b.scope.succeeds_layers hs _).bind fun _ _ => ?_
  split
  · exact succeeds_pure
  · rename_i p _
    exact (p.scope.succeeds_layers hs _).bind fun _ _ => succeeds_pure

theorem succeeds_playChainLayers : ∀ chain, Succeeds (inv.playChainLayers play environment chain)
  | [] => ⟨[], rfl⟩
  | n :: rest => by
    unfold playChainLayers
    split
    · exact succeeds_playChainLayers rest
    · rename_i b _
      exact (succeeds_playbookLayers hs b).bind fun _ _ =>
        (succeeds_playChainLayers rest).bind fun _ _ => succeeds_pure

theorem succeeds_addServing : ∀ hosts found,
    Succeeds (addServing (inv.hierarchy .environment) environment found hosts)
  | [], found => ⟨found, rfl⟩
  | h :: rest, found => by
    unfold addServing
    refine (h.succeeds_serves hs).bind fun serves _ => ?_
    split
    · exact succeeds_addServing rest _
    · exact succeeds_addServing rest _

theorem succeeds_addChain : ∀ chain found, Succeeds (inv.addChain environment found chain)
  | [], found => ⟨found, rfl⟩
  | n :: rest, found => by
    unfold addChain
    split
    · exact succeeds_addChain rest found
    · exact (succeeds_addServing hs _ found).bind fun _ _ => succeeds_addChain rest _

end Steps

/-- Candidates that are sound can be compared with each other. -/
theorem succeeds_unshadowed {candidates : List String}
    (hs : ∀ c ∈ candidates, (inv.hierarchy .playbook).Sound c) :
    ∀ l, Succeeds (inv.unshadowed candidates l) := by
  have hshadowed : ∀ c l, (∀ d ∈ l, (inv.hierarchy .playbook).Sound d) → Succeeds (inv.isShadowed c l) := by
    intro c l hl
    induction l with
    | nil => exact ⟨false, rfl⟩
    | cons other rest ih =>
      obtain ⟨hother, hrest⟩ := List.forall_mem_cons.1 hl
      unfold isShadowed
      split
      · exact ih hrest
      · refine (hother.succeeds_isAncestor c).bind fun b _ => ?_
        cases b with
        | true => exact succeeds_pure
        | false => exact ih hrest
  intro l
  induction l with
  | nil => exact ⟨[], rfl⟩
  | cons c rest ih =>
    unfold unshadowed
    exact (hshadowed c candidates hs).bind fun _ _ => ih.bind fun _ _ => succeeds_pure

/-! ## What is left to fail -/

/-- A node does not exist, and the error says so. -/
def Unknown (inv : Inventory) (kind : NodeKind) (name : String) (e : ResolveError) : Prop :=
  e = .unknownNode kind name ∧ name ∉ inv.names kind

/-- A node does not exist or is abstract, and the error says so. -/
def Undeployable (inv : Inventory) (kind : NodeKind) (name : String) (e : ResolveError) : Prop :=
  inv.Unknown kind name e ∨ (e = .abstractNode kind name ∧ inv.abstract? kind name = some true)

/-- The nearest project that lists host groups lists the group. -/
def ListsHostGroup (inv : Inventory) (project hostGroup : String) : Prop :=
  ∃ groups, (inv.hierarchy .project).nearest inv.ownHostGroups project = .ok (some groups) ∧ hostGroup ∈ groups

/-- A host group that a project deploys to does not exist. -/
def UnknownHostGroup (inv : Inventory) (project : String) (e : ResolveError) : Prop :=
  ∃ hostGroup, inv.ListsHostGroup project hostGroup ∧ inv.Unknown .hostGroup hostGroup e

/-- How a deployment fails. -/
def UndeployableTo (inv : Inventory) (project environment : String) (e : ResolveError) : Prop :=
  inv.Undeployable .project project e ∨ inv.Undeployable .environment environment e

/-- **How every operation fails**, if it fails; none of the ways is an error of a hierarchy. -/
structure Resolvable (inv : Inventory) : Prop where
  environmentVariables : ∀ environment,
    FailsOnly (inv.environmentVariables environment) (inv.Unknown .environment environment)
  projectVariables : ∀ project environment, FailsOnly (inv.projectVariables project environment) fun e =>
    inv.Unknown .project project e ∨ inv.Unknown .environment environment e
  deployVariables : ∀ project environment,
    FailsOnly (inv.deployVariables project environment) (inv.UndeployableTo project environment)
  variableIn? : ∀ project environment name, FailsOnly (inv.variableIn? project environment name) fun e =>
    inv.UndeployableTo project environment e ∨ ∃ cause, e = .reference cause
  playVariables : ∀ playbook play environment, FailsOnly (inv.playVariables playbook play environment) fun e =>
    inv.Unknown .playbook playbook e ∨ inv.Unknown .environment environment e ∨ e = .missingPlay playbook play
  superPlay? : ∀ playbook play, FailsOnly (inv.superPlay? playbook play) fun e =>
    inv.Unknown .playbook playbook e ∨ ∃ candidates, e = .ambiguousSuperPlay playbook play candidates
  jobOrder : ∀ project, FailsOnly (inv.jobOrder project) (inv.Unknown .project project)
  hosts : ∀ hostGroup environment, FailsOnly (inv.hosts hostGroup environment) fun e =>
    inv.Unknown .hostGroup hostGroup e ∨ inv.Unknown .environment environment e
  projectHosts : ∀ project environment, FailsOnly (inv.projectHosts project environment) fun e =>
    inv.Unknown .project project e ∨ inv.Unknown .environment environment e ∨ inv.UnknownHostGroup project e
  deployment : ∀ project environment, FailsOnly (inv.deployment project environment) fun e =>
    inv.UndeployableTo project environment e ∨ inv.UnknownHostGroup project e
  deployments : ∀ (engine : SearchEngine) (plan : DeployPlan), FailsOnly (plan.deployments engine inv) fun e =>
    ∃ project ∈ (plan.expand engine inv).filterMap (·.project),
      inv.UndeployableTo project plan.environment e ∨ inv.UnknownHostGroup project e
  order : ∀ (engine : SearchEngine) (plan : DeployPlan), FailsOnly (plan.order engine inv) fun e =>
    ∃ members, e = .dependencyCycle members

theorem mem_names_iff : name ∈ inv.names kind ↔ inv.abstract? kind name ≠ none := by
  unfold names
  rw [NameMap.mem_names]
  cases kind <;> simp [hierarchy, abstract?, Option.ne_none_iff_exists', NameMap.find?_map]

theorem failsOnly_require : FailsOnly (inv.require kind name) (inv.Unknown kind name) := by
  intro e he
  unfold require at he
  split at he
  · cases he
  · rename_i hnone
    cases he
    exact ⟨rfl, fun hn => mem_names_iff.1 hn hnone⟩

theorem mem_names_of_require {u : Unit} (h : inv.require kind name = .ok u) : name ∈ inv.names kind := by
  unfold require at h
  split at h
  · rename_i hsome
    rw [mem_names_iff, hsome]
    exact Option.some_ne_none _
  · cases h

theorem require_of_mem_names (h : name ∈ inv.names kind) : inv.require kind name = .ok () := by
  obtain ⟨b, hb⟩ := Option.ne_none_iff_exists'.1 (mem_names_iff.1 h)
  rw [require, hb]

theorem failsOnly_requireDeployable :
    FailsOnly (inv.requireDeployable kind name) (inv.Undeployable kind name) := by
  intro e he
  unfold requireDeployable at he
  split at he
  · cases he
  · rename_i habstract
    cases he
    exact .inr ⟨rfl, habstract⟩
  · rename_i hnone
    cases he
    exact .inl ⟨rfl, fun hn => mem_names_iff.1 hn hnone⟩

theorem mem_names_of_requireDeployable {u : Unit} (h : inv.requireDeployable kind name = .ok u) :
    name ∈ inv.names kind := by
  unfold requireDeployable at h
  split at h
  · rename_i hsome
    rw [mem_names_iff, hsome]
    exact Option.some_ne_none _
  · cases h
  · cases h

theorem mem_names_of_deployVariables {stack : LayerStack} (h : inv.deployVariables project environment = .ok stack) :
    project ∈ inv.names .project ∧ environment ∈ inv.names .environment := by
  unfold deployVariables at h
  obtain ⟨_, hp, h⟩ := bind_eq_ok_iff.1 h
  obtain ⟨_, he, -⟩ := bind_eq_ok_iff.1 h
  exact ⟨mem_names_of_requireDeployable hp, mem_names_of_requireDeployable he⟩

/-- What a pattern finds is stored under its name. -/
theorem Consistent.mem_names_of_foundBy (hc : inv.Consistent) {engine : SearchEngine} {pattern : String}
    (hn : name ∈ DeployItem.foundBy engine inv pattern) : name ∈ inv.names .project := by
  unfold DeployItem.foundBy at hn
  split at hn
  · cases hn
  · obtain ⟨p, hp, rfl⟩ := List.mem_map.1 hn
    obtain ⟨⟨k, p⟩, hentry, rfl⟩ := List.mem_map.1 (List.mem_filter.1 hp).1
    have hstored : inv.projects.find? k = some p := NameMap.find?_eq_some_iff.2 hentry
    have hname : p.name = k := (hc.projects k p hstored).name
    rw [mem_names_iff, abstract?, hname, hstored]
    exact Option.some_ne_none _

/-- **The entries of a plan are bound to projects that exist.** -/
theorem Consistent.mem_names_of_expand (hc : inv.Consistent) {engine : SearchEngine} {plan : DeployPlan}
    {e : ExpandedItem} (he : e ∈ plan.expand engine inv) (hproject : e.project = some project) :
    project ∈ inv.names .project := by
  obtain ⟨-, he⟩ := DeployPlan.mem_expand_iff.1 he
  obtain ⟨-, -, ⟨hnone, -⟩ | ⟨n, hmem, hbound⟩⟩ := DeployItem.mem_expand_iff.1 he
  · rw [hnone] at hproject
    cases hproject
  obtain rfl : n = project := Option.some.inj (hbound.symm.trans hproject)
  unfold DeployItem.projects at hmem
  split at hmem
  · split at hmem
    · rename_i n _ _ hcontains
      rw [List.mem_singleton.1 hmem, mem_names_iff, abstract?]
      simpa [NameMap.contains, Option.isSome_iff_ne_none] using hcontains
    · cases hmem
  · exact hc.mem_names_of_foundBy hmem
  · cases hmem

namespace Linearizes

variable (hl : inv.Linearizes)
include hl

theorem succeeds_lineage (hn : name ∈ inv.names kind) : Succeeds (ResolveError.ofLineage (inv.lineage kind name)) :=
  ResolveError.succeeds_ofLineage (Hierarchy.exists_descending_iff.2 (hl kind name hn))

theorem succeeds_nearest {α : Type} (hn : name ∈ inv.names kind) (own : String → Option α) :
    Succeeds (ResolveError.ofLineage ((inv.hierarchy kind).nearest own name)) :=
  ResolveError.succeeds_ofLineage ((hl kind name hn).exists_nearest own)

theorem succeeds_projectLayers (hp : project ∈ inv.names .project) (he : environment ∈ inv.names .environment) :
    Succeeds (ResolveError.ofLineage (inv.projectLayers project environment)) := by
  refine ResolveError.succeeds_ofLineage (Succeeds.bind ?_ fun chain _ => ?_)
  · exact Hierarchy.exists_descending_iff.2 (hl .project project hp)
  · exact succeeds_projectChainLayers (hl .environment environment he) chain

theorem environmentVariables (environment : String) :
    FailsOnly (inv.environmentVariables environment) (inv.Unknown .environment environment) := by
  refine failsOnly_require.bind fun _ he => ?_
  exact ((hl.succeeds_lineage (mem_names_of_require he)).bind fun _ _ => succeeds_pure).failsOnly

theorem projectVariables (project environment : String) :
    FailsOnly (inv.projectVariables project environment) fun e =>
      inv.Unknown .project project e ∨ inv.Unknown .environment environment e := by
  refine (failsOnly_require.mono fun _ => .inl).bind fun _ hp => ?_
  refine (failsOnly_require.mono fun _ => .inr).bind fun _ he => ?_
  exact (hl.succeeds_projectLayers (mem_names_of_require hp) (mem_names_of_require he)).failsOnly

theorem deployVariables (project environment : String) :
    FailsOnly (inv.deployVariables project environment) (inv.UndeployableTo project environment) := by
  refine (failsOnly_requireDeployable.mono fun _ => .inl).bind fun _ hp => ?_
  refine (failsOnly_requireDeployable.mono fun _ => .inr).bind fun _ he => ?_
  have hproject : project ∈ inv.names .project := mem_names_of_requireDeployable hp
  have henvironment : environment ∈ inv.names .environment := mem_names_of_requireDeployable he
  refine ((hl.environmentVariables environment).mono fun _ hu => ?_).bind fun _ _ => ?_
  · exact absurd henvironment hu.2
  · exact ((hl.succeeds_projectLayers hproject henvironment).bind fun _ _ => succeeds_pure).failsOnly

theorem playVariables (playbook play environment : String) :
    FailsOnly (inv.playVariables playbook play environment) fun e =>
      inv.Unknown .playbook playbook e ∨ inv.Unknown .environment environment e ∨ e = .missingPlay playbook play := by
  refine (failsOnly_require.mono fun _ => .inl).bind fun _ hb => ?_
  refine (failsOnly_require.mono fun _ hu => .inr (.inl hu)).bind fun _ he => ?_
  refine (hl.succeeds_lineage (mem_names_of_require hb)).failsOnly.bind fun chain _ => ?_
  have hs := hl .environment environment (mem_names_of_require he)
  split
  · exact (ResolveError.succeeds_ofLineage (succeeds_playChainLayers hs chain)).failsOnly
  · intro e hthrow
    cases hthrow
    exact .inr (.inr rfl)

theorem superPlay? (playbook play : String) : FailsOnly (inv.superPlay? playbook play) fun e =>
    inv.Unknown .playbook playbook e ∨ ∃ candidates, e = .ambiguousSuperPlay playbook play candidates := by
  refine (failsOnly_require.mono fun _ => .inl).bind fun _ hb => ?_
  have hs := hl .playbook playbook (mem_names_of_require hb)
  have habove : Succeeds ((inv.hierarchy .playbook).descendingParents playbook) := Succeeds.map hs.exists_ancestors
  refine (ResolveError.succeeds_ofLineage habove).failsOnly.bind fun above ha => ?_
  have hcandidates : ∀ c ∈ above.filter (inv.definesPlay play), (inv.hierarchy .playbook).Sound c := by
    intro c hc
    obtain ⟨nodes, hnodes, rfl⟩ := map_eq_ok_iff.1 (ResolveError.ofLineage_eq_ok_iff.1 ha)
    have hmem : c ∈ nodes := List.mem_reverse.1 (List.mem_filter.1 hc).1
    exact (Hierarchy.linear_of_ancestors hnodes).sound (List.mem_cons_of_mem _ hmem)
  refine (ResolveError.succeeds_ofLineage (succeeds_unshadowed hcandidates _)).failsOnly.bind fun left _ => ?_
  split
  · exact succeeds_pure.failsOnly
  · exact succeeds_pure.failsOnly
  · intro e hthrow
    cases hthrow
    exact .inr ⟨_, rfl⟩

theorem jobOrder (project : String) : FailsOnly (inv.jobOrder project) (inv.Unknown .project project) := by
  refine failsOnly_require.bind fun _ hp => ?_
  exact ((hl.succeeds_nearest (mem_names_of_require hp) _).bind fun _ _ => succeeds_pure).failsOnly

theorem hosts (hostGroup environment : String) : FailsOnly (inv.hosts hostGroup environment) fun e =>
    inv.Unknown .hostGroup hostGroup e ∨ inv.Unknown .environment environment e := by
  refine (failsOnly_require.mono fun _ => .inl).bind fun _ hg => ?_
  refine (failsOnly_require.mono fun _ => .inr).bind fun _ he => ?_
  refine ((hl.succeeds_lineage (mem_names_of_require hg)).bind fun chain _ => ?_).failsOnly
  exact ResolveError.succeeds_ofLineage
    (succeeds_addChain (hl .environment environment (mem_names_of_require he)) chain [])

/-- The hosts of groups fail at the environment or at one of the groups. -/
theorem addGroups (environment : String) : ∀ groups found, FailsOnly (inv.addGroups environment found groups) fun e =>
    inv.Unknown .environment environment e ∨ ∃ g ∈ groups, inv.Unknown .hostGroup g e
  | [], found => Succeeds.failsOnly ⟨found, rfl⟩
  | g :: rest, found => by
    unfold Inventory.addGroups
    refine ((hl.hosts g environment).mono fun e he => ?_).bind fun more _ => ?_
    · rcases he with hg | he
      · exact .inr ⟨g, List.mem_cons_self, hg⟩
      · exact .inl he
    · refine (addGroups environment rest _).mono fun e he => ?_
      rcases he with he | ⟨k, hk, hu⟩
      · exact .inl he
      · exact .inr ⟨k, List.mem_cons_of_mem _ hk, hu⟩

theorem projectHosts (project environment : String) : FailsOnly (inv.projectHosts project environment) fun e =>
    inv.Unknown .project project e ∨ inv.Unknown .environment environment e ∨ inv.UnknownHostGroup project e := by
  refine (failsOnly_require.mono fun _ => .inl).bind fun _ hp => ?_
  refine (hl.succeeds_nearest (mem_names_of_require hp) _).failsOnly.bind fun groups hgroups => ?_
  rw [ResolveError.ofLineage_eq_ok_iff] at hgroups
  refine (hl.addGroups environment _ []).mono fun e he => .inr ?_
  rcases he with he | ⟨g, hg, hu⟩
  · exact .inl he
  · cases groups with
    | none => cases hg
    | some groups => exact .inr ⟨g, ⟨groups, hgroups, hg⟩, hu⟩

theorem variableIn? (project environment name : String) : FailsOnly (inv.variableIn? project environment name) fun e =>
    inv.UndeployableTo project environment e ∨ ∃ cause, e = .reference cause := by
  refine ((hl.deployVariables project environment).mono fun _ => .inl).bind fun stack _ => ?_
  intro e he
  unfold ResolveError.ofReference at he
  split at he
  · cases he
  · cases he
    exact .inr ⟨_, rfl⟩

theorem deployment (project environment : String) : FailsOnly (inv.deployment project environment) fun e =>
    inv.UndeployableTo project environment e ∨ inv.UnknownHostGroup project e := by
  refine ((hl.deployVariables project environment).mono fun _ => .inl).bind fun stack hstack => ?_
  obtain ⟨hproject, henvironment⟩ := mem_names_of_deployVariables hstack
  refine ((hl.jobOrder project).mono fun e hu => absurd hproject hu.2).bind fun _ _ => ?_
  refine ((hl.projectHosts project environment).mono fun e he => ?_).bind fun _ _ => succeeds_pure.failsOnly
  rcases he with hu | hu | hu
  · exact absurd hproject hu.2
  · exact absurd henvironment hu.2
  · exact .inr hu

theorem deployments (engine : SearchEngine) (plan : DeployPlan) : FailsOnly (plan.deployments engine inv) fun e =>
    ∃ project ∈ (plan.expand engine inv).filterMap (·.project),
      inv.UndeployableTo project plan.environment e ∨ inv.UnknownHostGroup project e :=
  .mapM fun project hp => (hl.deployment project plan.environment).mono fun _ he => ⟨project, hp, he⟩

/-- Every entry of a plan has a rank: its project exists, and so it has a job order. -/
theorem succeeds_rank (hc : inv.Consistent) {engine : SearchEngine} {plan : DeployPlan} {e : ExpandedItem}
    (he : e ∈ plan.expand engine inv) (order : List String) : Succeeds (e.rank inv order) := by
  unfold ExpandedItem.rank
  split
  · exact ⟨_, rfl⟩
  · rename_i project hproject
    refine Succeeds.map ?_
    unfold ExpandedItem.effectiveJobOrder
    split
    · exact ⟨_, rfl⟩
    · rw [succeeds_iff_failsOnly]
      exact (hl.jobOrder project).mono fun _ hu => hu.2 (hc.mem_names_of_expand he hproject)

theorem order (hc : inv.Consistent) (engine : SearchEngine) (plan : DeployPlan) :
    FailsOnly (plan.order engine inv) fun e => ∃ members, e = .dependencyCycle members := by
  intro e he
  unfold DeployPlan.order at he
  simp only at he
  split at he
  · rename_i members _
    cases he
    exact ⟨members, rfl⟩
  · rename_i projects _
    obtain ⟨ranked, hranked⟩ : Succeeds (DeployPlan.rankedItems inv projects (plan.expand engine inv)) :=
      .mapM fun e he => (hl.succeeds_rank hc he projects).map
    rw [hranked] at he
    cases he

end Linearizes

/-- **A valid inventory resolves.** In an inventory that records make and that has no problems, every operation fails
only in the ways that it documents: never with an error of a hierarchy. -/
theorem resolvable_of_isValid (records : List Record) (hv : (ofRecords records).isValid = true) :
    (ofRecords records).Resolvable := by
  have hl : (ofRecords records).Linearizes := isValid_iff.1 hv
  exact ⟨hl.environmentVariables, hl.projectVariables, hl.deployVariables, hl.variableIn?, hl.playVariables,
    hl.superPlay?, hl.jobOrder, hl.hosts, hl.projectHosts, hl.deployment, hl.deployments,
    hl.order (consistent_ofRecords records)⟩

/-- A project whose variables differ between environments, the hosts that it is deployed to and its playbook. -/
def shopRecords : List Record :=
  [.environment { name := "all", isAbstract := true }, .environment { name := "live", parents := ["all"] },
    .project { name := "base", isAbstract := true, hostGroups := ["front", "back"] },
    .project { name := "shop", parents := ["base"] }, .hostGroup { name := "front" },
    .host { name := "web1", hostGroup := "front", address := "10.0.0.1", environment := some "all" },
    .playbook { name := "site" }, .play { playbook := "site", name := "restart" },
    .assignment
      { id := .root 1, entry := ⟨"port", none, .reference "web"⟩, environment := some "live", project := some "shop" }]

/-- The second host group that the project inherits does not exist: that is not a problem of a hierarchy, and its
deployment fails with just that. -/
theorem shop_resolvable : (ofRecords shopRecords).isValid = true ∧ (ofRecords shopRecords).Resolvable ∧
    ∃ e, (ofRecords shopRecords).deployment "shop" "live" = .error e ∧
      ((ofRecords shopRecords).UndeployableTo "shop" "live" e ∨ (ofRecords shopRecords).UnknownHostGroup "shop" e) := by
  have hv : (ofRecords shopRecords).isValid = true := by cbv
  have hr : (ofRecords shopRecords).Resolvable := resolvable_of_isValid shopRecords hv
  have he : (ofRecords shopRecords).deployment "shop" "live" = .error (.unknownNode .hostGroup "back") := by cbv
  exact ⟨hv, hr, _, he, hr.deployment "shop" "live" _ he⟩

end Inventory
end DeployInventory
