import DeployInventory.Proofs.Inventory.Alike
import DeployInventory.Proofs.Resolution.Failures
/-!
# Proofs.Resolution.Agreement — what resolution tells of alike inventories

Whatever the scopes of alike inventories hold, environments and hosts resolve to the same (`Alike.environmentVariables`,
`Alike.hosts`), and projects and plays fail alike. What they see of a name is the same where every scope tells the same
of it (`Alike.deployVariables`, `Alike.projectVariables`, `Alike.playVariables`).
-/
namespace DeployInventory

open Hierarchy (Sound)
open ResolveError (ofLineage)

/-! ## Results that agree -/

/-- **Two results agree at a name**: they fail alike, or their views have the same under it. -/
def AgreeAt (name : String) (x y : Resolved LayerStack) : Prop :=
  x.map (·.materialize.find? name) = y.map (·.materialize.find? name)

section AgreeAt

variable {α : Type} {name : String} {x y : Resolved LayerStack} {s t : LayerStack}

theorem AgreeAt.refl : AgreeAt name x x := rfl

theorem agreeAt_ok_iff : AgreeAt name (.ok s) (.ok t) ↔ s.find? name = t.find? name := by
  rw [← LayerStack.find?_materialize, ← LayerStack.find?_materialize]
  exact Except.ok.injEq _ _ ▸ Iff.rfl

theorem AgreeAt.bind {z : Resolved α} {f g : α → Resolved LayerStack} (h : ∀ a, z = .ok a → AgreeAt name (f a) (g a)) :
    AgreeAt name (z >>= f) (z >>= g) := by
  cases z with
  | error e => rfl
  | ok a => exact h a rfl

theorem AgreeAt.append (below : LayerStack) (h : AgreeAt name x y) :
    AgreeAt name (do return below ++ (← x)) (do return below ++ (← y)) := by
  cases x <;> cases y
  · exact h
  · cases h
  · cases h
  · refine agreeAt_ok_iff.2 ?_
    rw [LayerStack.find?_append, LayerStack.find?_append, agreeAt_ok_iff.1 h]

/-- Results that agree at every name have the same view. -/
theorem map_materialize_eq (h : ∀ name, AgreeAt name x y) :
    x.map LayerStack.materialize = y.map LayerStack.materialize := by
  cases x <;> cases y
  · cases h ""
    rfl
  · cases h ""
  · cases h ""
  · rename_i s t
    have hview : s.materialize = t.materialize := NameMap.ext_find? fun n => Except.ok.inj (h n)
    exact congrArg Except.ok hview

end AgreeAt

/-- Scopes that tell the same of a name to those that look from an environment. -/
def Scope.AgreeAt (environments : Hierarchy) (environment name : String) (s t : Scope) : Prop :=
  ∀ origin, (s.share environments origin environment).find? name = (t.share environments origin environment).find? name

namespace Inventory

variable {inv inv' : Inventory} {Rel : Owner → Scope → Scope → Prop} {environment name : String} {kind : NodeKind}

/-! ## Whatever the scopes hold -/

section Nodes

variable (h : inv.Alike Rel inv')
include h

theorem Alike.hierarchy : ∀ kind, inv.hierarchy kind = inv'.hierarchy kind
  | .environment => by
    rw [Inventory.hierarchy, Inventory.hierarchy, h.environments]
  | .project => h.projects.map_eq fun _ _ _ hn => congrArg (·.1.parents) hn.header
  | .playbook => h.playbooks.map_eq fun _ _ _ hn => congrArg (·.1.parents) hn.header
  | .hostGroup => by
    rw [Inventory.hierarchy, Inventory.hierarchy, h.hostGroups]

theorem Alike.lineage (kind : NodeKind) (n : String) : inv.lineage kind n = inv'.lineage kind n :=
  congrArg (Hierarchy.descending · n) (h.hierarchy kind)

theorem Alike.abstract? (n : String) : ∀ kind, inv.abstract? kind n = inv'.abstract? kind n
  | .environment => by
    rw [Inventory.abstract?, Inventory.abstract?, h.environments]
  | .project => by
    have hmap : inv.projects.map (·.isAbstract) = inv'.projects.map (·.isAbstract) :=
      h.projects.map_eq fun _ _ _ hn => congrArg (·.1.isAbstract) hn.header
    rw [Inventory.abstract?, Inventory.abstract?, ← NameMap.find?_map, ← NameMap.find?_map, hmap]
  | .playbook => by
    have hmap : inv.playbooks.map (·.isAbstract) = inv'.playbooks.map (·.isAbstract) :=
      h.playbooks.map_eq fun _ _ _ hn => congrArg (·.1.isAbstract) hn.header
    rw [Inventory.abstract?, Inventory.abstract?, ← NameMap.find?_map, ← NameMap.find?_map, hmap]
  | .hostGroup => by
    rw [Inventory.abstract?, Inventory.abstract?, h.hostGroups]

theorem Alike.require (kind : NodeKind) (n : String) : inv.require kind n = inv'.require kind n := by
  rw [Inventory.require, Inventory.require, h.abstract? n kind]

theorem Alike.requireDeployable (kind : NodeKind) (n : String) :
    inv.requireDeployable kind n = inv'.requireDeployable kind n := by
  rw [Inventory.requireDeployable, Inventory.requireDeployable, h.abstract? n kind]

theorem Alike.environmentVariables (environment : String) :
    inv.environmentVariables environment = inv'.environmentVariables environment := by
  unfold Inventory.environmentVariables environmentLayers
  rw [h.require, h.lineage, h.environments, h.globals]

theorem Alike.addChain (environment : String) : ∀ chain found,
    inv.addChain environment found chain = inv'.addChain environment found chain
  | [], _ => rfl
  | n :: rest, found => by
    unfold Inventory.addChain
    rw [h.hostGroups, h.hierarchy .environment]
    split
    · exact Alike.addChain environment rest found
    · exact congrArg _ (funext fun more => Alike.addChain environment rest more)

theorem Alike.hosts (hostGroup environment : String) :
    inv.hosts hostGroup environment = inv'.hosts hostGroup environment := by
  unfold Inventory.hosts
  rw [h.require, h.require, h.lineage]
  simp only [h.addChain]

theorem Alike.definesPlay (play playbook : String) :
    inv.definesPlay play playbook = inv'.definesPlay play playbook := by
  unfold Inventory.definesPlay
  obtain ⟨hn, hm⟩ | ⟨n, m, hn, hm, hnm⟩ := h.playbooks.find?_cases playbook
  · rw [hn, hm]
  · rw [hn, hm]
    obtain ⟨ha, hb⟩ | ⟨a, b, ha, hb, -⟩ := hnm.plays.find?_cases play
    · simp [Playbook.play?, ha, hb]
    · simp [Playbook.play?, ha, hb]

end Nodes

/-! ## Where every scope tells the same of a name -/

/-- What a playbook adds to the stack of a play: its own share and that of its definition of the play. -/
noncomputable def playbookShare (inv : Inventory) (play environment playbook : String) : LayerStack :=
  match inv.playbooks.find? playbook with
  | none => []
  | some b =>
    b.scope.share (inv.hierarchy .environment) ("playbook:" ++ playbook) environment ++
      match b.play? play with
      | none => []
      | some p => p.scope.share (inv.hierarchy .environment) ("play:" ++ playbook ++ "/" ++ play) environment

theorem playbookLayers_eq_share {play n : String} {b : Playbook} {stack : LayerStack}
    (hn : inv.playbooks.find? n = some b) (h : inv.playbookLayers play environment n b = .ok stack) :
    stack = inv.playbookShare play environment n := by
  unfold playbookLayers at h
  unfold playbookShare
  rw [hn]
  obtain ⟨own, hown, h⟩ := bind_eq_ok_iff.1 h
  dsimp only
  cases hp : b.play? play with
  | none =>
    rw [hp] at h
    rw [← pure_eq_ok_iff.1 h, Scope.layers_eq_share hown, List.append_nil]
  | some p =>
    rw [hp] at h
    obtain ⟨above, habove, h⟩ := bind_eq_ok_iff.1 h
    rw [← pure_eq_ok_iff.1 h, Scope.layers_eq_share hown, Scope.layers_eq_share habove]

theorem playChainLayers_eq_flatMap_share {play : String} : ∀ {chain : List String} {stack : LayerStack},
    inv.playChainLayers play environment chain = .ok stack → stack = chain.flatMap (inv.playbookShare play environment)
  | [], _, h => by
    cases h
    rfl
  | n :: rest, stack, h => by
    unfold playChainLayers at h
    rw [List.flatMap_cons]
    cases hn : inv.playbooks.find? n with
    | none =>
      rw [hn] at h
      rw [playbookShare, hn]
      exact playChainLayers_eq_flatMap_share h
    | some b =>
      rw [hn] at h
      obtain ⟨own, hown, h⟩ := bind_eq_ok_iff.1 h
      obtain ⟨above, habove, h⟩ := bind_eq_ok_iff.1 h
      rw [← pure_eq_ok_iff.1 h, playbookLayers_eq_share hn hown, playChainLayers_eq_flatMap_share habove]

section Names

variable (h : inv.Alike (fun _ => Scope.AgreeAt (inv.hierarchy .environment) environment name) inv')
include h

theorem Alike.find?_projectShare (project : String) :
    (inv.projectShare environment project).find? name = (inv'.projectShare environment project).find? name := by
  unfold projectShare
  obtain ⟨hn, hm⟩ | ⟨n, m, hn, hm, hnm⟩ := h.projects.find?_cases project
  · rw [hn, hm]
  · rw [hn, hm, ← h.hierarchy .environment]
    exact hnm.scope _

theorem Alike.find?_playbookShare (play playbook : String) :
    (inv.playbookShare play environment playbook).find? name =
      (inv'.playbookShare play environment playbook).find? name := by
  unfold playbookShare
  obtain ⟨hn, hm⟩ | ⟨n, m, hn, hm, hnm⟩ := h.playbooks.find?_cases playbook
  · rw [hn, hm]
  · rw [hn, hm, ← h.hierarchy .environment]
    dsimp only
    rw [LayerStack.find?_append, LayerStack.find?_append, hnm.scope _]
    refine congrArg (Option.or · _) ?_
    unfold Playbook.play?
    obtain ⟨ha, hb⟩ | ⟨a, b, ha, hb, hab⟩ := hnm.plays.find?_cases play
    · rw [ha, hb]
    · rw [ha, hb]
      exact hab.scope _

/-- Where the environment is sound no look-up into its hierarchy fails, so it is the shares that count. -/
theorem Alike.projectLayers (hs : (inv.hierarchy .environment).Sound environment) (project : String) :
    AgreeAt name (ofLineage (inv.projectLayers project environment))
      (ofLineage (inv'.projectLayers project environment)) := by
  unfold Inventory.projectLayers
  rw [← h.lineage]
  cases inv.lineage .project project with
  | error e => exact .refl
  | ok chain =>
    obtain ⟨s, hstack⟩ := inv.succeeds_projectChainLayers hs chain
    obtain ⟨t, hstack'⟩ := inv'.succeeds_projectChainLayers (h.hierarchy .environment ▸ hs) chain
    change AgreeAt name (ofLineage (inv.projectChainLayers environment chain))
      (ofLineage (inv'.projectChainLayers environment chain))
    rw [hstack, hstack', projectChainLayers_eq_flatMap_share hstack, projectChainLayers_eq_flatMap_share hstack']
    exact agreeAt_ok_iff.2 (LayerStack.find?_flatMap_congr fun q _ => h.find?_projectShare q)

theorem Alike.projectVariables (hs : (inv.hierarchy .environment).Sound environment) (project : String) :
    AgreeAt name (inv.projectVariables project environment) (inv'.projectVariables project environment) := by
  unfold Inventory.projectVariables
  rw [← h.require, ← h.require]
  exact .bind fun _ _ => .bind fun _ _ => h.projectLayers hs project

/-- A deployment looks up the lineage of its environment first: where that fails, so does either. -/
theorem Alike.deployVariables (project : String) :
    AgreeAt name (inv.deployVariables project environment) (inv'.deployVariables project environment) := by
  unfold Inventory.deployVariables
  rw [← h.requireDeployable, ← h.requireDeployable, ← h.environmentVariables]
  refine .bind fun _ _ => .bind fun _ _ => .bind fun below hbelow => .append below (h.projectLayers ?_ project)
  obtain ⟨_, _, hlineage⟩ := bind_eq_ok_iff.1 hbelow
  obtain ⟨chain, hchain, -⟩ := bind_eq_ok_iff.1 hlineage
  exact Hierarchy.exists_descending_iff.1 ⟨chain, ResolveError.ofLineage_eq_ok_iff.1 hchain⟩

theorem Alike.playVariables (hs : (inv.hierarchy .environment).Sound environment) (playbook play : String) :
    AgreeAt name (inv.playVariables playbook play environment) (inv'.playVariables playbook play environment) := by
  unfold Inventory.playVariables
  rw [← h.require, ← h.require, ← h.lineage]
  refine .bind fun _ _ => .bind fun _ _ => .bind fun chain _ => ?_
  have hdefines : inv.definesPlay play = inv'.definesPlay play := funext (h.definesPlay play)
  rw [← hdefines]
  split
  · obtain ⟨s, hstack⟩ := inv.succeeds_playChainLayers hs chain
    obtain ⟨t, hstack'⟩ := inv'.succeeds_playChainLayers (h.hierarchy .environment ▸ hs) chain
    rw [hstack, hstack', playChainLayers_eq_flatMap_share hstack, playChainLayers_eq_flatMap_share hstack']
    exact agreeAt_ok_iff.2 (LayerStack.find?_flatMap_congr fun q _ => h.find?_playbookShare play q)
  · exact .refl

end Names

end Inventory

end DeployInventory
