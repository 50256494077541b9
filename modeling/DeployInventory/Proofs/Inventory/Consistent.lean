import DeployInventory.Proofs.Inventory.Routing
import DeployInventory.Proofs.VariableList.Merge
/-!
# Proofs.Inventory.Consistent — what holds of every inventory that records make

Every list of variables ascends by id, the overrides of a scope are for different environments, the hosts of a group
have different names and name their group, and every member of a table has the name that it is stored under. The empty
inventory is consistent and every record keeps that (`Consistent.apply`).
-/
namespace DeployInventory

open VariableList (Dated)

/-- Whether what is stored under every name of a table fits the name. -/
def NameMap.All {α : Type} (Q : String → α → Prop) (m : NameMap α) : Prop := ∀ k a, m.find? k = some a → Q k a

theorem NameMap.All.empty {α : Type} (Q : String → α → Prop) : (NameMap.empty : NameMap α).All Q :=
  fun _ _ h => by cases h

theorem NameMap.All.insert {α : Type} {Q : String → α → Prop} {m : NameMap α} (hm : m.All Q) {k : String} {a : α}
    (ha : Q k a) : (m.insert k a).All Q := by
  intro k' a' h
  rw [find?_insert] at h
  split at h
  · rename_i hk
    subst hk
    exact Option.some.inj h ▸ ha
  · exact hm k' a' h

theorem NameMap.All.getD {α : Type} {Q : String → α → Prop} {m : NameMap α} (hm : m.All Q) {k : String} {fresh : α}
    (hfresh : Q k fresh) : Q k ((m.find? k).getD fresh) := by
  cases hf : m.find? k with
  | none => exact hfresh
  | some a => exact hm k a hf

theorem NameMap.All.touch {α ε : Type} {Q : String → α → Prop} {m : NameMap α} (hm : m.All Q)
    {key : ε → Option String} {fresh : String → α} {receive : α → ε → α} {r : ε} (hfresh : ∀ k, Q k (fresh k))
    (hreceive : ∀ k a, key r = some k → Q k a → Q k (receive a r)) : (m.touch key fresh receive r).All Q := by
  intro k a h
  by_cases hk : key r = some k
  · rw [find?_touch_of_eq hk, Option.some.injEq] at h
    rw [← h]
    exact hreceive k _ hk (hm.getD (hfresh k))
  · rw [find?_touch_of_ne hk] at h
    exact hm k a h

theorem forall_changeNamed {α : Type} {Q : α → Prop} (name : α → String) (k : String) {new : α} {change : α → α}
    (hnew : Q (change new)) (hchange : ∀ a, Q a → Q (change a)) : ∀ {l : List α}, (∀ a ∈ l, Q a) →
    ∀ a ∈ changeNamed name k new change l, Q a
  | [], _, a, ha => by
    rw [List.mem_singleton.1 ha]
    exact hnew
  | b :: rest, hl, a, ha => by
    obtain ⟨hb, hrest⟩ := List.forall_mem_cons.1 hl
    unfold changeNamed at ha
    split at ha
    · rcases List.mem_cons.1 ha with rfl | ha
      · exact hchange b hb
      · exact hrest a ha
    · rcases List.mem_cons.1 ha with rfl | ha
      · exact hb
      · exact forall_changeNamed name k hnew hchange hrest a ha

theorem forall_touchNamed {α ε : Type} {Q : α → Prop} {name : α → String} {key : ε → Option String}
    {fresh : String → α} {receive : α → ε → α} {l : List α} {r : ε} (hl : ∀ a ∈ l, Q a)
    (hfresh : ∀ k, key r = some k → Q (receive (fresh k) r)) (hreceive : ∀ a, Q a → Q (receive a r)) :
    ∀ a ∈ touchNamed name key fresh receive l r, Q a := by
  unfold touchNamed
  cases hk : key r with
  | none => exact hl
  | some k => exact forall_changeNamed name k (hfresh k hk) hreceive hl

/-- Variables ascend by id in the node's own list and in every override, and no environment has two overrides. -/
structure Scope.Consistent (s : Scope) : Prop where
  entries : Dated s.entries
  overrides : ∀ o ∈ s.overrides, Dated o.entries
  distinct : (s.overrides.map (·.query.environment)).Nodup

theorem Scope.Consistent.empty : Scope.Consistent {} := ⟨Dated.nil, by simp, by simp⟩

theorem Scope.Consistent.assign {s : Scope} (hs : s.Consistent) (a : Assignment) : (s.assign a).Consistent := by
  refine ⟨?_, ?_, ?_⟩
  · rw [Scope.entries_assign]
    cases Option.guard (fun a : Assignment => a.environment.isNone) a with
    | none => exact hs.entries
    | some b => exact hs.entries.assign b
  · rw [Scope.overrides_assign]
    refine forall_touchNamed hs.overrides (fun k _ => ?_) fun o ho => ?_
    · exact Dated.nil.assign a
    · exact Dated.assign ho a
  · rw [Scope.overrides_assign]
    refine nodup_touchNamed ?_ ?_ hs.distinct a
    · exact fun _ => rfl
    · exact fun _ _ _ _ ho => ho

structure Environment.Consistent (k : String) (n : Environment) : Prop where
  name : n.name = k
  entries : Dated n.entries

structure Project.Consistent (k : String) (n : Project) : Prop where
  name : n.name = k
  scope : n.scope.Consistent

structure Play.Consistent (playbook k : String) (n : Play) : Prop where
  playbook : n.playbook = playbook
  name : n.name = k
  scope : n.scope.Consistent

structure Playbook.Consistent (k : String) (n : Playbook) : Prop where
  name : n.name = k
  scope : n.scope.Consistent
  plays : n.plays.All (Play.Consistent k)

structure HostGroup.Consistent (k : String) (n : HostGroup) : Prop where
  name : n.name = k
  distinct : (n.hosts.map (·.name)).Nodup
  owned : ∀ h ∈ n.hosts, h.hostGroup = k

theorem Environment.Consistent.fresh (k : String) : Environment.Consistent k { name := k } := ⟨rfl, Dated.nil⟩

theorem Project.Consistent.fresh (k : String) : Project.Consistent k { name := k } := ⟨rfl, .empty⟩

theorem Play.Consistent.fresh (playbook k : String) : Play.Consistent playbook k { playbook := playbook, name := k } :=
  ⟨rfl, rfl, .empty⟩

theorem Playbook.Consistent.fresh (k : String) : Playbook.Consistent k { name := k } := ⟨rfl, .empty, .empty _⟩

theorem HostGroup.Consistent.fresh (k : String) : HostGroup.Consistent k { name := k } := ⟨rfl, by simp, by simp⟩

theorem Scope.Consistent.elim {s : Scope} (hs : s.Consistent) (a : Option Assignment) :
    (a.elim s s.assign).Consistent := by
  cases a with
  | none => exact hs
  | some a => exact hs.assign a

theorem Environment.Consistent.receive {k : String} {n : Environment} (hn : n.Consistent k) {r : Record}
    (hr : r.environment? = some k) : (n.receive r).Consistent k := by
  refine ⟨?_, ?_⟩
  · cases r with
    | environment r => exact Option.some.inj hr
    | _ => exact hn.name
  · rw [entries_receive]
    cases r.assignment? with
    | none => exact hn.entries
    | some a => exact hn.entries.assign a

theorem Project.Consistent.receive {k : String} {n : Project} (hn : n.Consistent k) {r : Record}
    (hr : r.project? = some k) : (n.receive r).Consistent k := by
  refine ⟨?_, ?_⟩
  · cases r with
    | project r => exact Option.some.inj hr
    | _ => exact hn.name
  · rw [scope_receive]
    exact hn.scope.elim _

theorem Play.Consistent.receive {playbook k : String} {n : Play} (hn : n.Consistent playbook k) {r : Record}
    (hb : r.playbook? = some playbook) (hr : r.play? = some k) : (n.receive r).Consistent playbook k := by
  refine ⟨?_, ?_, ?_⟩
  · cases r with
    | play r => exact Option.some.inj hb
    | _ => exact hn.playbook
  · cases r with
    | play r => exact Option.some.inj hr
    | _ => exact hn.name
  · rw [scope_receive]
    exact hn.scope.elim _

theorem Playbook.Consistent.receive {k : String} {n : Playbook} (hn : n.Consistent k) {r : Record}
    (hr : r.playbook? = some k) : (n.receive r).Consistent k := by
  refine ⟨?_, ?_, ?_⟩
  · cases r with
    | playbook r => exact Option.some.inj hr
    | assignment a =>
      obtain ⟨id, entry, disabled, environment, project, playbook, play⟩ := a
      cases play <;> exact hn.name
    | _ => exact hn.name
  · rw [scope_receive]
    exact hn.scope.elim _
  · rw [plays_receive]
    exact hn.plays.touch (fun p => hn.name ▸ .fresh n.name p) fun p n hp hn => hn.receive hr hp

theorem HostGroup.Consistent.receive {k : String} {n : HostGroup} (hn : n.Consistent k) {r : Record}
    (hr : r.hostGroup? = some k) : (n.receive r).Consistent k := by
  cases r with
  | hostGroup r => exact ⟨Option.some.inj hr, hn.distinct, hn.owned⟩
  | host r =>
    have hhosts : (n.receive (.host r)).hosts = touchHost n.hosts r := hosts_receive n (.host r)
    have hgroup : r.hostGroup = k := Option.some.inj hr
    refine ⟨hn.name, ?_, ?_⟩
    · rw [hhosts]
      refine nodup_touchNamed ?_ ?_ hn.distinct r
      · exact fun _ => rfl
      · exact fun _ _ _ hk _ => Option.some.inj hk
    · rw [hhosts]
      refine forall_touchNamed hn.owned ?_ ?_
      · exact fun _ _ => hgroup
      · exact fun _ _ => hgroup
  | _ => exact hn

namespace Inventory

/-- **What records keep.** -/
structure Consistent (inv : Inventory) : Prop where
  environments : inv.environments.All Environment.Consistent
  projects : inv.projects.All Project.Consistent
  playbooks : inv.playbooks.All Playbook.Consistent
  hostGroups : inv.hostGroups.All HostGroup.Consistent
  globals : Dated inv.globals

theorem Consistent.empty : Consistent empty := ⟨.empty _, .empty _, .empty _, .empty _, Dated.nil⟩

/-- **A record keeps an inventory consistent.** -/
theorem Consistent.apply {inv : Inventory} (hinv : inv.Consistent) (r : Record) : (inv.apply r).Consistent := by
  refine ⟨?_, ?_, ?_, ?_, ?_⟩
  · rw [environments_apply]
    exact hinv.environments.touch .fresh fun k n hk hn => hn.receive hk
  · rw [projects_apply]
    exact hinv.projects.touch .fresh fun k n hk hn => hn.receive hk
  · rw [playbooks_apply]
    exact hinv.playbooks.touch .fresh fun k n hk hn => hn.receive hk
  · rw [hostGroups_apply]
    exact hinv.hostGroups.touch .fresh fun k n hk hn => hn.receive hk
  · rw [globals_apply]
    cases r.global? with
    | none => exact hinv.globals
    | some a => exact hinv.globals.assign a

theorem Consistent.applyAll {inv : Inventory} (hinv : inv.Consistent) (records : List Record) :
    (inv.applyAll records).Consistent :=
  foldl_keeps Consistent (fun _ hs r _ => hs.apply r) hinv

theorem consistent_ofRecords (records : List Record) : (ofRecords records).Consistent :=
  Consistent.empty.applyAll records

end Inventory

end DeployInventory
