import DeployInventory.Proofs.Inventory.Consistent
import DeployInventory.Proofs.VariableList.Log
/-!
# Proofs.Inventory.Invariant — every list and every name of a folded inventory

`scopes` and `lists` go through an inventory and collect what a record can write to, wherever it stands. In a folded
inventory all lists of variables ascend by id, all scopes have one override per environment, all hosts of a group have
different names and name the group, and all that is stored has the name that it is stored under
(`ofRecords_invariant`). This is `Consistent`, which every record keeps, read off place by place.
-/
namespace DeployInventory

open VariableList (Dated)

theorem NameMap.mem_values {α : Type} {m : NameMap α} {a : α} : a ∈ m.values ↔ ∃ k, m.find? k = some a := by
  simp only [values, List.mem_map, find?_eq_some_iff]
  constructor
  · rintro ⟨⟨k, a⟩, h, rfl⟩
    exact ⟨k, h⟩
  · rintro ⟨k, h⟩
    exact ⟨(k, a), h, rfl⟩

theorem NameMap.All.forall_values {α : Type} {Q : String → α → Prop} {R : α → Prop} {m : NameMap α} (hm : m.All Q)
    (h : ∀ k a, Q k a → R a) : ∀ a ∈ m.values, R a := by
  intro a ha
  obtain ⟨k, hk⟩ := mem_values.1 ha
  exact h k a (hm k a hk)

/-- The list of a scope and those of its overrides. -/
def Scope.lists (s : Scope) : List VariableList := s.entries :: s.overrides.map (·.entries)

theorem Scope.Consistent.lists {s : Scope} (hs : s.Consistent) : ∀ l ∈ s.lists, Dated l := by
  intro l hl
  rcases List.mem_cons.1 hl with rfl | hl
  · exact hs.entries
  · obtain ⟨o, ho, rfl⟩ := List.mem_map.1 hl
    exact hs.overrides o ho

theorem Scope.Consistent.nodup_queries {s : Scope} (hs : s.Consistent) : (s.overrides.map (·.query)).Nodup := by
  have hnames : ((s.overrides.map (·.query)).map (·.environment)).Nodup := by
    rw [List.map_map]
    exact hs.distinct
  exact hnames.of_map _

namespace Inventory

/-- **Every scope**: those of projects, of playbooks and of their plays. -/
def scopes (inv : Inventory) : List Scope :=
  inv.projects.values.map (·.scope) ++
    inv.playbooks.values.flatMap fun b => b.scope :: b.plays.values.map (·.scope)

/-- **Every list of variables**: the globals, those of environments and those of scopes. -/
def lists (inv : Inventory) : List VariableList :=
  inv.globals :: inv.environments.values.map (·.entries) ++ inv.scopes.flatMap (·.lists)

variable {inv : Inventory}

theorem Consistent.scopes (hinv : inv.Consistent) : ∀ s ∈ inv.scopes, s.Consistent := by
  intro s hs
  rcases List.mem_append.1 hs with hs | hs
  · obtain ⟨n, hn, rfl⟩ := List.mem_map.1 hs
    exact hinv.projects.forall_values (fun _ _ hn => hn.scope) n hn
  · obtain ⟨b, hb, hs⟩ := List.mem_flatMap.1 hs
    obtain ⟨k, hk⟩ := NameMap.mem_values.1 hb
    have hb := hinv.playbooks k b hk
    rcases List.mem_cons.1 hs with rfl | hs
    · exact hb.scope
    · obtain ⟨n, hn, rfl⟩ := List.mem_map.1 hs
      exact hb.plays.forall_values (fun _ _ hn => hn.scope) n hn

theorem Consistent.lists (hinv : inv.Consistent) : ∀ l ∈ inv.lists, Dated l := by
  intro l hl
  rcases List.mem_append.1 hl with hl | hl
  · rcases List.mem_cons.1 hl with rfl | hl
    · exact hinv.globals
    · obtain ⟨n, hn, rfl⟩ := List.mem_map.1 hl
      exact hinv.environments.forall_values (fun _ _ hn => hn.entries) n hn
  · obtain ⟨s, hs, hl⟩ := List.mem_flatMap.1 hl
    exact (hinv.scopes s hs).lists l hl

/-- **The invariant of folded inventories.** After any stream of records every list of variables has only entries with
ids, strictly ascending; the overrides of every scope have different queries; the hosts of every group have different
names and carry the group's; and what is stored under a name has that name, a play that of its playbook too,
placeholders included. -/
theorem ofRecords_invariant (records : List Record) :
    let inv := ofRecords records
    (∀ l ∈ inv.lists, ∃ ids : List AssignmentId, l.map (·.id) = ids.map some ∧ ids.Pairwise (· < ·)) ∧
    (∀ s ∈ inv.scopes, (s.overrides.map (·.query)).Nodup) ∧
    (∀ g ∈ inv.hostGroups.values, (g.hosts.map (·.name)).Nodup ∧ ∀ h ∈ g.hosts, h.hostGroup = g.name) ∧
    (∀ k n, inv.environments.find? k = some n → n.name = k) ∧
    (∀ k n, inv.projects.find? k = some n → n.name = k) ∧
    (∀ k n, inv.hostGroups.find? k = some n → n.name = k) ∧
    ∀ k b, inv.playbooks.find? k = some b → b.name = k ∧
      ∀ p n, b.plays.find? p = some n → n.name = p ∧ n.playbook = b.name := by
  intro inv
  have hinv : inv.Consistent := consistent_ofRecords records
  refine ⟨fun l hl => (hinv.lists l hl).exists_ids, fun s hs => (hinv.scopes s hs).nodup_queries, ?_,
    fun k n hn => (hinv.environments k n hn).name, fun k n hn => (hinv.projects k n hn).name,
    fun k n hn => (hinv.hostGroups k n hn).name, fun k b hb => ?_⟩
  · exact hinv.hostGroups.forall_values fun k g hg => ⟨hg.distinct, fun h hh => (hg.owned h hh).trans hg.name.symm⟩
  · have hb := hinv.playbooks k b hb
    exact ⟨hb.name, fun p n hn => ⟨(hb.plays p n hn).name, (hb.plays p n hn).playbook.trans hb.name.symm⟩⟩

end Inventory

end DeployInventory
