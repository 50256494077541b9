import DeployInventory.Proofs.Inventory.Exchange
import DeployInventory.Proofs.Related
/-!
# Proofs.Inventory.Alike — two inventories that receive the same records

Two inventories are alike when they differ at most in the scopes of their owners, and there in a given way. A way to
differ that assignments keep is kept by every stream of records (`Alike.applyAll`). An assignment to an owner that
exists leaves an inventory alike to what it was, up to what the assignment does to that owner's scope (`alike_apply`).
-/
namespace DeployInventory

/-! ## Nodes with the same declarations -/

/-- **A way for the scopes of owners to differ** that does not keep them from being equal and that assignments keep. -/
structure Kept (Rel : Owner → Scope → Scope → Prop) : Prop where
  refl : ∀ o s, Rel o s s
  assign : ∀ {o s t}, Rel o s t → ∀ a, Rel o (s.assign a) (t.assign a)

structure Project.Alike (Rel : Scope → Scope → Prop) (n m : Project) : Prop where
  header : n.header = m.header
  scope : Rel n.scope m.scope

structure Play.Alike (Rel : Scope → Scope → Prop) (n m : Play) : Prop where
  header : n.header = m.header
  scope : Rel n.scope m.scope

structure Playbook.Alike (Rel : Scope → Scope → Prop) (ofPlay : String → Scope → Scope → Prop) (n m : Playbook) :
    Prop where
  header : n.header = m.header
  scope : Rel n.scope m.scope
  plays : n.plays.Related (fun p => Play.Alike (ofPlay p)) m.plays

section Receive

variable {Rel : Owner → Scope → Scope → Prop} (hRel : Kept Rel) {o : Owner} {k : String}
include hRel

theorem Project.Alike.receive {n m : Project} (h : n.Alike (Rel o) m) (r : Record) :
    (n.receive r).Alike (Rel o) (m.receive r) :=
  ⟨header_receive.congr h.header r, scope_receive.related (fun a _ _ _ hs => hRel.assign hs a) h.scope⟩

theorem Play.Alike.receive {n m : Play} (h : n.Alike (Rel o) m) (r : Record) :
    (n.receive r).Alike (Rel o) (m.receive r) :=
  ⟨header_receive.congr h.header r, scope_receive.related (fun a _ _ _ hs => hRel.assign hs a) h.scope⟩

theorem Playbook.Alike.receive {n m : Playbook} (h : n.Alike (Rel o) (fun p => Rel (.play k p)) m) (r : Record) :
    (n.receive r).Alike (Rel o) (fun p => Rel (.play k p)) (m.receive r) := by
  refine ⟨header_receive.congr h.header r, scope_receive.related (fun a _ _ _ hs => hRel.assign hs a) h.scope, ?_⟩
  have hname : n.name = m.name := congrArg (·.1.name) h.header
  rw [plays_receive, plays_receive, hname]
  refine h.plays.touch (fun p => ?_) fun p a b _ hab => hab.receive hRel r
  exact ⟨rfl, hRel.refl _ _⟩

end Receive

namespace Inventory

/-! ## Inventories with the same nodes -/

variable {Rel Rel' : Owner → Scope → Scope → Prop} {inv inv' : Inventory} {o : Owner} {s t : Scope}

/-- **Inventories that differ at most in the scopes of their owners**, and there as the relation allows. -/
structure Alike (Rel : Owner → Scope → Scope → Prop) (inv inv' : Inventory) : Prop where
  environments : inv.environments = inv'.environments
  projects : inv.projects.Related (fun k => Project.Alike (Rel (.project k))) inv'.projects
  playbooks :
    inv.playbooks.Related (fun k => Playbook.Alike (Rel (.playbook k)) fun p => Rel (.play k p)) inv'.playbooks
  hostGroups : inv.hostGroups = inv'.hostGroups
  globals : inv.globals = inv'.globals

/-- **A record keeps two inventories alike.** -/
theorem Alike.apply (hRel : Kept Rel) (h : inv.Alike Rel inv') (r : Record) :
    (inv.apply r).Alike Rel (inv'.apply r) := by
  refine ⟨environments_apply.congr h.environments r, ?_, ?_, hostGroups_apply.congr h.hostGroups r,
    globals_apply.congr h.globals r⟩
  · rw [projects_apply, projects_apply]
    exact h.projects.touch (fun k => ⟨rfl, hRel.refl _ _⟩) fun k n m _ hn => hn.receive hRel r
  · rw [playbooks_apply, playbooks_apply]
    refine h.playbooks.touch (fun k => ⟨rfl, hRel.refl _ _, ?_⟩) fun k n m _ hn => hn.receive hRel r
    exact NameMap.Related.refl (fun p n => ⟨rfl, hRel.refl _ _⟩) _

/-- **A stream of records keeps two inventories alike.** -/
theorem Alike.applyAll (hRel : Kept Rel) : ∀ {inv inv' : Inventory} (records : List Record), inv.Alike Rel inv' →
    (inv.applyAll records).Alike Rel (inv'.applyAll records)
  | _, _, [], h => h
  | _, _, r :: records, h => Alike.applyAll hRel records (h.apply hRel r)

/-- The scope of an owner that has one; globals and environments have a list instead. -/
def scope? (inv : Inventory) : Owner → Option Scope
  | .globals | .environment _ => none
  | .project n => (inv.projects.find? n).map (·.scope)
  | .playbook n => (inv.playbooks.find? n).map (·.scope)
  | .play b n => ((inv.playbooks.find? b).bind (·.play? n)).map (·.scope)

theorem Alike.mono (h : inv.Alike Rel inv') (hmono : ∀ o s t, inv.scope? o = some s → Rel o s t → Rel' o s t) :
    inv.Alike Rel' inv' := by
  refine ⟨h.environments, h.projects.mono fun k n m hn hnm => ?_, h.playbooks.mono fun k n m hn hnm => ?_,
    h.hostGroups, h.globals⟩
  · exact ⟨hnm.header, hmono _ _ _ (by simp [scope?, hn]) hnm.scope⟩
  · refine ⟨hnm.header, hmono _ _ _ (by simp [scope?, hn]) hnm.scope, hnm.plays.mono fun p a b ha hab => ?_⟩
    exact ⟨hab.header, hmono _ _ _ (by simp [scope?, hn, Playbook.play?, ha]) hab.scope⟩

/-- Inventories with the same scopes are the same. -/
theorem Alike.eq (h : inv.Alike (fun _ s t => s = t) inv') : inv = inv' := by
  refine ext h.environments (h.projects.eq fun k n m hn => ?_) (h.playbooks.eq fun k n m hn => ?_) h.hostGroups
    h.globals
  · exact Project.ext_header hn.header hn.scope
  · exact Playbook.ext_header hn.header hn.scope (hn.plays.eq fun p a b ha => Play.ext_header ha.header ha.scope)

/-- **An assignment changes its owner's scope only.** -/
theorem alike_apply (hrefl : ∀ o s, Rel o s s) {a : Assignment} (hs : inv.scope? a.owner = some s)
    (ha : Rel a.owner s (s.assign a)) : inv.Alike Rel (inv.apply (.assignment a)) := by
  have hproject : ∀ k n, Project.Alike (Rel (.project k)) n n := fun k n => ⟨rfl, hrefl _ _⟩
  have hplay : ∀ b k n, Play.Alike (Rel (.play b k)) n n := fun b k n => ⟨rfl, hrefl _ _⟩
  have hplaybook : ∀ k n, Playbook.Alike (Rel (.playbook k)) (fun p => Rel (.play k p)) n n :=
    fun k n => ⟨rfl, hrefl _ _, .refl (hplay k) _⟩
  obtain ⟨id, entry, disabled, environment, project, playbook, play⟩ := a
  cases project with
  | some k =>
    obtain ⟨n, hn, rfl⟩ := Option.map_eq_some_iff.1 hs
    exact ⟨rfl, .update hproject hn ⟨rfl, ha⟩, .refl hplaybook _, rfl, rfl⟩
  | none =>
    cases playbook with
    | none => cases environment <;> cases hs
    | some k =>
      cases play with
      | none =>
        obtain ⟨n, hn, rfl⟩ := Option.map_eq_some_iff.1 hs
        exact ⟨rfl, .refl hproject _, .update hplaybook hn ⟨rfl, ha, .refl (hplay k) _⟩, rfl, rfl⟩
      | some p =>
        obtain ⟨m, hm, rfl⟩ := Option.map_eq_some_iff.1 hs
        obtain ⟨n, hn, hp⟩ := Option.bind_eq_some_iff.1 hm
        exact ⟨rfl, .refl hproject _, .update hplaybook hn ⟨rfl, hrefl _ _, .update (hplay k) hp ⟨rfl, ha⟩⟩, rfl, rfl⟩

end Inventory

end DeployInventory
