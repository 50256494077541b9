import DeployInventory.Document.Statement
import DeployInventory.Proofs.Exchange
import DeployInventory.Proofs.Inventory.Replay
/-!
# Proofs.Inventory.Exchange — records in any order

Two records conflict when both declare one thing, when both are hosts of one group, and when both assign to one owner
either under one id in one list or for two environments. All others can be exchanged on every inventory that records
make (`apply_exchange`): a declaration carries over what was assigned to a placeholder, and a placeholder is what the
declaration starts from.
-/
namespace DeployInventory

open VariableList (Dated)

/-- What a record declares. -/
inductive Declared where
  | environment (name : String)
  | project (name : String)
  | hostGroup (name : String)
  | playbook (name : String)
  | play (playbook name : String)
deriving DecidableEq

def Record.declared? : Record → Option Declared
  | .environment r => some (.environment r.name)
  | .project r => some (.project r.name)
  | .hostGroup r => some (.hostGroup r.name)
  | .playbook r => some (.playbook r.name)
  | .play r => some (.play r.playbook r.name)
  | .host _ | .assignment _ => none

/-- Who owns the list that an assignment goes to. -/
def Assignment.owner (a : Assignment) : Owner :=
  match a.project, a.playbook, a.play, a.environment with
  | some project, _, _, _ => .project project
  | none, some playbook, none, _ => .playbook playbook
  | none, some playbook, some play, _ => .play playbook play
  | none, none, _, some environment => .environment environment
  | none, none, _, none => .globals

namespace Assignment

variable {a : Assignment} {k n : String}

/-! The members of the tables that an assignment names tell its owner. -/

theorem owner_of_global {r : Record} (h : r.global? = some a) :
    r = .assignment a ∧ a.owner = .globals ∧ a.environment = none := by
  cases r with
  | assignment b =>
    simp only [Record.global?] at h
    split at h
    · rename_i hproject hplaybook henvironment
      cases h
      exact ⟨rfl, by simp [owner, hproject, hplaybook, henvironment], henvironment⟩
    · cases h
  | _ => cases h

theorem owner_of_environment (h : (Record.assignment a).environment? = some k) :
    a.owner = .environment k ∧ a.environment = some k := by
  simp only [Record.environment?] at h
  split at h
  · rename_i hproject hplaybook
    exact ⟨by simp [owner, hproject, hplaybook, h], h⟩
  · cases h

theorem owner_of_project (h : (Record.assignment a).project? = some k) : a.owner = .project k := by
  simp only [Record.project?] at h
  simp [owner, h]

theorem owner_of_playbook (h : (Record.assignment a).playbook? = some k) (hplay : a.play = none) :
    a.owner = .playbook k := by
  simp only [Record.playbook?] at h
  split at h
  · rename_i hproject
    simp [owner, hproject, h, hplay]
  · cases h

theorem owner_of_play (h : (Record.assignment a).playbook? = some k) (hplay : a.play = some n) :
    a.owner = .play k n := by
  simp only [Record.playbook?] at h
  split at h
  · rename_i hproject
    simp [owner, hproject, h, hplay]
  · cases h

end Assignment

/-- **Whether the order of two records may count.** -/
inductive Record.Conflicts : Record → Record → Prop where
  /-- Both declare the same node or play. -/
  | declared {r q : Record} {d : Declared} (hr : r.declared? = some d) (hq : q.declared? = some d) : Conflicts r q
  /-- Both are hosts of one group. -/
  | hosts {x y : HostRecord} (hgroup : x.hostGroup = y.hostGroup) : Conflicts (.host x) (.host y)
  /-- Both assign under one id in one list. -/
  | ids {a b : Assignment} (howner : a.owner = b.owner) (henvironment : a.environment = b.environment)
      (hid : a.id = b.id) : Conflicts (.assignment a) (.assignment b)
  /-- Both assign to one owner, for two environments. -/
  | environments {a b : Assignment} {e f : String} (howner : a.owner = b.owner) (ha : a.environment = some e)
      (hb : b.environment = some f) (hne : e ≠ f) : Conflicts (.assignment a) (.assignment b)

theorem Record.Conflicts.of_eq {what : String → Declared} {r q : Record} {m n : String}
    (hr : r.declared? = some (what m)) (hq : q.declared? = some (what n)) (h : m = n) : r.Conflicts q :=
  .declared hr (h ▸ hq)

/-! ## Assignments to one owner -/

/-- Assignments of one owner that do not conflict. -/
structure Assignment.Compatible (a b : Assignment) : Prop where
  ids : a.environment = b.environment → a.id ≠ b.id
  environments : ∀ e f, a.environment = some e → b.environment = some f → e = f

theorem Assignment.compatible_of_owner {a b : Assignment}
    (h : ¬ (Record.assignment a).Conflicts (.assignment b)) (howner : a.owner = b.owner) : a.Compatible b := by
  refine ⟨fun henvironment hid => h (.ids howner henvironment hid), fun e f ha hb => ?_⟩
  by_contra hne
  exact h (.environments howner ha hb hne)

theorem VariableList.commutes_assign {l : VariableList} (hl : Dated l) {a b : Assignment} (hids : a.id ≠ b.id) :
    Commutes assign l a b :=
  (hl.assignAll_eq_of_perm (.swap b a []) (by simpa using hids)).symm

theorem Override.commutes_receive {o : Override} (ho : Dated o.entries) {a b : Assignment} (hids : a.id ≠ b.id) :
    Commutes receive o a b :=
  Override.ext rfl (VariableList.commutes_assign ho hids)

theorem Scope.commutes_assign {s : Scope} (hs : s.Consistent) {a b : Assignment} (h : a.Compatible b) :
    Commutes assign s a b := by
  refine Scope.ext (entries_assign.commutes fun x y hx hy => ?_) (overrides_assign.commutes fun x y hx hy => ?_)
  · rw [Option.guard_eq_some_iff, Option.isNone_iff_eq_none] at hx hy
    obtain ⟨rfl, ha⟩ := hx
    obtain ⟨rfl, hb⟩ := hy
    exact VariableList.commutes_assign hs.entries (h.ids (ha.trans hb.symm))
  · cases hx
    cases hy
    refine commutes_touchNamed ?_ ?_ hs.distinct h.environments fun k ha hb => ?_
    · exact fun _ => rfl
    · exact fun _ _ _ _ ho => ho
    · refine Override.commutes_receive ?_ (h.ids (ha.trans hb.symm))
      cases hf : s.overrides.find? (·.query.environment == k) with
      | none => exact Dated.nil
      | some o => exact hs.overrides o (List.mem_of_find?_eq_some hf)

/-! ## Nodes: at most one of two records declares, and what both assign is compatible -/

variable {a b : Record}

theorem Record.assignment?_eq_some_iff {r : Record} {x : Assignment} : r.assignment? = some x ↔ r = .assignment x := by
  cases r <;> simp [assignment?]

theorem Environment.commutes_receive {k : String} {n : Environment} (hn : n.Consistent k)
    (ha : a.environment? = some k) (hb : b.environment? = some k) (h : ¬ a.Conflicts b) : Commutes receive n a b := by
  refine ext_header (header_receive.commutes fun x y hx hy => ?_) (entries_receive.commutes fun x y hx hy => ?_)
  · cases a with
    | environment r =>
      cases b with
      | environment q =>
        exact absurd (.of_eq rfl rfl (Option.some.inj (ha.trans hb.symm))) h
      | _ => cases hy
    | _ => cases hx
  · obtain rfl := Record.assignment?_eq_some_iff.1 hx
    obtain rfl := Record.assignment?_eq_some_iff.1 hy
    obtain ⟨hxo, hxe⟩ := Assignment.owner_of_environment ha
    obtain ⟨hyo, hye⟩ := Assignment.owner_of_environment hb
    exact VariableList.commutes_assign hn.entries
      ((Assignment.compatible_of_owner h (hxo.trans hyo.symm)).ids (hxe.trans hye.symm))

theorem Project.commutes_receive {k : String} {n : Project} (hn : n.Consistent k) (ha : a.project? = some k)
    (hb : b.project? = some k) (h : ¬ a.Conflicts b) : Commutes receive n a b := by
  refine ext_header (header_receive.commutes fun x y hx hy => ?_) (scope_receive.commutes fun x y hx hy => ?_)
  · cases a with
    | project r =>
      cases b with
      | project q =>
        exact absurd (.of_eq rfl rfl (Option.some.inj (ha.trans hb.symm))) h
      | _ => cases hy
    | _ => cases hx
  · obtain rfl := Record.assignment?_eq_some_iff.1 hx
    obtain rfl := Record.assignment?_eq_some_iff.1 hy
    exact Scope.commutes_assign hn.scope
      (Assignment.compatible_of_owner h ((Assignment.owner_of_project ha).trans (Assignment.owner_of_project hb).symm))

theorem Play.commutes_receive {k p : String} {n : Play} (hn : n.Consistent k p) (ha : a.playbook? = some k)
    (hb : b.playbook? = some k) (hap : a.play? = some p) (hbp : b.play? = some p) (h : ¬ a.Conflicts b) :
    Commutes receive n a b := by
  refine ext_header (header_receive.commutes fun x y hx hy => ?_) (scope_receive.commutes fun x y hx hy => ?_)
  · cases a with
    | play r =>
      cases b with
      | play q =>
        have hr : (Record.play r).declared? = some (.play k p) :=
          congrArg some (congrArg₂ Declared.play (Option.some.inj ha) (Option.some.inj hap))
        have hq : (Record.play q).declared? = some (.play k p) :=
          congrArg some (congrArg₂ Declared.play (Option.some.inj hb) (Option.some.inj hbp))
        exact absurd (.declared hr hq) h
      | _ => cases hy
    | _ => cases hx
  · obtain rfl := Record.assignment?_eq_some_iff.1 hx
    obtain rfl := Record.assignment?_eq_some_iff.1 hy
    exact Scope.commutes_assign hn.scope (Assignment.compatible_of_owner h
      ((Assignment.owner_of_play ha hap).trans (Assignment.owner_of_play hb hbp).symm))

theorem Record.ownAssignment?_eq_some_iff {r : Record} {x : Assignment} :
    r.ownAssignment? = some x ↔ r = .assignment x ∧ x.play = none := by
  unfold ownAssignment?
  rw [Option.filter_eq_some_iff, assignment?_eq_some_iff, Option.isNone_iff_eq_none]

/-- The plays of a playbook are exchanged play by play, all of them made under the playbook's name. -/
theorem Playbook.commutes_receive {k : String} {n : Playbook} (hn : n.Consistent k) (ha : a.playbook? = some k)
    (hb : b.playbook? = some k) (h : ¬ a.Conflicts b) : Commutes receive n a b := by
  refine ext_header (header_receive.commutes fun x y hx hy => ?_) (scope_receive.commutes fun x y hx hy => ?_) ?_
  · cases a with
    | playbook r =>
      cases b with
      | playbook q =>
        exact absurd (.of_eq rfl rfl (Option.some.inj (ha.trans hb.symm))) h
      | _ => cases hy
    | _ => cases hx
  · obtain ⟨rfl, hxp⟩ := Record.ownAssignment?_eq_some_iff.1 hx
    obtain ⟨rfl, hyp⟩ := Record.ownAssignment?_eq_some_iff.1 hy
    exact Scope.commutes_assign hn.scope (Assignment.compatible_of_owner h
      ((Assignment.owner_of_playbook ha hxp).trans (Assignment.owner_of_playbook hb hyp).symm))
  · have hplays : ∀ r m, Playbook.Consistent k m → (m.receive r).plays = (some r).elim m.plays
        (NameMap.touch Record.play? (fun p => { playbook := k, name := p }) Play.receive m.plays) := fun r m hm => by
      rw [plays_receive, hm.name]
      rfl
    refine view_commutes (Consistent k) (hplays a) (hplays b) hn (hn.receive ha) (hn.receive hb) fun x y hx hy => ?_
    cases hx
    cases hy
    exact NameMap.commutes_touch fun p hap hbp =>
      Play.commutes_receive (hn.plays.getD (.fresh k p)) ha hb hap hbp h

theorem Record.host?_eq_some_iff {r : Record} {x : HostRecord} : r.host? = some x ↔ r = .host x := by
  cases r <;> simp [host?]

theorem HostGroup.commutes_receive {k : String} {n : HostGroup} (ha : a.hostGroup? = some k)
    (hb : b.hostGroup? = some k) (h : ¬ a.Conflicts b) : Commutes receive n a b := by
  refine ext_header (header_receive.commutes fun x y hx hy => ?_) (hosts_receive.commutes fun x y hx hy => ?_)
  · cases a with
    | hostGroup r =>
      cases b with
      | hostGroup q =>
        exact absurd (.of_eq rfl rfl (Option.some.inj (ha.trans hb.symm))) h
      | _ => cases hy
    | _ => cases hx
  · obtain rfl := Record.host?_eq_some_iff.1 hx
    obtain rfl := Record.host?_eq_some_iff.1 hy
    exact absurd (.hosts (Option.some.inj (ha.trans hb.symm))) h

namespace Inventory

/-- **Records that do not conflict commute on every consistent inventory.** -/
theorem Consistent.commutes_apply {inv : Inventory} (hinv : inv.Consistent) (h : ¬ a.Conflicts b) :
    Commutes Inventory.apply inv a b := by
  refine ext (environments_apply.commutes fun x y hx hy => ?_) (projects_apply.commutes fun x y hx hy => ?_)
    (playbooks_apply.commutes fun x y hx hy => ?_) (hostGroups_apply.commutes fun x y hx hy => ?_)
    (globals_apply.commutes fun x y hx hy => ?_)
  · cases hx
    cases hy
    exact NameMap.commutes_touch fun k ha hb =>
      Environment.commutes_receive (hinv.environments.getD (.fresh k)) ha hb h
  · cases hx
    cases hy
    exact NameMap.commutes_touch fun k ha hb => Project.commutes_receive (hinv.projects.getD (.fresh k)) ha hb h
  · cases hx
    cases hy
    exact NameMap.commutes_touch fun k ha hb => Playbook.commutes_receive (hinv.playbooks.getD (.fresh k)) ha hb h
  · cases hx
    cases hy
    exact NameMap.commutes_touch fun k ha hb => HostGroup.commutes_receive ha hb h
  · obtain ⟨rfl, hxo, hxe⟩ := Assignment.owner_of_global hx
    obtain ⟨rfl, hyo, hye⟩ := Assignment.owner_of_global hy
    exact VariableList.commutes_assign hinv.globals
      ((Assignment.compatible_of_owner h (hxo.trans hyo.symm)).ids (hxe.trans hye.symm))

/-- **Records may arrive in any order.** On every inventory that records make, two records that do not conflict leave
the same in either order. So a declaration can stand before or after all records that do not declare the same: what is
assigned to a node, or is a host or a play of it, finds the declared node or makes the placeholder that it fills. -/
theorem apply_exchange (records : List Record) (a b : Record) :
    (¬ a.Conflicts b → ((ofRecords records).apply a).apply b = ((ofRecords records).apply b).apply a) ∧
    ∀ d, a.declared? = some d → b.declared? ≠ some d →
      ((ofRecords records).apply a).apply b = ((ofRecords records).apply b).apply a := by
  have hexchange : ¬ a.Conflicts b → ((ofRecords records).apply a).apply b = ((ofRecords records).apply b).apply a :=
    (consistent_ofRecords records).commutes_apply
  refine ⟨hexchange, fun d ha hb => hexchange fun h => ?_⟩
  cases h with
  | declared ha' hb' =>
    rw [ha, Option.some.injEq] at ha'
    exact hb (ha' ▸ hb')
  | hosts _ => cases ha
  | ids _ _ _ => cases ha
  | environments _ _ _ _ => cases ha

/-- The declaration of a project. -/
def webDeclaration : Record := .project { name := "web", parents := ["base"], jobOrder := some 3 }

/-- A port of the project in one environment. -/
def webPort : Record :=
  .assignment
    { id := .root 2, entry := ⟨"port", none, .reference "web"⟩, environment := some "live", project := some "web" }

/-- Another variable for the same environment. -/
def webHost : Record :=
  .assignment
    { id := .root 1, entry := ⟨"host", none, .reference "web"⟩, environment := some "live", project := some "web" }

theorem web_exchange : ¬ webPort.Conflicts webHost ∧ webDeclaration.declared? = some (.project "web") ∧
    webPort.declared? ≠ some (.project "web") ∧
    ((ofRecords []).apply webPort).apply webHost = ((ofRecords []).apply webHost).apply webPort ∧
    ((ofRecords []).apply webDeclaration).apply webPort = ((ofRecords []).apply webPort).apply webDeclaration := by
  have hcompatible : ¬ webPort.Conflicts webHost := by
    intro h
    cases h with
    | declared ha _ => cases ha
    | ids _ _ hid => simp [AssignmentId.root] at hid
    | environments _ ha hb hne => exact hne (Option.some.inj (ha.symm.trans hb))
  exact ⟨hcompatible, rfl, by decide, (apply_exchange [] webPort webHost).1 hcompatible,
    (apply_exchange [] webDeclaration webPort).2 _ rfl (by decide)⟩

end Inventory

end DeployInventory
