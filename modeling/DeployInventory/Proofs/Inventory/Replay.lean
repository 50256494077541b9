import DeployInventory.Proofs.Inventory.Consistent
import DeployInventory.Proofs.VariableList.Log
/-!
# Proofs.Inventory.Replay — applying a batch of records again

A batch of records settles every consistent inventory: lists of variables settle id by id, what nodes declare settles
because it is overwritten, a missing description overwriting nothing, tables and lists of hosts and of overrides because
their members do. So a log can be replayed (`applyAll_applyAll`).
-/
namespace DeployInventory

open VariableList (Dated)

theorem VariableList.settles_assign {l : VariableList} (hl : Dated l) (log : List Assignment) :
    Settles assign log l :=
  hl.assignAll_assignAll log

theorem Override.ext {o p : Override} (hq : o.query = p.query) (he : o.entries = p.entries) : o = p := by
  cases o
  cases p
  cases hq
  cases he
  rfl

theorem Override.settles_receive {o : Override} (ho : Dated o.entries) (log : List Assignment) :
    Settles receive log o := by
  have hentries : Routed receive entries some VariableList.assign := fun _ _ => rfl
  have hquery : Routed receive query (fun _ => none) overwrite := fun _ _ => rfl
  exact Override.ext (hquery.settles (settles_overwrite _ _)) (hentries.settles (VariableList.settles_assign ho _))

theorem Scope.ext {s t : Scope} (he : s.entries = t.entries) (ho : s.overrides = t.overrides) : s = t := by
  cases s
  cases t
  cases he
  cases ho
  rfl

theorem Scope.settles_assign {s : Scope} (hs : s.Consistent) (log : List Assignment) : Settles assign log s := by
  refine Scope.ext (entries_assign.settles (VariableList.settles_assign hs.entries _)) (overrides_assign.settles ?_)
  refine settles_touchNamed ?_ ?_ hs.distinct fun k => Override.settles_receive ?_ _
  · exact fun _ => rfl
  · exact fun _ _ _ _ ho => ho
  · cases hf : s.overrides.find? (·.query.environment == k) with
    | none => exact Dated.nil
    | some o => exact hs.overrides o (List.mem_of_find?_eq_some hf)

/-- **A declaration replaces what was declared before**, the description only when it has one. -/
def redeclare {α : Type} (old new : α × Option String) : α × Option String := (new.1, new.2.or old.2)

theorem settles_redeclare {α : Type} (batch : List (α × Option String)) (old : α × Option String) :
    Settles redeclare batch old := by
  have hfirst : Routed (redeclare (α := α)) Prod.fst (fun new => some new.1) overwrite := fun _ _ => rfl
  have hdescription : Routed (redeclare (α := α)) Prod.snd (fun new => new.2.map some) overwrite := by
    rintro old ⟨new, description⟩
    cases description <;> rfl
  exact Prod.ext (hfirst.settles (settles_overwrite _ _)) (hdescription.settles (settles_overwrite _ _))

/-! ## Nodes: what they declare, and what is assigned to them -/

namespace Environment

/-- What an environment declares, its description apart. -/
def header (n : Environment) : Environment × Option String :=
  ({ n with description := none, entries := [] }, n.description)

theorem ext_header {n m : Environment} (hh : n.header = m.header) (he : n.entries = m.entries) : n = m := by
  cases n
  cases m
  simp_all [header]

theorem header_receive : Routed receive header
    (fun | .environment r => some (({ name := r.name } : Environment).declare r).header | _ => none) redeclare := by
  intro n r
  cases r <;> simp [receive, header, declare, assign, redeclare]

theorem settles_receive {n : Environment} (hn : Dated n.entries) (batch : List Record) : Settles receive batch n :=
  ext_header (header_receive.settles (settles_redeclare _ _))
    (entries_receive.settles (VariableList.settles_assign hn _))

end Environment

namespace Project

def header (n : Project) : Project × Option String := ({ n with description := none, scope := {} }, n.description)

theorem ext_header {n m : Project} (hh : n.header = m.header) (hs : n.scope = m.scope) : n = m := by
  cases n
  cases m
  simp_all [header]

theorem header_receive : Routed receive header
    (fun | .project r => some (({ name := r.name } : Project).declare r).header | _ => none) redeclare := by
  intro n r
  cases r <;> simp [receive, header, declare, assign, redeclare]

theorem settles_receive {n : Project} (hn : n.scope.Consistent) (batch : List Record) : Settles receive batch n :=
  ext_header (header_receive.settles (settles_redeclare _ _)) (scope_receive.settles (Scope.settles_assign hn _))

end Project

namespace Play

def header (n : Play) : Play × Option String := ({ n with description := none, scope := {} }, n.description)

theorem ext_header {n m : Play} (hh : n.header = m.header) (hs : n.scope = m.scope) : n = m := by
  cases n
  cases m
  simp_all [header]

theorem header_receive : Routed receive header
    (fun | .play r => some (({ playbook := r.playbook, name := r.name } : Play).declare r).header | _ => none)
    redeclare := by
  intro n r
  cases r <;> simp [receive, header, declare, assign, redeclare]

theorem settles_receive {n : Play} (hn : n.scope.Consistent) (batch : List Record) : Settles receive batch n :=
  ext_header (header_receive.settles (settles_redeclare _ _)) (scope_receive.settles (Scope.settles_assign hn _))

end Play

namespace Playbook

def header (n : Playbook) : Playbook × Option String :=
  ({ n with description := none, scope := {}, plays := .empty }, n.description)

theorem ext_header {n m : Playbook} (hh : n.header = m.header) (hs : n.scope = m.scope) (hp : n.plays = m.plays) :
    n = m := by
  cases n
  cases m
  simp_all [header]

theorem header_receive : Routed receive header
    (fun | .playbook r => some (({ name := r.name } : Playbook).declare r).header | _ => none) redeclare := by
  intro n r
  cases r with
  | assignment a =>
    obtain ⟨id, entry, disabled, environment, project, playbook, play⟩ := a
    cases play <;> rfl
  | _ => simp [receive, header, declare, declarePlay, redeclare]

/-- The plays of a playbook settle as well: each is made under the playbook's name, which no record changes. -/
theorem settles_receive {k : String} {n : Playbook} (hn : n.Consistent k) {batch : List Record}
    (hbatch : ∀ r ∈ batch, r.playbook? = some k) : Settles receive batch n := by
  refine ext_header (header_receive.settles (settles_redeclare _ _))
    (scope_receive.settles (Scope.settles_assign hn.scope _)) ?_
  refine view_settles (Consistent k) plays some
    (NameMap.touch Record.play? (fun p => { playbook := k, name := p }) Play.receive)
    (fun _ hm r hr => hm.receive (hbatch r hr)) (fun m hm r _ => ?_) hn (NameMap.settles_touch _ _ _ fun p => ?_)
  · rw [plays_receive, hm.name]
    rfl
  · exact Play.settles_receive (hn.plays.getD (.fresh k p)).scope _

end Playbook

namespace HostGroup

def header (n : HostGroup) : HostGroup × Option String := ({ n with description := none, hosts := [] }, n.description)

theorem ext_header {n m : HostGroup} (hh : n.header = m.header) (hs : n.hosts = m.hosts) : n = m := by
  cases n
  cases m
  simp_all [header]

theorem header_receive : Routed receive header
    (fun | .hostGroup r => some (({ name := r.name } : HostGroup).declare r).header | _ => none) redeclare := by
  intro n r
  cases r <;> simp [receive, header, declare, declareHost, redeclare]

theorem settles_receive {n : HostGroup} (hn : (n.hosts.map (·.name)).Nodup) (batch : List Record) :
    Settles receive batch n := by
  refine ext_header (header_receive.settles (settles_redeclare _ _)) (hosts_receive.settles ?_)
  refine settles_touchNamed ?_ ?_ hn fun k => ?_
  · exact fun _ => rfl
  · exact fun _ _ _ hk _ => Option.some.inj hk
  · -- the record decides the host, whatever host there was
    have hhost : Routed (fun (_ : Host) (r : HostRecord) => Host.ofRecord r) id (some ∘ Host.ofRecord) overwrite :=
      fun _ _ => rfl
    exact hhost.settles (settles_overwrite _ _)

end HostGroup

namespace Inventory

theorem ext {inv inv' : Inventory} (he : inv.environments = inv'.environments) (hp : inv.projects = inv'.projects)
    (hb : inv.playbooks = inv'.playbooks) (hg : inv.hostGroups = inv'.hostGroups) (hv : inv.globals = inv'.globals) :
    inv = inv' := by
  cases inv
  cases inv'
  simp_all

/-- **A batch of records settles every consistent inventory.** -/
theorem Consistent.settles_apply {inv : Inventory} (hinv : inv.Consistent) (batch : List Record) :
    Settles Inventory.apply batch inv := by
  refine ext (environments_apply.settles (NameMap.settles_touch _ _ _ fun k => ?_))
    (projects_apply.settles (NameMap.settles_touch _ _ _ fun k => ?_))
    (playbooks_apply.settles (NameMap.settles_touch _ _ _ fun k => ?_))
    (hostGroups_apply.settles (NameMap.settles_touch _ _ _ fun k => ?_))
    (globals_apply.settles (VariableList.settles_assign hinv.globals _))
  · exact Environment.settles_receive (hinv.environments.getD (.fresh k)).entries _
  · exact Project.settles_receive (hinv.projects.getD (.fresh k)).scope _
  · exact Playbook.settles_receive (hinv.playbooks.getD (.fresh k)) fun r hr =>
      beq_iff_eq.1 (List.mem_filter.1 hr).2
  · exact HostGroup.settles_receive (hinv.hostGroups.getD (.fresh k)).distinct _

/-- **A log of edits can be replayed**: whatever records made an inventory, applying a batch of records to it a second
time changes nothing. -/
theorem applyAll_applyAll (records batch : List Record) :
    ((ofRecords records).applyAll batch).applyAll batch = (ofRecords records).applyAll batch :=
  (consistent_ofRecords records).settles_apply batch

end Inventory

end DeployInventory
