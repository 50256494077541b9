import DeployInventory.Proofs.Inventory.Places
/-!
# Proofs.Inventory.Owners — whom a record makes

The variables of an owner are a scope; globals and environments have one without overrides. A record makes the owners
that it names and no others (`isSome_variablesOf?_apply`), so in a folded inventory the owners that some record names
have a scope, and it is what the assignments of the owner leave (`eq_foldl_of_variablesOf?`).
-/
namespace DeployInventory

/-- Whether a record names an owner, which is then made if there is none. -/
def Record.names (o : Owner) (r : Record) : Prop :=
  match o with
  | .globals => False
  | .environment n => r.environment? = some n
  | .project n => r.project? = some n
  | .playbook n => r.playbook? = some n
  | .play b n => r.playbook? = some b ∧ r.play? = some n

/-- The owner that a record declares. -/
def Record.declaredOwner? : Record → Option Owner
  | .environment r => some (.environment r.name)
  | .project r => some (.project r.name)
  | .playbook r => some (.playbook r.name)
  | .play r => some (.play r.playbook r.name)
  | .hostGroup _ | .host _ | .assignment _ => none

theorem Record.names_of_declaredOwner? {r : Record} {o : Owner} (h : r.declaredOwner? = some o) : r.names o := by
  cases r with
  | environment | project | playbook => cases h; rfl
  | play => cases h; exact ⟨rfl, rfl⟩
  | hostGroup | host | assignment => cases h

theorem NameMap.isSome_find?_touch {α ε : Type} {key : ε → Option String} {fresh : String → α} {receive : α → ε → α}
    {m : NameMap α} {r : ε} {k : String} :
    ((m.touch key fresh receive r).find? k).isSome ↔ (m.find? k).isSome ∨ key r = some k := by
  by_cases hk : key r = some k
  · simp [find?_touch_of_eq hk, hk]
  · simp [find?_touch_of_ne hk, hk]

namespace Inventory

variable {inv : Inventory} {o : Owner} {r : Record}

/-- **The variables of an owner**, if it has been made. -/
def variablesOf? (inv : Inventory) : Owner → Option Scope
  | .globals => some { entries := inv.globals }
  | .environment n => (inv.environments.find? n).map fun m => { entries := m.entries }
  | .project n => inv.scope? (.project n)
  | .playbook n => inv.scope? (.playbook n)
  | .play b n => inv.scope? (.play b n)

theorem isSome_play_apply {b n : String} :
    (((inv.apply r).playbooks.find? b).bind (·.play? n)).isSome ↔
      ((inv.playbooks.find? b).bind (·.play? n)).isSome ∨ r.playbook? = some b ∧ r.play? = some n := by
  have htable : (inv.apply r).playbooks = _ := playbooks_apply inv r
  by_cases hb : r.playbook? = some b
  · have hplay : ∀ m : Playbook, ((m.receive r).play? n).isSome ↔ (m.play? n).isSome ∨ r.play? = some n := fun m => by
      rw [Playbook.play?, Playbook.plays_receive, NameMap.isSome_find?_touch]
      rfl
    rw [htable, Option.elim_some, NameMap.find?_touch_of_eq hb, Option.bind_some, hplay, and_iff_right hb]
    cases inv.playbooks.find? b <;> rfl
  · rw [htable, Option.elim_some, NameMap.find?_touch_of_ne hb]
    simp [hb]

/-- **A record makes the owners that it names**, and no others. -/
theorem isSome_variablesOf?_apply :
    ((inv.apply r).variablesOf? o).isSome ↔ (inv.variablesOf? o).isSome ∨ r.names o := by
  cases o with
  | globals => simp [variablesOf?]
  | environment n =>
    have htable : (inv.apply r).environments = _ := environments_apply inv r
    simp only [variablesOf?, Option.isSome_map, htable, Option.elim_some]
    exact NameMap.isSome_find?_touch
  | project n =>
    have htable : (inv.apply r).projects = _ := projects_apply inv r
    simp only [variablesOf?, scope?, Option.isSome_map, htable, Option.elim_some]
    exact NameMap.isSome_find?_touch
  | playbook n =>
    have htable : (inv.apply r).playbooks = _ := playbooks_apply inv r
    simp only [variablesOf?, scope?, Option.isSome_map, htable, Option.elim_some]
    exact NameMap.isSome_find?_touch
  | play b n =>
    simp only [variablesOf?, scope?, Option.isSome_map]
    exact isSome_play_apply

theorem isSome_variablesOf?_applyAll {records : List Record} :
    ((inv.applyAll records).variablesOf? o).isSome ↔ (inv.variablesOf? o).isSome ∨ ∃ r ∈ records, r.names o := by
  induction records generalizing inv with
  | nil => simp [applyAll]
  | cons r records ih =>
    have hrest : ((inv.applyAll (r :: records)).variablesOf? o).isSome ↔ _ := @ih (inv.apply r)
    rw [hrest, isSome_variablesOf?_apply, List.exists_mem_cons_iff, or_assoc]

theorem exists_variablesOf? {records : List Record} (hr : r ∈ records) (ho : r.declaredOwner? = some o) :
    ∃ s, (ofRecords records).variablesOf? o = some s :=
  Option.isSome_iff_exists.1 (isSome_variablesOf?_applyAll.2 (.inr ⟨r, hr, Record.names_of_declaredOwner? ho⟩))

/-- **The scope of an owner that can have overrides** is what its assignments leave. -/
theorem eq_foldl_of_variablesOf? {records : List Record} {s : Scope} (ho : o.isScoped = true)
    (hs : (ofRecords records).variablesOf? o = some s) : s = (owned o records).foldl Scope.assign {} := by
  have hscope : (ofRecords records).scope? o = some s := by
    cases o with
    | globals | environment => cases ho
    | project | playbook | play => exact hs
  have hempty : empty.scopeOf o = {} := by cases o <;> rfl
  have hfold := (scopeOf_apply ho).foldl records empty
  rw [hempty] at hfold
  calc s = (ofRecords records).scopeOf o := by rw [scopeOf, hscope, Option.getD_some]
    _ = (owned o records).foldl Scope.assign {} := hfold

/-- Of any other owner it is the list that its assignments leave. -/
theorem eq_assignAll_of_variablesOf? {records : List Record} {s : Scope} (ho : o.isScoped = false)
    (hs : (ofRecords records).variablesOf? o = some s) :
    s = { entries := VariableList.assignAll [] (owned o records) } := by
  have hplace : addressed (o.place none) records = owned o records := by
    rw [addressed_eq_filter, owned_eq_filter]
    refine List.filter_congr fun a _ => decide_eq_decide.2 ?_
    cases o with
    | globals => exact Assignment.place_eq_globals_iff
    | environment n => exact Assignment.place_eq_environment_iff
    | project | playbook | play => cases ho
  have hentries := entriesAt_ofRecords (o.place none) records
  rw [hplace] at hentries
  rw [← hentries]
  cases o with
  | globals =>
    cases hs
    rfl
  | environment n =>
    obtain ⟨m, hm, rfl⟩ := Option.map_eq_some_iff.1 hs
    rw [Owner.place, entriesAt, listAt?, hm, Option.map_some, Option.getD_some]
  | project | playbook | play => cases ho

end Inventory
end DeployInventory
