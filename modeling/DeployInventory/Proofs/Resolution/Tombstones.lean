import DeployInventory.Proofs.Inventory.Places
import DeployInventory.Proofs.Resolution.Agreement
import DeployInventory.Proofs.Scope.Displaced
/-!
# Proofs.Resolution.Tombstones — erasing an entry that is not there

A disabled assignment under an id that its list does not have leaves the list as it is, and so the inventory
(`apply_of_absent`). Where it is for an environment that its owner has no override for yet, there is no list: the
override is made, empty, and keeps its place among the overrides that are made later. What that changes of all that is
resolved later is told by `resolvesAs_applyAll`: the definitions of contested names, and nothing else.
-/
namespace DeployInventory

open Hierarchy (Sound)

/-! ## Where there is a list -/

section Absent

variable {a : Assignment} {l : VariableList} (hdisabled : a.disabled = true) (habsent : ∀ x ∈ l, x.id ≠ some a.id)
include hdisabled habsent

theorem VariableList.assign_of_absent : l.assign a = l := by
  unfold assign merge
  rw [if_pos hdisabled]
  refine List.filter_eq_self.2 fun x hx => ?_
  simpa [carries] using habsent x hx

theorem Scope.assignOverride_of_absent {e : String} : ∀ {overrides : List Override} {o : Override},
    overrides.find? (·.query.environment == e) = some o → o.entries = l → assignOverride e a overrides = overrides
  | [], _, h, _ => by cases h
  | p :: rest, o, h, ho => by
    unfold assignOverride
    rw [List.find?_cons] at h
    split
    · rename_i hp
      simp only [hp, beq_self_eq_true, Option.some.injEq] at h
      rw [h, ho, VariableList.assign_of_absent hdisabled habsent, ← ho]
    · rename_i hp
      rw [beq_false_of_ne hp] at h
      rw [assignOverride_of_absent h ho]

end Absent

theorem Scope.assign_of_absent {s : Scope} {a : Assignment} {l : VariableList} (hdisabled : a.disabled = true)
    (hl : s.listFor? a.environment = some l) (habsent : ∀ x ∈ l, x.id ≠ some a.id) : s.assign a = s := by
  unfold assign
  unfold listFor? at hl
  cases he : a.environment with
  | none =>
    rw [he, Option.some.injEq] at hl
    rw [hl, VariableList.assign_of_absent hdisabled habsent, ← hl]
  | some e =>
    rw [he] at hl
    obtain ⟨o, ho, hentries⟩ := Option.map_eq_some_iff.1 hl
    exact Scope.ext rfl (assignOverride_of_absent hdisabled habsent ho hentries)

/-- **Where there is no list the override is made**, behind those that there are. -/
theorem Scope.displaced_assign {s : Scope} {a : Assignment} (hdisabled : a.disabled = true)
    (hl : s.listFor? a.environment = none) :
    ∃ e, a.environment = some e ∧ s.Displaced s.overrides.length e (s.assign a) := by
  unfold listFor? at hl
  unfold assign
  cases he : a.environment with
  | none =>
    rw [he] at hl
    cases hl
  | some e =>
    rw [he] at hl
    have hnew : e ∉ s.overrides.map (·.query.environment) := by
      simpa [Option.map_eq_none_iff, List.find?_eq_none] using hl
    refine ⟨e, rfl, rfl, ?_⟩
    dsimp only
    rw [assignOverride_of_notMem hnew, VariableList.assign_of_absent hdisabled (fun _ hx => by cases hx)]
    have hunused := DisplacedOverride.unused s.overrides [] rfl hnew (by simp)
    rwa [List.append_nil] at hunused

theorem NameMap.update_of_find? {α : Type} {m : NameMap α} {k : String} {n create : α} {change : α → α}
    (hn : m.find? k = some n) (hchange : change n = n) : m.update k create change = m := by
  refine ext_find? fun j => ?_
  rw [find?_update, hn, Option.getD_some, hchange]
  split
  · rename_i hk
    rw [← hk, hn]
  · rfl

namespace Inventory

variable {inv : Inventory} {t : Assignment}

/-- Whether an owner of variables exists. -/
def hasOwner (inv : Inventory) : Owner → Bool
  | .globals => true
  | .environment n => (inv.environments.find? n).isSome
  | o => (inv.scope? o).isSome

/-- **The list that an assignment goes to**, if its owner has it already. -/
def listOf? (inv : Inventory) (a : Assignment) : Option VariableList :=
  match a.owner with
  | .globals => some inv.globals
  | .environment n => (inv.environments.find? n).map (·.entries)
  | o => (inv.scope? o).bind (·.listFor? a.environment)

/-- **A tombstone for an id that its list does not have changes nothing.** -/
theorem apply_of_absent {l : VariableList} (hdisabled : t.disabled = true) (hl : inv.listOf? t = some l)
    (habsent : ∀ x ∈ l, x.id ≠ some t.id) : inv.apply (.assignment t) = inv := by
  have hscoped : (inv.scope? t.owner).bind (·.listFor? t.environment) = some l → inv.apply (.assignment t) = inv := by
    intro h
    obtain ⟨s, hs, hl⟩ := Option.bind_eq_some_iff.1 h
    exact (alike_apply (fun _ _ => rfl) hs (s.assign_of_absent hdisabled hl habsent).symm).eq.symm
  obtain ⟨id, entry, disabled, environment, project, playbook, play⟩ := t
  cases project with
  | some k => exact hscoped hl
  | none =>
    cases playbook with
    | some k => cases play <;> exact hscoped hl
    | none =>
      cases environment with
      | none =>
        cases hl
        exact ext rfl rfl rfl rfl (VariableList.assign_of_absent hdisabled habsent)
      | some e =>
        obtain ⟨n, hn, rfl⟩ := Option.map_eq_some_iff.1 hl
        have hnode : n.assign ⟨id, entry, disabled, some e, none, none, play⟩ = n :=
          Environment.ext_header rfl (VariableList.assign_of_absent hdisabled habsent)
        have htable : inv.environments.update e { name := e }
            (·.assign ⟨id, entry, disabled, some e, none, none, play⟩) = inv.environments :=
          NameMap.update_of_find? hn hnode
        exact ext htable rfl rfl rfl rfl

/-- Only an owner that has overrides can lack the list. -/
theorem exists_scope_of_listOf? (howner : inv.hasOwner t.owner = true) (hl : inv.listOf? t = none) :
    ∃ s, inv.scope? t.owner = some s ∧ s.listFor? t.environment = none := by
  have hscoped : (inv.scope? t.owner).isSome = true → (inv.scope? t.owner).bind (·.listFor? t.environment) = none →
      ∃ s, inv.scope? t.owner = some s ∧ s.listFor? t.environment = none := by
    intro hsome hnone
    obtain ⟨s, hs⟩ := Option.isSome_iff_exists.1 hsome
    rw [hs] at hnone
    exact ⟨s, hs, hnone⟩
  unfold hasOwner at howner
  unfold listOf? at hl
  cases ho : t.owner with
  | globals =>
    rw [ho] at hl
    cases hl
  | environment n =>
    rw [ho] at hl howner
    have hnone : inv.environments.find? n = none := Option.map_eq_none_iff.1 hl
    simp [hnone] at howner
  | _ =>
    rw [ho] at hl howner hscoped
    exact hscoped howner hl

/-! ## What can be noticed later -/

/-- **A name that is contested among the overrides of an assignment's owner**: the override for the assignment's
environment decides it in the owner's scope, over one that was made after the first `made`. -/
def Contested (inv : Inventory) (t : Assignment) (made : Nat) (environment name : String) : Prop :=
  ∃ s e, inv.scope? t.owner = some s ∧ t.environment = some e ∧
    s.Contested made e (inv.hierarchy .environment) environment name

/-- **Inventories that resolve to the same**, but for the definitions of contested names. Projects and plays are seen
from environments that are sound; deployments to others fail in either. -/
structure ResolvesAs (inv inv' : Inventory) (contested : String → String → Prop) : Prop where
  environmentVariables : ∀ environment, inv.environmentVariables environment = inv'.environmentVariables environment
  hosts : ∀ hostGroup environment, inv.hosts hostGroup environment = inv'.hosts hostGroup environment
  deployVariables : ∀ project environment name, ¬ contested environment name →
    AgreeAt name (inv.deployVariables project environment) (inv'.deployVariables project environment)
  projectVariables : ∀ project environment name, (inv.hierarchy .environment).Sound environment →
    ¬ contested environment name →
      AgreeAt name (inv.projectVariables project environment) (inv'.projectVariables project environment)
  playVariables : ∀ playbook play environment name, (inv.hierarchy .environment).Sound environment →
    ¬ contested environment name →
      AgreeAt name (inv.playVariables playbook play environment) (inv'.playVariables playbook play environment)

theorem ResolvesAs.refl (contested : String → String → Prop) : inv.ResolvesAs inv contested :=
  ⟨fun _ => rfl, fun _ _ => rfl, fun _ _ _ _ => .refl, fun _ _ _ _ _ => .refl, fun _ _ _ _ _ _ => .refl⟩

/-- How the scopes of two runs differ: those of one owner in the place of an override. -/
def DisplacedFor (o : Owner) (made : Nat) (e : String) : Owner → Scope → Scope → Prop :=
  fun p s u => s = u ∨ (p = o ∧ s.Displaced made e u)

theorem kept_displacedFor (o : Owner) (made : Nat) (e : String) : Kept (DisplacedFor o made e) := by
  refine ⟨fun _ _ => .inl rfl, ?_⟩
  rintro p s u (rfl | ⟨rfl, hs⟩) a
  · exact .inl rfl
  · exact .inr ⟨rfl, hs.assign a⟩

/-- **Where scopes differ in the place of an override, resolution differs in contested names.** -/
theorem Alike.resolvesAs {inv' : Inventory} {made : Nat} {e : String} (he : t.environment = some e)
    (h : inv.Alike (DisplacedFor t.owner made e) inv') : inv.ResolvesAs inv' (inv.Contested t made) := by
  have hagree : ∀ environment name, ¬ inv.Contested t made environment name →
      inv.Alike (fun _ => Scope.AgreeAt (inv.hierarchy .environment) environment name) inv' := by
    intro environment name hfree
    refine h.mono ?_
    rintro o s u hs (rfl | ⟨rfl, hd⟩) origin
    · rfl
    · exact hd.find?_share fun hc => hfree ⟨s, e, hs, he, hc⟩
  exact ⟨h.environmentVariables, h.hosts,
    fun project environment name hfree => (hagree environment name hfree).deployVariables project,
    fun project environment name hs hfree => (hagree environment name hfree).projectVariables hs project,
    fun playbook play environment name hs hfree => (hagree environment name hfree).playVariables hs playbook play⟩

/-- The number of overrides that an owner has. -/
def overridesMade (inv : Inventory) (o : Owner) : Nat := (inv.scope? o).elim 0 (·.overrides.length)

/-- **A tombstone for an absent id.** Its owner exists, and the list that it goes to does not have its id. Where there
is that list, the tombstone changes nothing, and so no stream of records after it can tell. Where there is none, for
want of the override, what is resolved after any stream of records differs at most in the definitions of contested
names: those that the override for the tombstone's environment decides over one that was made after the tombstone. -/
theorem applyAll_tombstone (inv : Inventory) (t : Assignment) (hdisabled : t.disabled = true)
    (howner : inv.hasOwner t.owner = true) (habsent : ∀ l, inv.listOf? t = some l → ∀ x ∈ l, x.id ≠ some t.id)
    (later : List Record) :
    (inv.listOf? t ≠ none → (inv.apply (.assignment t)).applyAll later = inv.applyAll later) ∧
    (inv.applyAll later).ResolvesAs ((inv.apply (.assignment t)).applyAll later)
      ((inv.applyAll later).Contested t (inv.overridesMade t.owner)) := by
  cases hl : inv.listOf? t with
  | some l =>
    rw [apply_of_absent hdisabled hl (habsent l hl)]
    exact ⟨fun _ => rfl, .refl _⟩
  | none =>
    refine ⟨fun hsome => absurd rfl hsome, ?_⟩
    obtain ⟨s, hs, hnone⟩ := exists_scope_of_listOf? howner hl
    obtain ⟨e, he, hdisplaced⟩ := s.displaced_assign hdisabled hnone
    have hmade : inv.overridesMade t.owner = s.overrides.length := by
      rw [overridesMade, hs, Option.elim_some]
    have halike : inv.Alike (DisplacedFor t.owner s.overrides.length e) (inv.apply (.assignment t)) :=
      alike_apply (kept_displacedFor _ _ _).refl hs (.inr ⟨rfl, hdisplaced⟩)
    rw [hmade]
    exact (halike.applyAll (kept_displacedFor _ _ _) later).resolvesAs he

/-- A project without variables. -/
def bareShop : Inventory :=
  ofRecords [.environment { name := "all" }, .environment { name := "live", parents := ["all"] },
    .project { name := "shop" }]

/-- Erases an entry of an override that was never made. -/
def liveTombstone : Assignment :=
  { id := .root 9, entry := ⟨"timeout", none, .value .null⟩, disabled := true, environment := some "live",
    project := some "shop" }

/-- A timeout for one of the environments. -/
def timeoutFor (environment : String) (id : AssignmentId) : Record :=
  .assignment
    { id, entry := ⟨"timeout", none, .reference environment⟩, environment := some environment, project := some "shop" }

/-- With one override nothing is contested. -/
theorem liveTombstone_unnoticed : liveTombstone.disabled = true ∧ bareShop.hasOwner liveTombstone.owner = true ∧
    (∀ l, bareShop.listOf? liveTombstone = some l → ∀ x ∈ l, x.id ≠ some liveTombstone.id) ∧
    let later := [timeoutFor "live" (.root 1)]
    ((bareShop.applyAll later).deployVariables "shop" "live").map LayerStack.materialize =
      (((bareShop.apply (.assignment liveTombstone)).applyAll later).deployVariables "shop" "live").map
        LayerStack.materialize := by
  have howner : bareShop.hasOwner liveTombstone.owner = true := by cbv
  have habsent : ∀ l, bareShop.listOf? liveTombstone = some l → ∀ x ∈ l, x.id ≠ some liveTombstone.id := by
    have hnone : bareShop.listOf? liveTombstone = none := by cbv
    simp [hnone]
  refine ⟨rfl, howner, habsent, map_materialize_eq fun name => ?_⟩
  refine (applyAll_tombstone bareShop liveTombstone rfl howner habsent _).2.deployVariables _ _ _ ?_
  rintro ⟨s, e, hs, -, hc⟩
  have hone : ((bareShop.applyAll [timeoutFor "live" (.root 1)]).scope? liveTombstone.owner).map
      (·.overrides.length) = some 1 := by cbv
  rw [hs, Option.map_some, Option.some.injEq] at hone
  cases hc with
  | intro before p between o after hat =>
    rw [hat] at hone
    simp at hone
    omega

/-- Where the timeout of the project comes from. -/
def timeoutOrigin (inv : Inventory) : Resolved (Option String) :=
  (inv.projectVariables "shop" "live").map fun stack => (stack.materialize.find? "timeout").map (·.origin)

/-- **With two overrides the tombstone is noticed**: it makes the one for the environment itself before the one for its
parent, which decides the name then. -/
theorem liveTombstone_noticed : liveTombstone.disabled = true ∧ bareShop.hasOwner liveTombstone.owner = true ∧
    bareShop.listOf? liveTombstone = none ∧
    let later := [timeoutFor "all" (.root 1), timeoutFor "live" (.root 2)]
    timeoutOrigin (bareShop.applyAll later) = .ok (some "project:shop@live") ∧
    timeoutOrigin ((bareShop.apply (.assignment liveTombstone)).applyAll later) = .ok (some "project:shop@all") :=
  ⟨rfl, by cbv, by cbv, by cbv, by cbv⟩

end Inventory

end DeployInventory
