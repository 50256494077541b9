import DeployInventory.Proofs.Inventory.Alike
import DeployInventory.Proofs.Inventory.Invariant
/-!
# Proofs.Inventory.Places — where assignments go

Every list of variables has a place: that of the globals, of an environment, or of a project, a playbook or a play, with
one for the owner's own variables and one for each environment that it has an override for. An assignment is addressed
to one place. Of all records a scope takes only the assignments of its owner (`scopeOf_apply`), and a list only those
addressed to its place (`entriesAt_apply`), so in a folded inventory it is what they leave of the empty list
(`ofRecords_routes`).
-/
namespace DeployInventory

/-- **A place for variables.** Where there can be overrides, an environment names the place of the one for it. -/
inductive Place where
  | globals
  | environment (name : String)
  | project (name : String) (override : Option String)
  | playbook (name : String) (override : Option String)
  | play (playbook name : String) (override : Option String)
deriving DecidableEq, Repr

/-- Whether an owner can have overrides. -/
def Owner.isScoped : Owner → Bool
  | globals | environment _ => false
  | project _ | playbook _ | play _ _ => true

/-- The place of an owner's variables, its own or those of an override. -/
def Owner.place (override : Option String) : Owner → Place
  | globals => .globals
  | environment n => .environment n
  | project n => .project n override
  | playbook n => .playbook n override
  | play b n => .play b n override

/-- **The place that an assignment is addressed to**: that of its owner, or of the owner's override for its environment.
-/
def Assignment.place (a : Assignment) : Place := a.owner.place a.environment

namespace Assignment

variable {a : Assignment} {b n : String} {o : Owner} {e : Option String}

/-! Of the fields that tell the owner, the project counts before the playbook, and the playbook before the environment.
-/

theorem owner_eq_globals_iff : a.owner = .globals ↔ a.project = none ∧ a.playbook = none ∧ a.environment = none := by
  obtain ⟨id, entry, disabled, environment, project, playbook, play⟩ := a
  cases project <;> cases playbook <;> cases play <;> cases environment <;> simp [owner]

theorem owner_eq_environment_iff :
    a.owner = .environment n ↔ a.project = none ∧ a.playbook = none ∧ a.environment = some n := by
  obtain ⟨id, entry, disabled, environment, project, playbook, play⟩ := a
  cases project <;> cases playbook <;> cases play <;> cases environment <;> simp [owner]

theorem owner_eq_project_iff : a.owner = .project n ↔ a.project = some n := by
  obtain ⟨id, entry, disabled, environment, project, playbook, play⟩ := a
  cases project <;> cases playbook <;> cases play <;> cases environment <;> simp [owner]

theorem owner_eq_playbook_iff :
    a.owner = .playbook n ↔ a.project = none ∧ a.playbook = some n ∧ a.play = none := by
  obtain ⟨id, entry, disabled, environment, project, playbook, play⟩ := a
  cases project <;> cases playbook <;> cases play <;> cases environment <;> simp [owner]

theorem owner_eq_play_iff :
    a.owner = .play b n ↔ a.project = none ∧ a.playbook = some b ∧ a.play = some n := by
  obtain ⟨id, entry, disabled, environment, project, playbook, play⟩ := a
  cases project <;> cases playbook <;> cases play <;> cases environment <;> simp [owner]

theorem place_eq_globals_iff : a.place = .globals ↔ a.owner = .globals := by
  cases h : a.owner <;> simp [place, h, Owner.place]

theorem place_eq_environment_iff : a.place = .environment n ↔ a.owner = .environment n := by
  cases h : a.owner <;> simp [place, h, Owner.place]

/-- An owner that can have overrides has a place for each, and for its own variables. -/
theorem place_eq_place_iff (ho : o.isScoped = true) : a.place = o.place e ↔ a.owner = o ∧ a.environment = e := by
  cases o with
  | globals | environment => cases ho
  | project n | playbook n | play b n => cases h : a.owner <;> simp [place, h, Owner.place, and_assoc]

end Assignment

namespace Record

variable {r : Record} {a : Assignment} {o : Owner} {p : Place}

/-- The assignment of a record, if it is one of an owner. -/
def ownedBy? (o : Owner) (r : Record) : Option Assignment := r.assignment?.filter (·.owner = o)

/-- The assignment of a record, if it is addressed to a place. -/
def at? (p : Place) (r : Record) : Option Assignment := r.assignment?.filter (·.place = p)

theorem ownedBy?_eq_some_iff : r.ownedBy? o = some a ↔ r = .assignment a ∧ a.owner = o := by
  rw [ownedBy?, Option.filter_eq_some_iff, assignment?_eq_some_iff, decide_eq_true_eq]

theorem at?_eq_some_iff : r.at? p = some a ↔ r = .assignment a ∧ a.place = p := by
  rw [at?, Option.filter_eq_some_iff, assignment?_eq_some_iff, decide_eq_true_eq]

theorem at?_eq_none_iff : r.at? p = none ↔ ∀ a, r = .assignment a → a.place ≠ p := by
  rw [Option.eq_none_iff_forall_ne_some]
  exact forall_congr' fun a => by rw [Ne, at?_eq_some_iff, not_and]

theorem playbook?_assignment_eq_some_iff {n : String} :
    (assignment a).playbook? = some n ↔ a.project = none ∧ a.playbook = some n := by
  obtain ⟨id, entry, disabled, environment, project, playbook, play⟩ := a
  cases project <;> simp [playbook?]

end Record

/-- The assignments of a stream. -/
def assignments (records : List Record) : List Assignment := records.filterMap Record.assignment?

/-- The assignments of an owner, in the order of the stream. -/
def owned (o : Owner) (records : List Record) : List Assignment := records.filterMap (Record.ownedBy? o)

/-- **The assignments addressed to a place**, in the order of the stream. -/
def addressed (p : Place) (records : List Record) : List Assignment := records.filterMap (Record.at? p)

theorem owned_eq_filter (o : Owner) (records : List Record) :
    owned o records = (assignments records).filter (·.owner = o) := by
  rw [owned, assignments, List.filter_filterMap]
  rfl

theorem addressed_eq_filter (p : Place) (records : List Record) :
    addressed p records = (assignments records).filter (·.place = p) := by
  rw [addressed, assignments, List.filter_filterMap]
  rfl

/-! ## Lists of a scope -/

namespace Scope

variable {s : Scope} {l : VariableList}

/-- The list that takes what is assigned for an environment, or for none; there is none before the override is made. -/
def listFor? (s : Scope) : Option String → Option VariableList
  | none => some s.entries
  | some e => (s.overrides.find? (·.query.environment == e)).map (·.entries)

/-- **A scope hands an assignment to one list**, which is made on its first use. -/
theorem listFor?_assign (e : Option String) : Routed assign (listFor? · e)
    (Option.guard (·.environment == e)) (touchMember VariableList.assign []) := by
  intro s a
  cases e with
  | none =>
    show some (s.assign a).entries = _
    rw [entries_assign]
    cases he : a.environment <;> simp [Option.guard, he, listFor?, touchMember]
  | some e =>
    have hfind : Routed touchOverride (List.find? (·.query.environment == e)) (Option.guard (·.environment == some e))
        (touchMember Override.receive { query := ⟨e⟩ }) := by
      refine find?_touchNamed ?_ ?_ e
      · exact fun _ => rfl
      · exact fun _ _ _ _ ho => ho
    show ((s.assign a).overrides.find? (·.query.environment == e)).map (·.entries) = _
    rw [overrides_assign, Option.elim_some, hfind]
    by_cases he : a.environment = some e
    · simp only [Option.guard, he, beq_self_eq_true, if_true, Option.elim_some, touchMember, listFor?]
      cases s.overrides.find? (·.query.environment == e) <;> rfl
    · simp [Option.guard, he, listFor?]

/-- The variables for an environment, or for none. -/
def entriesFor (s : Scope) (e : Option String) : VariableList := (s.listFor? e).getD []

theorem entriesFor_assign (e : Option String) : Routed assign (entriesFor · e)
    (Option.guard (·.environment == e)) VariableList.assign := by
  intro s a
  have hlist : (s.assign a).listFor? e = _ := listFor?_assign e s a
  dsimp only [entriesFor]
  rw [hlist]
  cases Option.guard (fun a : Assignment => a.environment == e) a <;> rfl

theorem Consistent.exists_listFor? (hs : s.Consistent) (hl : l ∈ s.lists) : ∃ e, s.listFor? e = some l := by
  rcases List.mem_cons.1 hl with rfl | hl
  · exact ⟨none, rfl⟩
  · obtain ⟨o, ho, rfl⟩ := List.mem_map.1 hl
    refine ⟨some o.query.environment, ?_⟩
    rw [listFor?, find?_of_mem (·.query.environment) hs.distinct o ho, Option.map_some]

end Scope

namespace Inventory

variable {inv : Inventory} {o : Owner} {l : VariableList}

/-! ## Scopes of owners -/

/-- The scope of an owner; nothing before the owner is made. -/
def scopeOf (inv : Inventory) (o : Owner) : Scope := (inv.scope? o).getD {}

section Member

variable {α τ : Type} {table : Inventory → NameMap α} {key : Record → Option String} {fresh : String → α}
  {receive : α → Record → α} {view : α → τ} {route route' : Record → Option Assignment} {act' : τ → Assignment → τ}
  {n : String} {start : τ}

theorem routed_member (htable : Routed apply table some (NameMap.touch key fresh receive))
    (hview : Routed receive view route act') (hfresh : view (fresh n) = start)
    (hroute : ∀ r a, route r = some a ∧ key r = some n ↔ route' r = some a) :
    Routed apply (fun inv => ((table inv).find? n).elim start view) route' act' := by
  refine (htable.comp (NameMap.routed_touch hview hfresh)).of_route fun r => Option.ext fun a => ?_
  rw [← hroute, Option.bind_some]
  by_cases hk : key r = some n <;> simp [hk]

end Member

theorem play_scope_receive (n : String) : Routed Playbook.receive (fun b => (b.plays.find? n).elim {} (·.scope))
    (fun r => if r.play? = some n then r.assignment? else none) Scope.assign := by
  intro b r
  have hplay : Routed (NameMap.touch Record.play? (fun k => { playbook := b.name, name := k }) Play.receive)
      (fun m => (m.find? n).elim {} (·.scope)) _ Scope.assign := NameMap.routed_touch Play.scope_receive rfl
  dsimp only
  rw [Playbook.plays_receive]
  exact hplay b.plays r

/-- **A scope takes the assignments of its owner**, and of all records nothing else. -/
theorem scopeOf_apply (ho : o.isScoped = true) : Routed apply (scopeOf · o) (Record.ownedBy? o) Scope.assign := by
  cases o with
  | globals | environment => cases ho
  | project n =>
    refine (routed_member projects_apply Project.scope_receive (n := n) rfl fun r a => ?_).of_view fun inv => ?_
    · rw [Record.assignment?_eq_some_iff, Record.ownedBy?_eq_some_iff, Assignment.owner_eq_project_iff]
      refine and_congr_right ?_
      rintro rfl
      rfl
    · rw [scopeOf, scope?]
      cases inv.projects.find? n <;> rfl
  | playbook n =>
    refine (routed_member playbooks_apply Playbook.scope_receive (n := n) rfl fun r a => ?_).of_view fun inv => ?_
    · rw [Record.ownAssignment?_eq_some_iff, Record.ownedBy?_eq_some_iff, Assignment.owner_eq_playbook_iff, and_assoc]
      refine and_congr_right ?_
      rintro rfl
      rw [Record.playbook?_assignment_eq_some_iff, and_comm, and_assoc]
    · rw [scopeOf, scope?]
      cases inv.playbooks.find? n <;> rfl
  | play b n =>
    refine (routed_member playbooks_apply (play_scope_receive n) (n := b) rfl fun r a => ?_).of_view fun inv => ?_
    · rw [Option.ite_none_right_eq_some, Record.assignment?_eq_some_iff, Record.ownedBy?_eq_some_iff,
        Assignment.owner_eq_play_iff]
      constructor
      · rintro ⟨⟨hplay, rfl⟩, hb⟩
        obtain ⟨hproject, hplaybook⟩ := Record.playbook?_assignment_eq_some_iff.1 hb
        exact ⟨rfl, hproject, hplaybook, hplay⟩
      · rintro ⟨rfl, hproject, hplaybook, hplay⟩
        exact ⟨⟨hplay, rfl⟩, Record.playbook?_assignment_eq_some_iff.2 ⟨hproject, hplaybook⟩⟩
    · rw [scopeOf, scope?]
      cases inv.playbooks.find? b with
      | none => rfl
      | some m =>
        rw [Option.bind_some, Option.elim_some, Playbook.play?]
        cases m.plays.find? n <;> rfl

/-! ## Lists at places -/

/-- **The list at a place**, if its owner, or the override, has been made. -/
def listAt? (inv : Inventory) : Place → Option VariableList
  | .globals => some inv.globals
  | .environment n => (inv.environments.find? n).map (·.entries)
  | .project n e => (inv.scope? (.project n)).bind (·.listFor? e)
  | .playbook n e => (inv.scope? (.playbook n)).bind (·.listFor? e)
  | .play b n e => (inv.scope? (.play b n)).bind (·.listFor? e)

/-- The variables at a place. -/
def entriesAt (inv : Inventory) (p : Place) : VariableList := (inv.listAt? p).getD []

theorem entriesAt_place (ho : o.isScoped = true) (e : Option String) :
    inv.entriesAt (o.place e) = (inv.scopeOf o).entriesFor e := by
  have hlist : inv.listAt? (o.place e) = (inv.scope? o).bind (·.listFor? e) := by
    cases o with
    | globals | environment => cases ho
    | project | playbook | play => rfl
  rw [entriesAt, hlist, scopeOf]
  cases inv.scope? o with
  | none => cases e <;> rfl
  | some s => rfl

/-- The assignments of an owner that are for one environment are addressed to one place. -/
theorem bind_guard_ownedBy? (ho : o.isScoped = true) (e : Option String) (r : Record) :
    (r.ownedBy? o).bind (Option.guard (·.environment == e)) = r.at? (o.place e) := by
  refine Option.ext fun a => ?_
  rw [Record.at?_eq_some_iff, Assignment.place_eq_place_iff ho, Option.bind_eq_some_iff]
  simp only [Record.ownedBy?_eq_some_iff, Option.guard_eq_some_iff, beq_iff_eq]
  constructor
  · rintro ⟨b, ⟨hr, hb⟩, rfl, he⟩
    exact ⟨hr, hb, he⟩
  · rintro ⟨hr, hb, he⟩
    exact ⟨a, ⟨hr, hb⟩, rfl, he⟩

/-- **A list takes the assignments addressed to its place**, and of all records nothing else. -/
theorem entriesAt_apply (p : Place) : Routed apply (entriesAt · p) (Record.at? p) VariableList.assign := by
  -- The list at a place with an owner's scope is a view of the scope, which is a view of the inventory.
  have hscoped : ∀ {o : Owner}, o.isScoped = true → ∀ e,
      Routed apply (entriesAt · (o.place e)) (Record.at? (o.place e)) VariableList.assign := fun ho e =>
    (((scopeOf_apply ho).comp (Scope.entriesFor_assign e)).of_route (bind_guard_ownedBy? ho e)).of_view
      fun inv => entriesAt_place ho e
  cases p with
  | globals =>
    refine globals_apply.of_route fun r => Option.ext fun a => ?_
    rw [Record.at?_eq_some_iff, Assignment.place_eq_globals_iff]
    constructor
    · intro h
      obtain ⟨hr, howner, -⟩ := Assignment.owner_of_global h
      exact ⟨hr, howner⟩
    · rintro ⟨rfl, h⟩
      obtain ⟨hproject, hplaybook, henvironment⟩ := Assignment.owner_eq_globals_iff.1 h
      simp [Record.global?, hproject, hplaybook, henvironment]
  | environment n =>
    refine (routed_member environments_apply Environment.entries_receive (n := n) rfl fun r a => ?_).of_view
      fun inv => ?_
    · rw [Record.assignment?_eq_some_iff, Record.at?_eq_some_iff, Assignment.place_eq_environment_iff]
      refine and_congr_right ?_
      rintro rfl
      constructor
      · exact fun h => (Assignment.owner_of_environment h).1
      · intro h
        obtain ⟨hproject, hplaybook, henvironment⟩ := Assignment.owner_eq_environment_iff.1 h
        simp [Record.environment?, hproject, hplaybook, henvironment]
    · rw [entriesAt, listAt?]
      cases inv.environments.find? n <;> rfl
  | project n e => exact hscoped (o := .project n) rfl e
  | playbook n e => exact hscoped (o := .playbook n) rfl e
  | play b n e => exact hscoped (o := .play b n) rfl e

/-- **A list of a folded inventory is what the assignments addressed to its place leave of the empty one.** -/
theorem entriesAt_ofRecords (p : Place) (records : List Record) :
    (ofRecords records).entriesAt p = VariableList.assignAll [] (addressed p records) := by
  have hempty : empty.entriesAt p = [] := by cases p <;> rfl
  calc (ofRecords records).entriesAt p = (addressed p records).foldl VariableList.assign (empty.entriesAt p) :=
        (entriesAt_apply p).foldl records empty
    _ = VariableList.assignAll [] (addressed p records) := by rw [hempty, VariableList.assignAll]

/-- **Every list of a consistent inventory has a place.** -/
theorem Consistent.exists_listAt? (hinv : inv.Consistent) (hl : l ∈ inv.lists) : ∃ p, inv.listAt? p = some l := by
  rcases List.mem_append.1 hl with hl | hl
  · rcases List.mem_cons.1 hl with rfl | hl
    · exact ⟨.globals, rfl⟩
    · obtain ⟨m, hm, rfl⟩ := List.mem_map.1 hl
      obtain ⟨n, hn⟩ := NameMap.mem_values.1 hm
      exact ⟨.environment n, by rw [listAt?, hn, Option.map_some]⟩
  obtain ⟨s, hs, hl⟩ := List.mem_flatMap.1 hl
  obtain ⟨e, he⟩ := (hinv.scopes s hs).exists_listFor? hl
  rcases List.mem_append.1 hs with hs | hs
  · obtain ⟨m, hm, rfl⟩ := List.mem_map.1 hs
    obtain ⟨n, hn⟩ := NameMap.mem_values.1 hm
    exact ⟨.project n e, by rw [listAt?, scope?, hn, Option.map_some, Option.bind_some, he]⟩
  · obtain ⟨b, hb, hs⟩ := List.mem_flatMap.1 hs
    obtain ⟨k, hk⟩ := NameMap.mem_values.1 hb
    rcases List.mem_cons.1 hs with rfl | hs
    · exact ⟨.playbook k e, by rw [listAt?, scope?, hk, Option.map_some, Option.bind_some, he]⟩
    · obtain ⟨m, hm, rfl⟩ := List.mem_map.1 hs
      obtain ⟨n, hn⟩ := NameMap.mem_values.1 hm
      refine ⟨.play k n e, ?_⟩
      rw [listAt?, scope?, hk, Option.bind_some, Playbook.play?, hn, Option.map_some, Option.bind_some, he]

/-- **Assignments are routed by their owner and their environment.** In a folded inventory the list at every place is
what the assignments addressed to the place, in the order of the stream, leave of the empty list, and every list that
there is has a place. No other record changes the list at a place, whatever inventory it is applied to. -/
theorem ofRecords_routes (records : List Record) :
    (∀ p, (ofRecords records).entriesAt p = VariableList.assignAll [] (addressed p records)) ∧
    (∀ l ∈ (ofRecords records).lists, ∃ p, (ofRecords records).listAt? p = some l ∧
      l = VariableList.assignAll [] (addressed p records)) ∧
    ∀ (inv : Inventory) (r : Record) (p : Place), (∀ a, r = .assignment a → a.place ≠ p) →
      (inv.apply r).entriesAt p = inv.entriesAt p := by
  refine ⟨fun p => entriesAt_ofRecords p records, fun l hl => ?_, fun inv r p hr => ?_⟩
  · obtain ⟨p, hp⟩ := (consistent_ofRecords records).exists_listAt? hl
    refine ⟨p, hp, ?_⟩
    rw [← entriesAt_ofRecords, entriesAt, hp, Option.getD_some]
  · have h : (inv.apply r).entriesAt p = _ := entriesAt_apply p inv r
    rw [h, Record.at?_eq_none_iff.2 hr, Option.elim_none]

end Inventory
end DeployInventory
