import DeployInventory.Loading
import DeployInventory.Proofs.Document.Numbering
/-!
# Proofs.Document.Variables — the variables of an inventory that one document makes

In a document that declares nothing twice every owner has one section. The assignments of the section come in the order
of its tables, first those without an environment, then those of one environment after the other, and their ids ascend,
so the owner's scope holds the tables as they are written (`Scope.view_foldl_assign`). No other place has a variable
(`Tells.exists_hasPlace`), and so the inventory holds the document (`ofDocument_holds_variables`).
-/
namespace DeployInventory

def Toml.Value.isEmptyTable : Toml.Value → Bool
  | .table [] => true
  | _ => false

def VariableEntry.binding (e : VariableEntry) : String × Variable := (e.name, e.content)

/-- The environment of an override with its variables. -/
def Override.view (o : Override) : String × List (String × Variable) :=
  (o.query.environment, o.entries.map (·.binding))

/-- **A scope that holds tables as they are written**: its own variables in their order, then, environment by
environment, those of every table of overrides that is not empty. -/
structure Scope.Holds (s : Scope) (values overrides : Toml.Table) : Prop where
  entries : Contents values (s.entries.map (·.binding))
  overrides : OverrideContents (overrides.filter (!·.2.isEmptyTable)) (s.overrides.map (·.view))

/-- **A place that a section has a table for**: that of its owner's own variables, or of the owner's override for an
environment. -/
inductive OwnerSection.HasPlace (s : OwnerSection) : Place → Prop where
  | own : HasPlace s (s.owner.place none)
  | override {e : String} (he : e ∈ s.overrides.map Prod.fst) : HasPlace s (s.owner.place (some e))

/-- **An inventory that holds the variables of a document** as they are written, and no others: the owner of a section
has what the section says, a place without a table has no variable, and no list of an owner without a section has one.
-/
structure Inventory.Holds (inv : Inventory) (d : Document) : Prop where
  sections : ∀ s ∈ d.ownerSections, ∃ scope, inv.variablesOf? s.owner = some scope ∧ scope.Holds s.values s.overrides
  places : ∀ p l, inv.listAt? p = some l → l ≠ [] → ∃ s ∈ d.ownerSections, s.HasPlace p
  others : ∀ o scope, inv.variablesOf? o = some scope → o ∉ d.ownerSections.map (·.owner) → ∀ l ∈ scope.lists, l = []

/-- The edit that an assignment makes. -/
def Assignment.edit (a : Assignment) : Edit := (a.environment, a.entry.name, a.entry.content)

theorem OverrideContents.filter {overrides : Toml.Table} {ws : List (String × List (String × Variable))}
    (h : OverrideContents overrides ws) :
    OverrideContents (overrides.filter (!·.2.isEmptyTable)) (ws.filter (!·.2.isEmpty)) := by
  induction h with
  | nil => exact .nil
  | @cons x w overrides ws hx _ ih =>
    obtain ⟨e, vs⟩ := w
    obtain ⟨hname, entries, htable, hentries⟩ := hx
    have hempty : x.2.isEmptyTable = vs.isEmpty := by
      rw [htable]
      cases hentries <;> rfl
    rw [List.filter_cons, List.filter_cons, hempty]
    split
    · exact .cons ⟨hname, entries, htable, hentries⟩ ih
    · exact ih

namespace Scope

variable {s : Scope} {log : List Assignment} {e : String} {vs : List (String × Variable)}
  {ws : List (String × List (String × Variable))}

theorem foldl_assign_own (hlog : ∀ a ∈ log, a.environment = none) :
    log.foldl assign s = { s with entries := s.entries.assignAll log } := by
  induction log generalizing s with
  | nil => rfl
  | cons a log ih =>
    obtain ⟨ha, hlog⟩ := List.forall_mem_cons.1 hlog
    have hassign : s.assign a = { s with entries := s.entries.assign a } := by rw [assign, ha]
    rw [List.foldl_cons, ih hlog, hassign]
    rfl

theorem assignOverride_append {a : Assignment} {os os' : List Override} (hos : ∀ o ∈ os, o.query.environment ≠ e) :
    assignOverride e a (os ++ os') = os ++ assignOverride e a os' := by
  induction os with
  | nil => rfl
  | cons o os ih =>
    obtain ⟨ho, hos⟩ := List.forall_mem_cons.1 hos
    rw [List.cons_append, assignOverride, if_neg ho, ih hos, List.cons_append]

/-- Assignments for an environment that has an override go on with it. -/
theorem foldl_assign_last {os : List Override} {l : VariableList} (hos : ∀ o ∈ os, o.query.environment ≠ e)
    (hlog : ∀ a ∈ log, a.environment = some e) :
    log.foldl assign { s with overrides := os ++ [⟨⟨e⟩, l⟩] } =
      { s with overrides := os ++ [⟨⟨e⟩, l.assignAll log⟩] } := by
  induction log generalizing l with
  | nil => rfl
  | cons a log ih =>
    obtain ⟨ha, hlog⟩ := List.forall_mem_cons.1 hlog
    have hassign : assign { s with overrides := os ++ [⟨⟨e⟩, l⟩] } a =
        { s with overrides := os ++ [⟨⟨e⟩, l.assign a⟩] } := by
      rw [assign, ha]
      dsimp only
      rw [assignOverride_append hos, assignOverride, if_pos rfl]
    rw [List.foldl_cons, hassign, ih hlog]
    rfl

/-- **Assignments for an environment without an override** make one, behind the others. -/
theorem foldl_assign_new (hos : ∀ o ∈ s.overrides, o.query.environment ≠ e) (hne : log ≠ [])
    (hlog : ∀ a ∈ log, a.environment = some e) :
    log.foldl assign s = { s with overrides := s.overrides ++ [⟨⟨e⟩, VariableList.assignAll [] log⟩] } := by
  cases log with
  | nil => contradiction
  | cons a log =>
    obtain ⟨ha, hlog⟩ := List.forall_mem_cons.1 hlog
    have hassign : s.assign a = { s with overrides := s.overrides ++ [⟨⟨e⟩, VariableList.assign [] a⟩] } := by
      have hnew : assignOverride e a (s.overrides ++ []) = s.overrides ++ assignOverride e a [] :=
        assignOverride_append hos
      rw [List.append_nil] at hnew
      rw [assign, ha]
      dsimp only
      rw [hnew, assignOverride]
    rw [List.foldl_cons, hassign, foldl_assign_last hos hlog]
    rfl

theorem map_binding_assignAll (h : Ascending log) :
    (VariableList.assignAll [] log).map (·.binding) = log.map fun a => (a.entry.name, a.entry.content) := by
  rw [h.assignAll, List.map_map]
  rfl

theorem of_map_edit {k : Option String} (hlog : log.map (·.edit) = vs.map (k, ·)) :
    (∀ a ∈ log, a.environment = k) ∧ log.map (fun a => (a.entry.name, a.entry.content)) = vs := by
  constructor
  · intro a ha
    have hedit : a.edit ∈ vs.map (k, ·) := hlog ▸ List.mem_map_of_mem ha
    obtain ⟨v, -, hv⟩ := List.mem_map.1 hedit
    exact (congrArg Prod.fst hv).symm
  · have hsnd := congrArg (List.map Prod.snd) hlog
    rw [List.map_map, List.map_map] at hsnd
    exact hsnd.trans (List.map_id vs)

/-- **Edits of one environment after the other** make one override for each that has an edit. -/
theorem view_foldl_overrides (h : Ascending log) (hlog : log.map (·.edit) = ws.flatMap fun w => w.2.map (some w.1, ·))
    (hws : (ws.map Prod.fst).Nodup) (hos : ∀ o ∈ s.overrides, o.query.environment ∉ ws.map Prod.fst) :
    (log.foldl assign s).entries = s.entries ∧
      (log.foldl assign s).overrides.map (·.view) = s.overrides.map (·.view) ++ ws.filter (!·.2.isEmpty) := by
  -- On the tables of overrides; none of those to come has an override in the scope yet (`hos`).
  induction ws generalizing log s with
  | nil =>
    rw [List.flatMap_nil, List.map_eq_nil_iff] at hlog
    simp [hlog]
  | cons w ws ih =>
    obtain ⟨hw, hws⟩ := List.nodup_cons.1 hws
    rw [List.flatMap_cons] at hlog
    obtain ⟨first, rest, rfl, hfirst, hrest⟩ := List.map_eq_append_iff.1 hlog
    obtain ⟨henvironment, hcontent⟩ := of_map_edit hfirst
    have hascending := h.sublist (List.sublist_append_right first rest)
    rw [List.foldl_append]
    -- An empty table makes no override, and that is why the overrides are those of the filtered tables.
    by_cases hempty : first = []
    · subst hempty
      have hnone : w.2 = [] := List.map_eq_nil_iff.1 hfirst.symm
      rw [List.foldl_nil, List.filter_cons_of_neg (by simp [hnone])]
      exact ih hascending hrest hws fun o ho hmem => hos o ho (List.mem_cons_of_mem _ hmem)
    · have hsome : w.2 ≠ [] := fun hnone => hempty (List.map_eq_nil_iff.1 (hfirst.trans (by rw [hnone]; rfl)))
      have hmade := foldl_assign_new (s := s) (fun o ho heq => hos o ho (heq ▸ List.mem_cons_self)) hempty henvironment
      have hview : Override.view ⟨⟨w.1⟩, VariableList.assignAll [] first⟩ = w := by
        rw [Override.view, map_binding_assignAll (h.sublist (List.sublist_append_left first rest)), hcontent]
      have hdisjoint : ∀ o ∈ (first.foldl assign s).overrides, o.query.environment ∉ ws.map Prod.fst := by
        rw [hmade]
        intro o ho
        rcases List.mem_append.1 ho with ho | ho
        · exact fun hmem => hos o ho (List.mem_cons_of_mem _ hmem)
        · rw [List.mem_singleton.1 ho]
          exact hw
      obtain ⟨hentries, hoverrides⟩ := ih hascending hrest hws hdisjoint
      rw [hentries, hoverrides, hmade, List.filter_cons_of_pos (by simpa using hsome), List.map_append, List.map_cons,
        hview, List.append_assoc]
      exact ⟨rfl, rfl⟩

/-- **The edits of a section leave its tables.** -/
theorem view_foldl_assign (h : Ascending log) (hlog : log.map (·.edit) = sectionEdits vs ws)
    (hws : (ws.map Prod.fst).Nodup) :
    (log.foldl assign {}).entries.map (·.binding) = vs ∧
      (log.foldl assign {}).overrides.map (·.view) = ws.filter (!·.2.isEmpty) := by
  obtain ⟨own, rest, rfl, hown, hrest⟩ := List.map_eq_append_iff.1 hlog
  obtain ⟨henvironment, hcontent⟩ := of_map_edit hown
  have hstart : own.foldl assign {} = { entries := VariableList.assignAll [] own } := foldl_assign_own henvironment
  have hoverrides := view_foldl_overrides (s := { entries := VariableList.assignAll [] own })
    (h.sublist (List.sublist_append_right own rest)) hrest hws (by simp)
  rw [List.foldl_append, hstart, hoverrides.1, hoverrides.2, map_binding_assignAll
    (h.sublist (List.sublist_append_left own rest)), hcontent]
  exact ⟨rfl, rfl⟩

end Scope

theorem Document.overrides_eq_nil {d : Document} {s : OwnerSection} (hs : s ∈ d.ownerSections)
    (ho : s.owner.isScoped = false) : s.overrides = [] := by
  rcases List.mem_append.1 hs with hs | hs
  · rcases List.mem_append.1 hs with hs | hs
    · rcases List.mem_cons.1 hs with rfl | hs
      · rfl
      · obtain ⟨t, -, rfl⟩ := List.mem_map.1 hs
        rfl
    · obtain ⟨t, -, rfl⟩ := List.mem_map.1 hs
      cases ho
  · obtain ⟨t, -, hs⟩ := List.mem_flatMap.1 hs
    rcases List.mem_cons.1 hs with rfl | hs
    · cases ho
    · obtain ⟨u, -, rfl⟩ := List.mem_map.1 hs
      cases ho

namespace Statement

variable {number : Nat → AssignmentId} {next : Nat} {l : List Statement} {S : List OwnerSection}

theorem mem_toRecords_of_declare {r : Record} (hr : .declare r ∈ l) : r ∈ toRecords number next l := by
  induction l generalizing next with
  | nil => cases hr
  | cons s l ih =>
    cases s with
    | declare q =>
      rcases List.mem_cons.1 hr with heq | hr
      · cases heq
        exact List.mem_cons_self
      · exact List.mem_cons_of_mem _ (ih hr)
    | assign o e name content =>
      rcases List.mem_cons.1 hr with heq | hr
      · cases heq
      · exact List.mem_cons_of_mem _ (ih hr)

theorem Tells.exists_variablesOf? (h : Tells S l) {s : OwnerSection} (hs : s ∈ S) :
    ∃ scope, (Inventory.ofRecords (toRecords number next l)).variablesOf? s.owner = some scope := by
  rcases h.exists_declare s hs with hglobals | ⟨r, hr, howner⟩
  · exact ⟨_, by rw [hglobals]; rfl⟩
  · exact Inventory.exists_variablesOf? (mem_toRecords_of_declare hr) howner

theorem Tells.map_content (h : Tells S l) {o : Owner} {vs : List (String × Variable)}
    (hedits : edits o l = sectionEdits vs []) :
    (owned o (toRecords number next l)).map (fun a => (a.entry.name, a.entry.content)) = vs := by
  rw [map_owned_toRecords (g := Prod.snd) (fun id e name content => ?_) h.assignment?_eq_none, hedits]
  · simp [sectionEdits, Function.comp_def]
  · rw [Owner.assignment_entry]

theorem Tells.map_edit (h : Tells S l) {o : Owner} (ho : o.isScoped = true) :
    (owned o (toRecords number next l)).map (·.edit) = edits o l := by
  rw [map_owned_toRecords (g := id) (fun id e name content => ?_) h.assignment?_eq_none, List.map_id]
  rw [Assignment.edit, Owner.assignment_environment ho, Owner.assignment_entry]
  rfl

/-- **The owner of a section holds what the section says.** -/
theorem Tells.exists_holds (h : Tells S l) (hdistinct : (S.map (·.owner)).Nodup)
    (hascending : Ascending (assignments (toRecords number next l))) {s : OwnerSection} (hs : s ∈ S)
    (hkeys : (s.overrides.map Prod.fst).Nodup) (hunscoped : s.owner.isScoped = false → s.overrides = []) :
    ∃ scope, (Inventory.ofRecords (toRecords number next l)).variablesOf? s.owner = some scope ∧
      scope.Holds s.values s.overrides := by
  obtain ⟨scope, hscope⟩ := h.exists_variablesOf? hs
  obtain ⟨vs, ws, hvalues, hoverrides, hedits⟩ := h.edits_eq hdistinct s hs
  have howned : Ascending (owned s.owner (toRecords number next l)) := by
    rw [owned_eq_filter]
    exact hascending.sublist List.filter_sublist
  refine ⟨scope, hscope, ?_⟩
  cases ho : s.owner.isScoped with
  | false =>
    rw [hunscoped ho] at hoverrides ⊢
    cases hoverrides
    rw [Inventory.eq_assignAll_of_variablesOf? ho hscope]
    refine ⟨?_, .nil⟩
    rw [Scope.map_binding_assignAll howned, h.map_content hedits]
    exact hvalues
  | true =>
    have hview := Scope.view_foldl_assign howned ((h.map_edit ho).trans hedits) (by rwa [hoverrides.map_fst])
    rw [Inventory.eq_foldl_of_variablesOf? ho hscope]
    refine ⟨?_, ?_⟩
    · rw [hview.1]
      exact hvalues
    · rw [hview.2]
      exact hoverrides.filter

/-- What is assigned is assigned to a place of a section. -/
theorem Tells.exists_hasPlace_of_mem (h : Tells S l) (hdistinct : (S.map (·.owner)).Nodup) {o : Owner}
    {e : Option String} {name : String} {content : Variable} (hmem : .assign o e name content ∈ l) :
    ∃ s ∈ S, s.HasPlace (o.place e) := by
  obtain ⟨s, hs, rfl⟩ := h.exists_section hmem
  obtain ⟨vs, ws, -, hoverrides, hedits⟩ := h.edits_eq hdistinct s hs
  have hedit : (e, name, content) ∈ sectionEdits vs ws := hedits ▸ List.mem_filterMap.2 ⟨_, hmem, if_pos rfl⟩
  refine ⟨s, hs, ?_⟩
  rcases List.mem_append.1 hedit with hown | hoverride
  · obtain ⟨v, -, hv⟩ := List.mem_map.1 hown
    cases hv
    exact .own
  · obtain ⟨w, hw, hedit⟩ := List.mem_flatMap.1 hoverride
    obtain ⟨v, -, hv⟩ := List.mem_map.1 hedit
    cases hv
    exact .override (hoverrides.map_fst ▸ List.mem_map_of_mem hw)

/-- **A list with a variable stands at a place of a section.** -/
theorem Tells.exists_hasPlace (h : Tells S l) (hdistinct : (S.map (·.owner)).Nodup) {p : Place} {vars : VariableList}
    (hp : (Inventory.ofRecords (toRecords number next l)).listAt? p = some vars) (hne : vars ≠ []) :
    ∃ s ∈ S, s.HasPlace p := by
  have hentries := Inventory.entriesAt_ofRecords p (toRecords number next l)
  rw [Inventory.entriesAt, hp, Option.getD_some] at hentries
  cases haddressed : addressed p (toRecords number next l) with
  | nil =>
    rw [haddressed] at hentries
    exact absurd hentries hne
  | cons a rest =>
    have ha : a ∈ addressed p (toRecords number next l) := haddressed ▸ List.mem_cons_self
    rw [addressed_eq_filter, List.mem_filter, decide_eq_true_eq] at ha
    obtain ⟨hmem, rfl⟩ := ha
    obtain ⟨i, o, e, name, content, hassign, rfl⟩ := exists_of_mem_assignments h.assignment?_eq_none hmem
    rw [Owner.assignment_place]
    exact h.exists_hasPlace_of_mem hdistinct hassign

/-- **The lists of an owner without a section are empty.** -/
theorem Tells.eq_nil_of_mem_lists (h : Tells S l) {o : Owner} (ho : o ∉ S.map (·.owner)) {scope : Scope}
    (hscope : (Inventory.ofRecords (toRecords number next l)).variablesOf? o = some scope) :
    ∀ vars ∈ scope.lists, vars = [] := by
  have howned : owned o (toRecords number next l) = [] := by
    have hedits : (owned o (toRecords number next l)).map (fun _ => ()) = (edits o l).map fun _ => () :=
      map_owned_toRecords (fun _ _ _ _ => rfl) h.assignment?_eq_none
    rw [h.edits_eq_nil ho, List.map_nil] at hedits
    exact List.map_eq_nil_iff.1 hedits
  have hempty : scope = {} := by
    cases hscoped : o.isScoped with
    | false =>
      rw [Inventory.eq_assignAll_of_variablesOf? hscoped hscope, howned]
      rfl
    | true =>
      rw [Inventory.eq_foldl_of_variablesOf? hscoped hscope, howned]
      rfl
  rw [hempty]
  exact fun vars hvars => List.mem_singleton.1 hvars

end Statement

namespace LoadedInventory

variable {source path : String} {file : Option UInt64} {d : Document} {loaded : LoadedInventory}

theorem exists_of_ofDocument (hparse : Document.parse? source = some d)
    (hload : ofDocument source path file = .ok loaded) :
    ∃ l, d.statements = .ok l ∧ loaded.records = Statement.toRecords (Document.assignmentId file) 1 l := by
  rw [ofDocument, hparse] at hload
  dsimp only at hload
  cases hrecords : d.records file with
  | error cause =>
    rw [hrecords] at hload
    cases hload
  | ok records =>
    rw [hrecords] at hload
    cases hload
    obtain ⟨l, hl, rfl⟩ := map_eq_ok_iff.1 hrecords
    exact ⟨l, hl, rfl⟩

/-- **From a document to the variables of its inventory.** Where a document declares nothing twice and no table of
overrides has a key twice, the globals, every environment, project, playbook and play hold the variables of their own
table, in its order, and a project, playbook or play has one override for each of its tables of overrides that is not
empty, in their order, with the variables of the table in its order. Nothing stands at any other place. The variables
are numbered with 64 bits. -/
theorem ofDocument_holds_variables (hparse : Document.parse? source = some d)
    (hload : ofDocument source path file = .ok loaded) (hd : d.Distinct)
    (hkeys : ∀ s ∈ d.ownerSections, (s.overrides.map Prod.fst).Nodup)
    (hcount : (assignments loaded.records).length < twoTo 64) : loaded.inventory.Holds d := by
  obtain ⟨l, hl, hrecords⟩ := exists_of_ofDocument hparse hload
  have htells := Statement.tells_statements hl
  rw [hrecords] at hcount
  have hdistinct := hd.nodup_owners (Document.playbook_of_parse? hparse)
  have hascending := Statement.ascending_toRecords htells hcount
  rw [inventory, hrecords]
  exact {
    sections := fun s hs =>
      htells.exists_holds hdistinct hascending hs (hkeys s hs) (Document.overrides_eq_nil hs)
    places := fun p vars hp hne => htells.exists_hasPlace hdistinct hp hne
    others := fun o scope hscope ho => htells.eq_nil_of_mem_lists ho hscope }

/-- A document with a project, a playbook and a play; one of the project's overrides has no variables. -/
def shopSource : String :=
  "[[project]]\nname='shop'\nvars.port=80\n[project.overrides.old]\n[project.overrides.live]\nport=443\n" ++
    "[[playbook]]\nname='site'\n[[playbook.plays]]\nname='web'\nvars.forks=8\n"

theorem shopSource_holds_variables : ∃ d loaded, Document.parse? shopSource = some d ∧
    ofDocument shopSource "shop.toml" none = .ok loaded ∧ d.Distinct ∧
    (∀ s ∈ d.ownerSections, (s.overrides.map Prod.fst).Nodup) ∧ (assignments loaded.records).length < twoTo 64 ∧
    loaded.inventory.Holds d ∧ loaded.inventory.listAt? (.project "shop" (some "old")) = none ∧
    (loaded.inventory.entriesAt (.project "shop" (some "live"))).map (·.name) = ["port"] := by
  have hcheck : (Document.parse? shopSource).any (fun d =>
      (ofDocument shopSource "shop.toml" none).toOption.any fun loaded =>
        decide ((d.environments.map (·.record.name)).Nodup ∧ (d.projects.map (·.record.name)).Nodup ∧
          (d.playbooks.map (·.record.name)).Nodup ∧ (∀ s ∈ d.playbooks, (s.plays.map (·.record.name)).Nodup) ∧
          (∀ s ∈ d.ownerSections, (s.overrides.map Prod.fst).Nodup) ∧
          (assignments loaded.records).length < twoTo 64 ∧
          loaded.inventory.listAt? (.project "shop" (some "old")) = none ∧
          (loaded.inventory.entriesAt (.project "shop" (some "live"))).map (·.name) = ["port"])) = true := by
    decide +kernel
  obtain ⟨d, hparse, hcheck⟩ := exists_of_any hcheck
  obtain ⟨loaded, hload, hcheck⟩ := exists_of_any hcheck
  obtain ⟨henvironments, hprojects, hplaybooks, hplays, hkeys, hcount, hold, hlive⟩ := of_decide_eq_true hcheck
  have hd : d.Distinct := ⟨henvironments, hprojects, hplaybooks, hplays⟩
  rw [toOption_eq_some_iff] at hload
  exact ⟨d, loaded, hparse, hload, hd, hkeys, hcount, ofDocument_holds_variables hparse hload hd hkeys hcount, hold,
    hlive⟩

end LoadedInventory
end DeployInventory
