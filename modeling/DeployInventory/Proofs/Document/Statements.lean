import DeployInventory.Proofs.Checked
import DeployInventory.Proofs.Document.Sections
import DeployInventory.Proofs.Inventory.Owners
/-!
# Proofs.Document.Statements — what a document says, section by section

Whatever the kind of its owner, a section of a document is an owner with a table of variables and tables of overrides.
The statements of a document tell its sections one after the other: what declares the owner, then the variables of its
own table, then those of its overrides, each in the order of the table (`tells_statements`). So an owner with one
section is given exactly the variables of this section (`Tells.edits_eq`).
-/
namespace DeployInventory

/-- **The variables of a table**, in its order. -/
def Contents (table : Toml.Table) (vs : List (String × Variable)) : Prop :=
  List.Forall₂ (fun x v => v.1 = x.1 ∧ Variable.ofToml x.2 = .ok v.2) table vs

/-- The variables of tables of overrides, environment by environment. -/
def OverrideContents (overrides : Toml.Table) (ws : List (String × List (String × Variable))) : Prop :=
  List.Forall₂ (fun x w => w.1 = x.1 ∧ ∃ entries, x.2 = .table entries ∧ Contents entries w.2) overrides ws

/-- **A variable given to an owner**: for an environment or for none, by its name. -/
abbrev Edit := Option String × String × Variable

/-- The edits of a section: those of its own table, then those of its overrides. -/
def sectionEdits (vs : List (String × Variable)) (ws : List (String × List (String × Variable))) : List Edit :=
  vs.map (none, ·) ++ ws.flatMap fun w => w.2.map (some w.1, ·)

theorem OverrideContents.map_fst {overrides : Toml.Table} {ws : List (String × List (String × Variable))}
    (h : OverrideContents overrides ws) : ws.map Prod.fst = overrides.map Prod.fst := by
  induction h with
  | nil => rfl
  | cons hx _ ih => rw [List.map_cons, List.map_cons, hx.1, ih]

/-! ## Telling sections -/

theorem Record.assignment?_of_declaredOwner? {r : Record} {o : Owner} (h : r.declaredOwner? = some o) :
    r.assignment? = none := by
  cases r with
  | assignment a => cases h
  | environment | project | hostGroup | host | playbook | play => rfl

/-- **Records that an owner's section starts with**: they assign nothing and declare the owner, if it is one that is
declared. -/
def Owner.DeclaredBy (o : Owner) (head : List Record) : Prop :=
  (∀ r ∈ head, r.assignment? = none) ∧ (o = .globals ∨ ∃ r ∈ head, r.declaredOwner? = some o)

namespace Statement

def ofEdit (o : Owner) (x : Edit) : Statement := .assign o x.1 x.2.1 x.2.2

/-- The edit of an owner that a statement makes. -/
def editOf? (o : Owner) : Statement → Option Edit
  | .assign owner e name content => if owner = o then some (e, name, content) else none
  | .declare _ => none

/-- **The edits of an owner**, in the order of the statements. -/
def edits (o : Owner) (l : List Statement) : List Edit := l.filterMap (editOf? o)

/-- **Statements that tell sections**, one after the other; host groups and hosts may be declared between them. -/
inductive Tells : List OwnerSection → List Statement → Prop where
  | nil : Tells [] []
  | host {S l} (r : Record) (hr : r.assignment? = none) (h : Tells S l) : Tells S (.declare r :: l)
  | owner {S l} (s : OwnerSection) (head : List Record) (vs : List (String × Variable))
      (ws : List (String × List (String × Variable))) (hhead : s.owner.DeclaredBy head)
      (hvalues : Contents s.values vs) (hoverrides : OverrideContents s.overrides ws) (h : Tells S l) :
      Tells (s :: S) (head.map .declare ++ (sectionEdits vs ws).map (ofEdit s.owner) ++ l)

/-! ## Documents tell their sections -/

theorem exists_of_ofTable {o : Owner} {e : Option String} : ∀ {table : Toml.Table} {l : List Statement},
    ofTable o e table = .ok l → ∃ vs, Contents table vs ∧ l = vs.map fun v => ofEdit o (e, v)
  | [], l, h => by
    cases h
    exact ⟨[], .nil, rfl⟩
  | (name, v) :: table, l, h => by
    unfold ofTable at h
    split at h
    · split at h
      · cases h
      · rename_i content hcontent
        obtain ⟨rest, hrest, rfl⟩ := map_eq_ok_iff.1 h
        obtain ⟨vs, hvs, rfl⟩ := exists_of_ofTable hrest
        exact ⟨(name, content) :: vs, .cons ⟨rfl, hcontent⟩ hvs, rfl⟩
    · cases h

theorem exists_of_ofOverrides {o : Owner} : ∀ {overrides : Toml.Table} {l : List Statement},
    ofOverrides o overrides = .ok l → ∃ ws, OverrideContents overrides ws ∧
      l = (ws.flatMap fun w => w.2.map (some w.1, ·)).map (ofEdit o)
  | [], l, h => by
    cases h
    exact ⟨[], .nil, rfl⟩
  | (e, v) :: overrides, l, h => by
    cases v with
    | table entries =>
      obtain ⟨own, hown, h⟩ := bind_eq_ok_iff.1 h
      obtain ⟨rest, hrest, h⟩ := bind_eq_ok_iff.1 h
      obtain ⟨vs, hvs, rfl⟩ := exists_of_ofTable hown
      obtain ⟨ws, hws, rfl⟩ := exists_of_ofOverrides hrest
      refine ⟨(e, vs) :: ws, .cons ⟨rfl, entries, rfl, hvs⟩ hws, ?_⟩
      rw [← pure_eq_ok_iff.1 h, List.flatMap_cons, List.map_append, List.map_map]
      rfl
    | string | integer | float | overflow | boolean | dateTime | array => cases h

variable {S T : List OwnerSection} {l k : List Statement}

theorem Tells.append (h : Tells S l) (hk : Tells T k) : Tells (S ++ T) (l ++ k) := by
  induction h with
  | nil => exact hk
  | host r hr _ ih => exact .host r hr ih
  | owner s head vs ws hhead hvalues hoverrides _ ih =>
    rw [List.append_assoc]
    exact .owner s head vs ws hhead hvalues hoverrides ih

theorem tells_globals {values : Toml.Table} (h : ofTable .globals none values = .ok l) :
    Tells [⟨.globals, values, []⟩] l := by
  obtain ⟨vs, hvs, rfl⟩ := exists_of_ofTable h
  have hglobals := Tells.nil.owner ⟨.globals, values, []⟩ [] vs [] ⟨by simp, .inl rfl⟩ hvs .nil
  simpa [sectionEdits, Function.comp_def] using hglobals

theorem tells_ofOwner {r : Record} {o : Owner} {values overrides : Toml.Table} (hr : r.declaredOwner? = some o)
    (h : ofOwner r o values overrides = .ok l) : Tells [⟨o, values, overrides⟩] l := by
  obtain ⟨own, hown, h⟩ := bind_eq_ok_iff.1 h
  obtain ⟨rest, hrest, h⟩ := bind_eq_ok_iff.1 h
  obtain ⟨vs, hvs, rfl⟩ := exists_of_ofTable hown
  obtain ⟨ws, hws, rfl⟩ := exists_of_ofOverrides hrest
  have hhead : o.DeclaredBy [r] :=
    ⟨List.forall_mem_singleton.2 (Record.assignment?_of_declaredOwner? hr), .inr ⟨r, List.mem_singleton_self r, hr⟩⟩
  have howner := Tells.nil.owner ⟨o, values, overrides⟩ [r] vs ws hhead hvs hws
  rw [← pure_eq_ok_iff.1 h]
  simpa [sectionEdits, Function.comp_def] using howner

theorem tells_ofAll {α : Type} {f : α → Except DocumentError (List Statement)} (sections : α → List OwnerSection)
    (hf : ∀ a l, f a = .ok l → Tells (sections a) l) : ∀ {as : List α} {l : List Statement},
    ofAll f as = .ok l → Tells (as.flatMap sections) l
  | [], l, h => by
    cases h
    exact .nil
  | a :: as, l, h => by
    obtain ⟨first, hfirst, h⟩ := bind_eq_ok_iff.1 h
    obtain ⟨rest, hrest, h⟩ := bind_eq_ok_iff.1 h
    rw [← pure_eq_ok_iff.1 h, List.flatMap_cons]
    exact (hf a first hfirst).append (tells_ofAll sections hf hrest)

theorem tells_hosts {l : List Statement} (hl : ∀ s ∈ l, ∃ r, s = .declare r ∧ r.assignment? = none) : Tells [] l := by
  induction l with
  | nil => exact .nil
  | cons s l ih =>
    obtain ⟨r, rfl, hr⟩ := hl s List.mem_cons_self
    exact .host r hr (ih fun s hs => hl s (List.mem_cons_of_mem _ hs))

theorem tells_ofHostGroups (groups : List HostGroupSection) : Tells [] (groups.flatMap ofHostGroup) := by
  refine tells_hosts fun s hs => ?_
  obtain ⟨g, -, hs⟩ := List.mem_flatMap.1 hs
  rcases List.mem_cons.1 hs with rfl | hs
  · exact ⟨_, rfl, rfl⟩
  · obtain ⟨h, -, rfl⟩ := List.mem_map.1 hs
    exact ⟨_, rfl, rfl⟩

theorem tells_ofPlaybook {s : PlaybookSection} (h : ofPlaybook s = .ok l) : Tells s.ownerSections l := by
  obtain ⟨own, hown, h⟩ := bind_eq_ok_iff.1 h
  obtain ⟨plays, hplays, h⟩ := bind_eq_ok_iff.1 h
  rw [← pure_eq_ok_iff.1 h, PlaybookSection.ownerSections, List.map_eq_flatMap]
  have hplay : ∀ (t : PlaySection) l, ofPlay t = .ok l → Tells [t.ownerSection] l := fun t _ ht =>
    tells_ofOwner (r := .play t.record) rfl ht
  exact (tells_ofOwner (r := .playbook s.record) rfl hown).append
    (tells_ofAll (fun t : PlaySection => [t.ownerSection]) hplay hplays)

/-- **A document tells its sections.** -/
theorem tells_statements {d : Document} (h : d.statements = .ok l) : Tells d.ownerSections l := by
  obtain ⟨globals, hglobals, h⟩ := bind_eq_ok_iff.1 h
  obtain ⟨environments, henvironments, h⟩ := bind_eq_ok_iff.1 h
  obtain ⟨projects, hprojects, h⟩ := bind_eq_ok_iff.1 h
  obtain ⟨playbooks, hplaybooks, h⟩ := bind_eq_ok_iff.1 h
  have htold := ((((tells_globals hglobals).append
    (tells_ofAll (fun s => [s.ownerSection]) (fun s _ hs => tells_ofOwner rfl hs) henvironments)).append
    (tells_ofHostGroups d.hostGroups)).append
    (tells_ofAll (fun s => [s.ownerSection]) (fun s _ hs => tells_ofOwner rfl hs) hprojects)).append
    (tells_ofAll PlaybookSection.ownerSections (fun _ _ => tells_ofPlaybook) hplaybooks)
  rw [← pure_eq_ok_iff.1 h]
  simpa [Document.ownerSections, List.map_eq_flatMap] using htold

/-! ## What statements that tell sections say -/

@[simp] theorem edits_append (o : Owner) (l k : List Statement) : edits o (l ++ k) = edits o l ++ edits o k :=
  List.filterMap_append

theorem edits_declare (o : Owner) (head : List Record) : edits o (head.map .declare) = [] := by
  rw [edits, List.filterMap_map]
  exact List.filterMap_eq_nil_iff.2 fun _ _ => rfl

theorem edits_ofEdit (o o' : Owner) (es : List Edit) : edits o (es.map (ofEdit o')) = if o' = o then es else [] := by
  rw [edits, List.filterMap_map]
  split
  · rename_i ho
    have hsome : ∀ x ∈ es, (editOf? o ∘ ofEdit o') x = some x := fun _ _ => if_pos ho
    rw [List.filterMap_eq_map_iff_forall_eq_some.2 hsome, List.map_id']
  · rename_i ho
    exact List.filterMap_eq_nil_iff.2 fun _ _ => if_neg ho

/-- What declares an owner assigns nothing. -/
theorem Tells.assignment?_eq_none (h : Tells S l) : ∀ r, .declare r ∈ l → r.assignment? = none := by
  induction h with
  | nil => simp
  | host r hr _ ih =>
    intro q hq
    rcases List.mem_cons.1 hq with hq | hq
    · cases hq
      exact hr
    · exact ih q hq
  | owner s head vs ws hhead _ _ _ ih =>
    intro r hr
    rcases List.mem_append.1 hr with hr | hr
    · rcases List.mem_append.1 hr with hr | hr
      · obtain ⟨_, hq, heq⟩ := List.mem_map.1 hr
        cases heq
        exact hhead.1 r hq
      · obtain ⟨x, -, hx⟩ := List.mem_map.1 hr
        cases hx
    · exact ih r hr

theorem Tells.exists_declare (h : Tells S l) : ∀ s ∈ S, s.owner = .globals ∨
    ∃ r, .declare r ∈ l ∧ r.declaredOwner? = some s.owner := by
  induction h with
  | nil => simp
  | host r _ _ ih =>
    intro s hs
    refine (ih s hs).imp id ?_
    rintro ⟨q, hq, howner⟩
    exact ⟨q, List.mem_cons_of_mem _ hq, howner⟩
  | owner s head vs ws hhead _ _ _ ih =>
    intro t ht
    rcases List.mem_cons.1 ht with rfl | ht
    · refine hhead.2.imp id ?_
      rintro ⟨r, hr, howner⟩
      exact ⟨r, by simp [hr], howner⟩
    · refine (ih t ht).imp id ?_
      rintro ⟨q, hq, howner⟩
      exact ⟨q, by simp [hq], howner⟩

/-- An owner without a section is given nothing. -/
theorem Tells.edits_eq_nil (h : Tells S l) {o : Owner} (ho : o ∉ S.map (·.owner)) : edits o l = [] := by
  induction h with
  | nil => rfl
  | host r _ _ ih => exact ih ho
  | owner s head vs ws _ _ _ _ ih =>
    rw [List.map_cons, List.mem_cons, not_or] at ho
    rw [edits_append, edits_append, edits_declare, edits_ofEdit, if_neg (Ne.symm ho.1), ih ho.2]
    rfl

/-- **An owner with one section is given the variables of the section**, and nothing else. -/
theorem Tells.edits_eq (h : Tells S l) (hdistinct : (S.map (·.owner)).Nodup) : ∀ s ∈ S,
    ∃ vs ws, Contents s.values vs ∧ OverrideContents s.overrides ws ∧ edits s.owner l = sectionEdits vs ws := by
  induction h with
  | nil => simp
  | host r _ _ ih => exact ih hdistinct
  | owner s head vs ws _ hvalues hoverrides h ih =>
    obtain ⟨hs, hdistinct⟩ := List.nodup_cons.1 hdistinct
    intro t ht
    -- The first section's owner is given nothing behind it, and nothing of it goes to a later owner.
    rcases List.mem_cons.1 ht with rfl | ht
    · refine ⟨vs, ws, hvalues, hoverrides, ?_⟩
      rw [edits_append, edits_append, edits_declare, edits_ofEdit, if_pos rfl, h.edits_eq_nil hs, List.nil_append,
        List.append_nil]
    · obtain ⟨vs', ws', hvalues', hoverrides', hedits⟩ := ih hdistinct t ht
      refine ⟨vs', ws', hvalues', hoverrides', ?_⟩
      have hne : s.owner ≠ t.owner := fun heq => hs (List.mem_map.2 ⟨t, ht, heq.symm⟩)
      rw [edits_append, edits_append, edits_declare, edits_ofEdit, if_neg hne, hedits]
      rfl

/-- What is assigned is assigned to an owner that has a section. -/
theorem Tells.exists_section (h : Tells S l) {o : Owner} {e : Option String} {name : String} {content : Variable}
    (hmem : .assign o e name content ∈ l) : ∃ s ∈ S, s.owner = o := by
  by_contra hnone
  have hedits : edits o l = [] := h.edits_eq_nil fun ho => hnone (List.mem_map.1 ho)
  have hedit : (e, name, content) ∈ edits o l := List.mem_filterMap.2 ⟨_, hmem, if_pos rfl⟩
  rw [hedits] at hedit
  cases hedit

end Statement
end DeployInventory
