import DeployInventory.Document.Statement
import Mathlib.Data.List.Nodup
/-!
# Proofs.Document.Sections — the sections of a document by their owners

Whatever the kind of its owner, a section of a document is an owner with a table of variables and tables of overrides.
In a document that declares nothing twice all sections have different owners (`Document.Distinct.nodup_owners`): plays
of one name stand in different playbooks, and a play belongs to the playbook that it is read from
(`playbook_of_parse?`).
-/
namespace DeployInventory

/-- **The section of an owner**, its tables as they are written. -/
structure OwnerSection where
  owner : Owner
  values : Toml.Table
  overrides : Toml.Table

def EnvironmentSection.ownerSection (s : EnvironmentSection) : OwnerSection :=
  ⟨.environment s.record.name, s.values, []⟩

def ProjectSection.ownerSection (s : ProjectSection) : OwnerSection := ⟨.project s.record.name, s.values, s.overrides⟩

def PlaySection.ownerSection (s : PlaySection) : OwnerSection :=
  ⟨.play s.record.playbook s.record.name, s.values, s.overrides⟩

/-- The section of a playbook, then those of its plays. -/
def PlaybookSection.ownerSections (s : PlaybookSection) : List OwnerSection :=
  ⟨.playbook s.record.name, s.values, s.overrides⟩ :: s.plays.map (·.ownerSection)

/-- **The sections of a document that have variables**, that of the globals first. -/
def Document.ownerSections (d : Document) : List OwnerSection :=
  ⟨.globals, d.values, []⟩ :: d.environments.map (·.ownerSection) ++ d.projects.map (·.ownerSection) ++
    d.playbooks.flatMap (·.ownerSections)

/-! ## Reading arrays of sections -/

namespace Toml.Shape

variable {α : Type} {read : Toml.Value → Option α} {es : Toml.Table} {key : String} {as : List α}

theorem exists_of_mem_mapM : ∀ {vs : List Toml.Value} {as : List α}, vs.mapM read = some as →
    ∀ a ∈ as, ∃ v, read v = some a
  | [], as, h, a, ha => by
    cases h
    cases ha
  | v :: vs, as, h, a, ha => by
    rw [List.mapM_cons] at h
    obtain ⟨b, hb, h⟩ := Option.bind_eq_some_iff.1 h
    obtain ⟨bs, hbs, h⟩ := Option.bind_eq_some_iff.1 h
    cases h
    rcases List.mem_cons.1 ha with rfl | ha
    · exact ⟨v, hb⟩
    · exact exists_of_mem_mapM hbs a ha

/-- What an array of a document is read as is read item by item. -/
theorem exists_of_mem_list (h : orDefault es key (list read) [] = some as) : ∀ a ∈ as, ∃ v, read v = some a := by
  intro a ha
  obtain ⟨o, ho, rfl⟩ := Option.map_eq_some_iff.1 h
  unfold optional at ho
  cases hv : NameMap.valueOf? key es with
  | none =>
    rw [hv] at ho
    cases ho
    cases ha
  | some v =>
    rw [hv] at ho
    obtain ⟨bs, hbs, rfl⟩ := Option.map_eq_some_iff.1 ho
    cases v with
    | array items => exact exists_of_mem_mapM hbs a ha
    | string | integer | float | overflow | boolean | dateTime | table => cases hbs

end Toml.Shape

theorem PlaySection.playbook_of_ofToml? {playbook : String} {v : Toml.Value} {t : PlaySection}
    (h : ofToml? playbook v = some t) : t.record.playbook = playbook := by
  simp only [ofToml?, Option.bind_eq_bind, Option.bind_eq_some_iff, Option.pure_def, Option.some.injEq] at h
  obtain ⟨_, _, _, _, _, _, _, _, _, _, _, _, _, _, rfl⟩ := h
  rfl

/-- The plays of a playbook belong to it. -/
theorem PlaybookSection.playbook_of_ofToml? {v : Toml.Value} {s : PlaybookSection} (h : ofToml? v = some s) :
    ∀ t ∈ s.plays, t.record.playbook = s.record.name := by
  simp only [ofToml?, Option.bind_eq_bind, Option.bind_eq_some_iff, Option.pure_def, Option.some.injEq] at h
  obtain ⟨_, _, _, _, _, _, _, _, _, _, _, _, _, _, plays, hplays, rfl⟩ := h
  intro t ht
  obtain ⟨v, hv⟩ := Toml.Shape.exists_of_mem_list hplays t ht
  exact PlaySection.playbook_of_ofToml? hv

theorem Document.playbook_of_parse? {source : String} {d : Document} (h : parse? source = some d) :
    ∀ s ∈ d.playbooks, ∀ t ∈ s.plays, t.record.playbook = s.record.name := by
  obtain ⟨table, -, h⟩ := Option.bind_eq_some_iff.1 h
  simp only [ofToml?, Option.bind_eq_bind, Option.bind_eq_some_iff, Option.pure_def, Option.some.injEq] at h
  obtain ⟨_, _, _, _, _, _, _, _, _, _, playbooks, hplaybooks, _, _, rfl⟩ := h
  intro s hs
  obtain ⟨v, hv⟩ := Toml.Shape.exists_of_mem_list hplaybooks s hs
  exact PlaybookSection.playbook_of_ofToml? hv

/-! ## Documents that declare nothing twice -/

/-- **A document that declares nothing twice**: no environment, project or playbook, and no play of one playbook. -/
structure Document.Distinct (d : Document) : Prop where
  environments : (d.environments.map (·.record.name)).Nodup
  projects : (d.projects.map (·.record.name)).Nodup
  playbooks : (d.playbooks.map (·.record.name)).Nodup
  plays : ∀ s ∈ d.playbooks, (s.plays.map (·.record.name)).Nodup

/-- The playbook that an owner is, or is a play of. -/
def Owner.book? : Owner → Option String
  | .playbook b | .play b _ => some b
  | .globals | .environment _ | .project _ => none

/-- The part of a document that has the section of an owner. -/
def Owner.part : Owner → Nat
  | .globals => 0
  | .environment _ => 1
  | .project _ => 2
  | .playbook _ | .play _ _ => 3

theorem Owner.part_of_book? {o : Owner} {b : String} (h : o.book? = some b) : o.part = 3 := by
  cases o with
  | playbook | play => rfl
  | globals | environment | project => cases h

/-- Different owners, all of the first so many parts. -/
structure InParts (n : Nat) (l : List Owner) : Prop where
  nodup : l.Nodup
  part_lt : ∀ o ∈ l, o.part < n

theorem InParts.append {n : Nat} {l l' : List Owner} (h : InParts n l) (hl' : l'.Nodup) (hpart : ∀ o ∈ l', o.part = n) :
    InParts (n + 1) (l ++ l') where
  nodup := by
    refine List.nodup_append.2 ⟨h.nodup, hl', fun o ho p hp heq => ?_⟩
    subst heq
    exact Nat.ne_of_lt (h.part_lt o ho) (hpart o hp)
  part_lt := by
    refine List.forall_mem_append.2 ⟨fun o ho => Nat.lt_succ_of_lt (h.part_lt o ho), fun o ho => ?_⟩
    rw [hpart o ho]
    exact Nat.lt_succ_self n

theorem PlaybookSection.book?_of_mem {s : PlaybookSection} (hs : ∀ t ∈ s.plays, t.record.playbook = s.record.name)
    {o : Owner} (ho : o ∈ s.ownerSections.map (·.owner)) : o.book? = some s.record.name := by
  obtain ⟨p, hp, rfl⟩ := List.mem_map.1 ho
  rcases List.mem_cons.1 hp with rfl | hp
  · rfl
  · obtain ⟨t, ht, rfl⟩ := List.mem_map.1 hp
    exact congrArg some (hs t ht)

theorem PlaybookSection.nodup_owners {s : PlaybookSection} (hs : (s.plays.map (·.record.name)).Nodup) :
    (s.ownerSections.map (·.owner)).Nodup := by
  rw [ownerSections, List.map_cons, List.map_map, List.nodup_cons]
  refine ⟨by simp [PlaySection.ownerSection], List.Nodup.of_map (fun | .play _ n => n | _ => "") ?_⟩
  rwa [List.map_map]

namespace Document

variable {d : Document}

theorem Distinct.nodup_books (hd : d.Distinct)
    (hplays : ∀ s ∈ d.playbooks, ∀ t ∈ s.plays, t.record.playbook = s.record.name) :
    ((d.playbooks.flatMap (·.ownerSections)).map (·.owner)).Nodup := by
  rw [List.map_flatMap, List.nodup_flatMap]
  refine ⟨fun s hs => PlaybookSection.nodup_owners (hd.plays s hs), ?_⟩
  have hnames := List.pairwise_map.1 hd.playbooks
  refine hnames.imp_of_mem fun {s t} hs ht hne => ?_
  intro o hos hot
  have hbook := (PlaybookSection.book?_of_mem (hplays s hs) hos).symm.trans
    (PlaybookSection.book?_of_mem (hplays t ht) hot)
  exact hne (Option.some.inj hbook)

/-- **In a document that declares nothing twice all sections have different owners.** -/
theorem Distinct.nodup_owners (hd : d.Distinct)
    (hplays : ∀ s ∈ d.playbooks, ∀ t ∈ s.plays, t.record.playbook = s.record.name) :
    (d.ownerSections.map (·.owner)).Nodup := by
  have henvironments : ((d.environments.map (·.ownerSection)).map (·.owner)).Nodup := by
    refine List.Nodup.of_map (fun | .environment n => n | _ => "") ?_
    rw [List.map_map, List.map_map]
    exact hd.environments
  have hprojects : ((d.projects.map (·.ownerSection)).map (·.owner)).Nodup := by
    refine List.Nodup.of_map (fun | .project n => n | _ => "") ?_
    rw [List.map_map, List.map_map]
    exact hd.projects
  have hbook : ∀ o ∈ (d.playbooks.flatMap (·.ownerSections)).map (·.owner), o.part = 3 := by
    intro o ho
    rw [List.map_flatMap] at ho
    obtain ⟨s, hs, ho⟩ := List.mem_flatMap.1 ho
    exact Owner.part_of_book? (PlaybookSection.book?_of_mem (hplays s hs) ho)
  have hglobals : InParts 1 [.globals] := ⟨List.nodup_singleton _, by simp [Owner.part]⟩
  have hparts := ((hglobals.append henvironments (by simp [EnvironmentSection.ownerSection, Owner.part])).append
    hprojects (by simp [ProjectSection.ownerSection, Owner.part])).append (hd.nodup_books hplays) hbook
  simpa [ownerSections] using hparts.nodup

end Document
end DeployInventory
