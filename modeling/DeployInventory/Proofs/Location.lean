import DeployInventory.Location
import DeployInventory.Proofs.Checked
/-!
# Proofs.Location — which place the inventory is looked for at

By the precedence a path given to the program decides, else one given by the process, where a blank one counts as none,
and only without either the usual places are looked at (`Located`). A search follows it but for one thing: a blank path
given to the program is none, and still it keeps the one of the process from being asked
(`locate_follows_precedence`).
-/
namespace DeployInventory

namespace Location

/-- Whether a text has white space only. -/
def Blank (s : String) : Prop := ∀ c ∈ s.toList, isBlank c = true

/-- **The template that decides by the precedence**: the one given to the program, else that of the process; a blank one
counts as none. -/
inductive Asks : Option String → Option String → String → Prop
  | given {template fromProcess} : ¬ Blank template → Asks (some template) fromProcess template
  | fromProcess {explicit template} : (∀ t, explicit = some t → Blank t) → ¬ Blank template →
      Asks explicit (some template) template

/-- The usual places in turn: the local file and then the user's own. -/
def usualPlaces (workingDirectory : String) (global : Option String) : List String :=
  PathName.join workingDirectory localName :: global.toList

section
variable (lookup : PathLookup) (workingDirectory : String) (global explicit fromProcess : Option String)

/-- **What comes of the precedence**: the template that decides stands or falls alone; without one the first usual place
that exists is taken, and the error where none does lists them all. -/
inductive Located : Except LocationError String → Prop
  | asked {template path} : Asks explicit fromProcess template → lookup.expand template = .ok path →
      lookup.leads (PathName.join workingDirectory path) = true →
      Located (lookup.place (PathName.join workingDirectory path))
  | missing {template path} : Asks explicit fromProcess template → lookup.expand template = .ok path →
      lookup.leads (PathName.join workingDirectory path) = false →
      Located (.error (.missing (PathName.join workingDirectory path)))
  | unexpanded {template cause} : Asks explicit fromProcess template → lookup.expand template = .error cause →
      Located (.error (.expansion template cause))
  | usual {before path behind} : (∀ t, ¬ Asks explicit fromProcess t) →
      usualPlaces workingDirectory global = before ++ path :: behind → (∀ p ∈ before, lookup.leads p = false) →
      lookup.leads path = true → Located (lookup.place path)
  | notFound : (∀ t, ¬ Asks explicit fromProcess t) →
      (∀ p ∈ usualPlaces workingDirectory global, lookup.leads p = false) →
      Located (.error (.notFound (usualPlaces workingDirectory global)))

end

/-- **A blank path given to the program beside one of the process that is not blank.** -/
inductive ShutsOut : Option String → Option String → Prop
  | intro {template template'} : Blank template → ¬ Blank template' → ShutsOut (some template) (some template')

def spoken? (template : Option String) : Option String := template.filter fun t => !t.toList.all isBlank

variable {lookup : PathLookup} {workingDirectory : String} {global explicit fromProcess : Option String}
variable {template path cause : String} {r : Except LocationError String}

theorem spoken?_eq_some_iff {o : Option String} : spoken? o = some template ↔ o = some template ∧ ¬ Blank template := by
  simp [spoken?, Option.filter_eq_some_iff, Blank]

theorem spoken?_eq_none_iff {o : Option String} : spoken? o = none ↔ ∀ t, o = some t → Blank t := by
  simp [spoken?, Option.filter_eq_none_iff, Blank]

/-- Where a blank path counts as none the program asks by the precedence. -/
theorem requested?_spoken?_eq_some_iff :
    requested? (spoken? explicit) fromProcess = some template ↔ Asks explicit fromProcess template := by
  show spoken? ((spoken? explicit).or fromProcess) = some template ↔ _
  rw [spoken?_eq_some_iff, Option.or_eq_some_iff, spoken?_eq_some_iff, spoken?_eq_none_iff]
  constructor
  · rintro ⟨⟨rfl, hspoken⟩ | ⟨hnone, rfl⟩, hspoken'⟩
    · exact .given hspoken
    · exact .fromProcess hnone hspoken'
  · rintro (hspoken | ⟨hnone, hspoken⟩)
    · exact ⟨.inl ⟨rfl, hspoken⟩, hspoken⟩
    · exact ⟨.inr ⟨hnone, rfl⟩, hspoken⟩

theorem requested?_eq_of_not_shutsOut (h : ¬ ShutsOut explicit fromProcess) :
    requested? explicit fromProcess = requested? (spoken? explicit) fromProcess := by
  show spoken? (explicit.or fromProcess) = spoken? ((spoken? explicit).or fromProcess)
  cases explicit with
  | none => rfl
  | some template =>
    by_cases hblank : Blank template
    · -- the blank path takes the place of the other one, which has to be blank too
      have hexplicit : spoken? (some template) = none := spoken?_eq_none_iff.2 fun t ht => Option.some.inj ht ▸ hblank
      have hprocess : spoken? fromProcess = none := spoken?_eq_none_iff.2 fun t ht => by
        by_contra hspoken
        exact h (ht ▸ .intro hblank hspoken)
      rw [Option.some_or, hexplicit, Option.none_or, hprocess]
    · rw [spoken?_eq_some_iff.2 ⟨rfl, hblank⟩, Option.some_or]

theorem requested?_eq_none_of_shutsOut (h : ShutsOut explicit fromProcess) :
    requested? explicit fromProcess = none := by
  obtain ⟨hblank, -⟩ := h
  exact spoken?_eq_none_iff.2 fun t ht => Option.some.inj ht ▸ hblank

/-! ## Searching -/

namespace Search

theorem run_of_first (s : Search) {before behind : List String} (hpaths : s.paths = before ++ path :: behind)
    (hbefore : ∀ p ∈ before, lookup.leads p = false) (hpath : lookup.leads path = true) :
    s.run lookup = lookup.place path := by
  have hfirst : s.paths.find? lookup.leads = some path := by
    rw [List.find?_eq_some_iff_append]
    exact ⟨hpath, before, behind, hpaths, fun p hp => by simp [hbefore p hp]⟩
  rw [run, hfirst]

theorem run_of_nowhere (s : Search) (h : ∀ p ∈ s.paths, lookup.leads p = false) : s.run lookup = .error s.failure := by
  have hnone : s.paths.find? lookup.leads = none := List.find?_eq_none.2 fun p hp => by simp [h p hp]
  rw [run, hnone]

end Search

/-- Of some paths one is the first that leads somewhere, or none does. -/
theorem exists_first_or_nowhere (lookup : PathLookup) (paths : List String) :
    (∃ before path behind, paths = before ++ path :: behind ∧ (∀ p ∈ before, lookup.leads p = false) ∧
      lookup.leads path = true) ∨ ∀ p ∈ paths, lookup.leads p = false := by
  cases hfirst : paths.find? lookup.leads with
  | some path =>
    obtain ⟨hpath, before, behind, hpaths, hbefore⟩ := List.find?_eq_some_iff_append.1 hfirst
    exact .inl ⟨before, path, behind, hpaths, fun p hp => by simpa using hbefore p hp, hpath⟩
  | none => exact .inr fun p hp => by simpa using List.find?_eq_none.1 hfirst p hp

theorem locate_of_unexpanded (h : requested? explicit fromProcess = some template)
    (he : lookup.expand template = .error cause) :
    locate lookup explicit fromProcess workingDirectory global = .error (.expansion template cause) := by
  simp only [locate, search, h, PathLookup.path, he]
  rfl

theorem locate_of_expanded (h : requested? explicit fromProcess = some template)
    (he : lookup.expand template = .ok path) :
    locate lookup explicit fromProcess workingDirectory global =
      Search.run lookup (.requested (PathName.join workingDirectory path)) := by
  simp only [locate, search, h, PathLookup.path, he]
  rfl

theorem locate_of_unasked (h : requested? explicit fromProcess = none) :
    locate lookup explicit fromProcess workingDirectory global =
      Search.run lookup (.usual (usualPlaces workingDirectory global)) := by
  simp only [locate, search, h]
  rfl

/-- What the program finds is what comes of the precedence, where a blank path counts as none. -/
theorem located_locate_spoken? : Located lookup workingDirectory global explicit fromProcess
    (locate lookup (spoken? explicit) fromProcess workingDirectory global) := by
  cases hr : requested? (spoken? explicit) fromProcess with
  | some template =>
    have hasks := requested?_spoken?_eq_some_iff.1 hr
    cases he : lookup.expand template with
    | error cause =>
      rw [locate_of_unexpanded hr he]
      exact .unexpanded hasks he
    | ok path =>
      rw [locate_of_expanded hr he]
      cases hleads : lookup.leads (PathName.join workingDirectory path) with
      | true =>
        rw [Search.run_of_first (.requested _) (List.nil_append _).symm (List.forall_mem_nil _) hleads]
        exact .asked hasks he hleads
      | false =>
        rw [Search.run_of_nowhere (.requested _) (List.forall_mem_singleton.2 hleads)]
        exact .missing hasks he hleads
  | none =>
    have hasks : ∀ t, ¬ Asks explicit fromProcess t := fun t ht => by
      rw [requested?_spoken?_eq_some_iff.2 ht] at hr
      cases hr
    rw [locate_of_unasked hr]
    obtain ⟨before, path, behind, hpaths, hbefore, hpath⟩ | hnowhere :=
      exists_first_or_nowhere lookup (usualPlaces workingDirectory global)
    · rw [Search.run_of_first (.usual (usualPlaces workingDirectory global)) hpaths hbefore hpath]
      exact .usual hasks hpaths hbefore hpath
    · rw [Search.run_of_nowhere (.usual (usualPlaces workingDirectory global)) hnowhere]
      exact .notFound hasks hnowhere

theorem Located.locate_spoken?_eq (h : Located lookup workingDirectory global explicit fromProcess r) :
    locate lookup (spoken? explicit) fromProcess workingDirectory global = r := by
  have hunasked : (∀ t, ¬ Asks explicit fromProcess t) → requested? (spoken? explicit) fromProcess = none :=
    fun hasks => Option.eq_none_iff_forall_ne_some.2 fun t ht => hasks t (requested?_spoken?_eq_some_iff.1 ht)
  cases h with
  | asked hasks he hleads =>
    rw [locate_of_expanded (requested?_spoken?_eq_some_iff.2 hasks) he]
    exact Search.run_of_first (.requested _) (List.nil_append _).symm (List.forall_mem_nil _) hleads
  | missing hasks he hleads =>
    rw [locate_of_expanded (requested?_spoken?_eq_some_iff.2 hasks) he]
    exact Search.run_of_nowhere (.requested _) (List.forall_mem_singleton.2 hleads)
  | unexpanded hasks he => exact locate_of_unexpanded (requested?_spoken?_eq_some_iff.2 hasks) he
  | usual hasks hpaths hbefore hpath =>
    rw [locate_of_unasked (hunasked hasks)]
    exact Search.run_of_first (.usual _) hpaths hbefore hpath
  | notFound hasks hnowhere =>
    rw [locate_of_unasked (hunasked hasks)]
    exact Search.run_of_nowhere (.usual _) hnowhere

/-- **Where a blank path counts as none the program follows the precedence.** -/
theorem locate_spoken?_eq_iff : locate lookup (spoken? explicit) fromProcess workingDirectory global = r ↔
    Located lookup workingDirectory global explicit fromProcess r :=
  ⟨fun h => h ▸ located_locate_spoken?, Located.locate_spoken?_eq⟩

/-- What is found depends on the two paths by the template that they ask for. -/
theorem locate_congr {explicit' fromProcess' : Option String}
    (h : requested? explicit fromProcess = requested? explicit' fromProcess') :
    locate lookup explicit fromProcess workingDirectory global =
      locate lookup explicit' fromProcess' workingDirectory global := by
  simp only [locate, search, h]

/-- **The inventory is where the precedence has it**, however paths are looked up, unless a blank path is given to the
program and the process has one that is not blank. Then neither counts. -/
theorem locate_follows_precedence (lookup : PathLookup) (workingDirectory : String)
    (global explicit fromProcess : Option String) :
    (¬ ShutsOut explicit fromProcess → ∀ r,
      locate lookup explicit fromProcess workingDirectory global = r ↔
        Located lookup workingDirectory global explicit fromProcess r) ∧
    (ShutsOut explicit fromProcess → ∀ r,
      locate lookup explicit fromProcess workingDirectory global = r ↔
        Located lookup workingDirectory global none none r) := by
  constructor
  · intro h r
    rw [← locate_spoken?_eq_iff, locate_congr (requested?_eq_of_not_shutsOut h)]
  · intro h r
    rw [← locate_spoken?_eq_iff, locate_congr]
    exact requested?_eq_none_of_shutsOut h

/-- A directory with a local inventory and another one, looked up without variables. -/
def twoInventories : PathLookup :=
  .ofFiles .empty (.directory [("srv", .directory [("live.toml", .file []), ("strata.toml", .file [])])])

theorem locate_twoInventories :
    locate twoInventories none (some "live.toml") "/srv" none = .ok "/srv/live.toml" ∧
    locate twoInventories (some " ") (some "live.toml") "/srv" none = .ok "/srv/strata.toml" := by
  rw [← toOption_eq_some_iff, ← toOption_eq_some_iff]
  decide +kernel

theorem shutsOut_live : ShutsOut (some " ") (some "live.toml") :=
  .intro (List.all_eq_true.1 (by decide)) fun hblank => absurd (hblank 'l' (by decide)) (by decide)

theorem twoInventories_follow_precedence :
    ¬ ShutsOut none (some "live.toml") ∧
    Located twoInventories "/srv" none none (some "live.toml") (.ok "/srv/live.toml") ∧
    ShutsOut (some " ") (some "live.toml") ∧
    Located twoInventories "/srv" none none none (.ok "/srv/strata.toml") := by
  have hspoken : ¬ ShutsOut none (some "live.toml") := by rintro ⟨⟩
  obtain ⟨hlive, hlocal⟩ := locate_twoInventories
  refine ⟨hspoken, ?_, shutsOut_live, ?_⟩
  · exact ((locate_follows_precedence _ _ _ _ _).1 hspoken _).1 hlive
  · exact ((locate_follows_precedence _ _ _ _ _).2 shutsOut_live _).1 hlocal

/-- A blank path given to the program keeps that of the process from being asked, which the precedence has in its place.
-/
theorem blankPath_shuts_out_process :
    locate twoInventories (some " ") (some "live.toml") "/srv" none = .ok "/srv/strata.toml" ∧
    Located twoInventories "/srv" none (some " ") (some "live.toml") (.ok "/srv/live.toml") ∧
    ¬ Located twoInventories "/srv" none (some " ") (some "live.toml") (.ok "/srv/strata.toml") := by
  obtain ⟨hlive, hlocal⟩ := locate_twoInventories
  have hnone : spoken? (some " ") = none := by decide
  refine ⟨hlocal, ?_, fun h => ?_⟩
  · rw [← locate_spoken?_eq_iff, hnone]
    exact hlive
  · rw [← locate_spoken?_eq_iff, hnone, hlive, Except.ok.injEq] at h
    exact absurd h (by decide)

end Location
end DeployInventory
