import DeployInventory.Inventory.Basic
import DeployInventory.Proofs.Replay
/-!
# Proofs.Inventory.Routing — what each record changes

A record names at most one member of each table. `apply` is one edit of each table (`environments_apply` and its
siblings), of the member that the record names, and a member takes a record into its declaration, its variables, its
plays or its hosts.
-/
namespace DeployInventory

/-! ## The member that a record names -/

namespace Record

def environment? : Record → Option String
  | .environment r => some r.name
  | .assignment a =>
    match a.project, a.playbook with
    | none, none => a.environment
    | _, _ => none
  | _ => none

def project? : Record → Option String
  | .project r => some r.name
  | .assignment a => a.project
  | _ => none

def playbook? : Record → Option String
  | .playbook r => some r.name
  | .play r => some r.playbook
  | .assignment a =>
    match a.project with
    | none => a.playbook
    | some _ => none
  | _ => none

def hostGroup? : Record → Option String
  | .hostGroup r => some r.name
  | .host r => some r.hostGroup
  | _ => none

/-- The play of a record's playbook. -/
def play? : Record → Option String
  | .play r => some r.name
  | .assignment a => a.play
  | _ => none

def assignment? : Record → Option Assignment
  | .assignment a => some a
  | _ => none

/-- The edit of a variable that is no node's. -/
def global? : Record → Option Assignment
  | .assignment a =>
    match a.project, a.playbook, a.environment with
    | none, none, none => some a
    | _, _, _ => none
  | _ => none

end Record

/-! ## What a member takes from a record that names it -/

def Environment.receive (n : Environment) : Record → Environment
  | .environment r => n.declare r
  | .assignment a => n.assign a
  | _ => n

def Project.receive (n : Project) : Record → Project
  | .project r => n.declare r
  | .assignment a => n.assign a
  | _ => n

def Play.receive (n : Play) : Record → Play
  | .play r => n.declare r
  | .assignment a => n.assign a
  | _ => n

def Playbook.receive (n : Playbook) : Record → Playbook
  | .playbook r => n.declare r
  | .play r => n.declarePlay r
  | .assignment a => n.assign a
  | _ => n

def HostGroup.receive (n : HostGroup) : Record → HostGroup
  | .hostGroup r => n.declare r
  | .host r => n.declareHost r
  | _ => n

namespace Inventory

theorem environments_apply :
    Routed apply environments some
      (NameMap.touch Record.environment? (fun k => { name := k }) Environment.receive) := by
  intro inv r
  cases r with
  | assignment a =>
    obtain ⟨id, entry, disabled, environment, project, playbook, play⟩ := a
    cases project <;> cases playbook <;> cases environment <;> rfl
  | _ => rfl

theorem projects_apply :
    Routed apply projects some (NameMap.touch Record.project? (fun k => { name := k }) Project.receive) := by
  intro inv r
  cases r with
  | assignment a =>
    obtain ⟨id, entry, disabled, environment, project, playbook, play⟩ := a
    cases project <;> cases playbook <;> cases environment <;> rfl
  | _ => rfl

theorem playbooks_apply :
    Routed apply playbooks some (NameMap.touch Record.playbook? (fun k => { name := k }) Playbook.receive) := by
  intro inv r
  cases r with
  | assignment a =>
    obtain ⟨id, entry, disabled, environment, project, playbook, play⟩ := a
    cases project <;> cases playbook <;> cases environment <;> rfl
  | _ => rfl

theorem hostGroups_apply :
    Routed apply hostGroups some (NameMap.touch Record.hostGroup? (fun k => { name := k }) HostGroup.receive) := by
  intro inv r
  cases r with
  | assignment a =>
    obtain ⟨id, entry, disabled, environment, project, playbook, play⟩ := a
    cases project <;> cases playbook <;> cases environment <;> rfl
  | _ => rfl

theorem globals_apply : Routed apply globals Record.global? VariableList.assign := by
  intro inv r
  cases r with
  | assignment a =>
    obtain ⟨id, entry, disabled, environment, project, playbook, play⟩ := a
    cases project <;> cases playbook <;> cases environment <;> rfl
  | _ => rfl

end Inventory

theorem Environment.entries_receive : Routed receive entries Record.assignment? VariableList.assign := by
  intro n r
  cases r <;> rfl

theorem Project.scope_receive : Routed receive scope Record.assignment? Scope.assign := by
  intro n r
  cases r <;> rfl

theorem Play.scope_receive : Routed receive scope Record.assignment? Scope.assign := by
  intro n r
  cases r <;> rfl

/-- The edit of a variable that is the playbook's own. -/
def Record.ownAssignment? (r : Record) : Option Assignment := r.assignment?.filter (·.play.isNone)

theorem Playbook.scope_receive : Routed receive scope Record.ownAssignment? Scope.assign := by
  intro n r
  cases r with
  | assignment a =>
    obtain ⟨id, entry, disabled, environment, project, playbook, play⟩ := a
    cases play <;> rfl
  | _ => rfl

theorem Playbook.plays_receive (n : Playbook) (r : Record) :
    (n.receive r).plays = n.plays.touch Record.play? (fun k => { playbook := n.name, name := k }) Play.receive r := by
  cases r with
  | assignment a =>
    obtain ⟨id, entry, disabled, environment, project, playbook, play⟩ := a
    cases play <;> rfl
  | _ => rfl

theorem placeHost_eq_changeNamed (h new : Host) : ∀ l : List Host,
    placeHost h l = changeNamed (·.name) h.name new (fun _ => h) l
  | [] => rfl
  | g :: rest => by
    unfold placeHost changeNamed
    rw [placeHost_eq_changeNamed h new rest]

def Record.host? : Record → Option HostRecord
  | .host r => some r
  | _ => none

/-- A host of which nothing but the name is known. -/
def Host.unknown (name : String) : Host := ⟨name, "", "", none⟩

def touchHost : List Host → HostRecord → List Host :=
  touchNamed Host.name (fun r => some r.name) .unknown fun _ r => .ofRecord r

theorem HostGroup.hosts_receive : Routed receive hosts Record.host? touchHost := by
  intro n r
  cases r with
  | host r => exact placeHost_eq_changeNamed (.ofRecord r) (.unknown r.name) n.hosts
  | _ => rfl

def Override.receive (o : Override) (a : Assignment) : Override := { o with entries := o.entries.assign a }

theorem assignOverride_eq_changeNamed (environment : String) (a : Assignment) : ∀ l : List Override,
    Scope.assignOverride environment a l =
      changeNamed (·.query.environment) environment { query := ⟨environment⟩ } (·.receive a) l
  | [] => rfl
  | o :: rest => by
    unfold Scope.assignOverride changeNamed
    rw [assignOverride_eq_changeNamed environment a rest]
    rfl

theorem Scope.entries_assign :
    Routed assign entries (Option.guard (·.environment.isNone)) VariableList.assign := by
  intro s a
  cases he : a.environment <;> simp [Scope.assign, Option.guard, he]

/-- Merges an assignment into the override for its environment, if it has one. -/
def touchOverride : List Override → Assignment → List Override :=
  touchNamed (·.query.environment) Assignment.environment (fun k => { query := ⟨k⟩ }) .receive

theorem Scope.overrides_assign : Routed assign overrides some touchOverride := by
  intro s a
  obtain ⟨id, entry, disabled, environment, project, playbook, play⟩ := a
  cases environment with
  | none => rfl
  | some environment => exact assignOverride_eq_changeNamed environment _ s.overrides

end DeployInventory
