import DeployInventory.Resolution.Error
/-!
# Resolution.Plays — plays along a chain of playbooks

A play sees the variables of every playbook of its chain and, right above them, those of the playbook's own definition
of the play. Its super play is the definition that it extends: that of the ancestor from which no other defining
ancestor inherits.
-/
namespace DeployInventory

namespace Inventory

def definesPlay (inv : Inventory) (play playbook : String) : Bool :=
  match inv.playbooks.find? playbook with
  | none => false
  | some b => (b.play? play).isSome

/-- The layers of one playbook and of its definition of a play. -/
def playbookLayers (inv : Inventory) (play environment name : String) (b : Playbook) :
    Except LineageError LayerStack := do
  let own ← b.scope.layers (inv.hierarchy .environment) ("playbook:" ++ name) environment
  match b.play? play with
  | none => return own
  | some p =>
    return own ++ (← p.scope.layers (inv.hierarchy .environment) ("play:" ++ name ++ "/" ++ play) environment)

def playChainLayers (inv : Inventory) (play environment : String) : List String → Except LineageError LayerStack
  | [] => .ok []
  | n :: rest =>
    match inv.playbooks.find? n with
    | none => playChainLayers inv play environment rest
    | some b => do
      let own ← inv.playbookLayers play environment n b
      return own ++ (← playChainLayers inv play environment rest)

/-- **The variables of a play of a playbook as seen from an environment.** -/
def playVariables (inv : Inventory) (playbook play environment : String) : Resolved LayerStack := do
  inv.require .playbook playbook
  inv.require .environment environment
  let chain ← ResolveError.ofLineage (inv.lineage .playbook playbook)
  if chain.any (inv.definesPlay play) then
    ResolveError.ofLineage (inv.playChainLayers play environment chain)
  else throw (.missingPlay playbook play)

def isShadowed (inv : Inventory) (candidate : String) : List String → Except LineageError Bool
  | [] => .ok false
  | other :: rest =>
    if other = candidate then isShadowed inv candidate rest
    else do
      if ← (inv.hierarchy .playbook).isAncestor candidate other then return true
      isShadowed inv candidate rest

/-- The playbooks of a list from which no other of all candidates inherits. -/
def unshadowed (inv : Inventory) (candidates : List String) : List String → Except LineageError (List String)
  | [] => .ok []
  | c :: rest => do
    let shadowed ← inv.isShadowed c candidates
    let others ← unshadowed inv candidates rest
    return if shadowed then others else c :: others

/-- **The ancestor whose definition of a play a playbook extends**; none where no ancestor defines the play. -/
def superPlay? (inv : Inventory) (playbook play : String) : Resolved (Option String) := do
  inv.require .playbook playbook
  let above ← ResolveError.ofLineage ((inv.hierarchy .playbook).descendingParents playbook)
  let candidates := above.filter (inv.definesPlay play)
  match ← ResolveError.ofLineage (inv.unshadowed candidates candidates) with
  | [] => return none
  | [c] => return some c
  | several => throw (.ambiguousSuperPlay playbook play several)

end Inventory

end DeployInventory
