import DeployInventory.SessionId
/-!
# Plan — what to deploy, and to where

A plan lists items for one environment. An item names a project, or gives a search pattern over project names.
-/
namespace DeployInventory

/-- A unit of work. -/
structure DeployItem where
  /-- The project, by name. -/
  project : Option String := none
  /-- A pattern over project names, for an item without a project. -/
  search : Option String := none
  /-- Run the parts with these tags only. -/
  tags : List String := []
  /-- Leave out the parts with these tags. -/
  skipTags : List String := []
  /-- Deploy to these servers only. -/
  servers : List String := []
  /-- Projects to deploy before this one. -/
  dependsOn : List String := []
  /-- The priority, in place of the project's. -/
  jobOrder : Option Int := none
deriving DecidableEq, Repr

/-- **An ordered list of items for one environment.** -/
structure DeployPlan where
  /-- The session that opened the plan; none until somebody does. -/
  session : Option SessionId := none
  name : String
  environment : String
  items : List DeployItem := []
  /-- The final order is turned round. -/
  reverseOrder : Bool := false
deriving DecidableEq, Repr

end DeployInventory
