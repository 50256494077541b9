import DeployInventory.Plan.Wire
import DeployInventory.Record.Wire
import DeployInventory.Toml.Reader
import DeployInventory.Toml.Shape
/-!
# Document.Section — inventory documents by their sections

A document has a table of global variables and, for every kind of node and for plans, an array of tables. What a
section declares is a record; its variables stay as they are written.
-/
namespace DeployInventory

open Toml.Shape

/-- An environment with its variables. -/
structure EnvironmentSection where
  record : EnvironmentRecord
  values : Toml.Table

/-- A host group with its hosts. -/
structure HostGroupSection where
  record : HostGroupRecord
  hosts : List HostRecord

/-- A project with its variables and overrides. -/
structure ProjectSection where
  record : ProjectRecord
  values : Toml.Table
  overrides : Toml.Table

/-- A play of a playbook with its variables and overrides. -/
structure PlaySection where
  record : PlayRecord
  values : Toml.Table
  overrides : Toml.Table

/-- A playbook with its variables and overrides, and its plays. -/
structure PlaybookSection where
  record : PlaybookRecord
  values : Toml.Table
  overrides : Toml.Table
  plays : List PlaySection

/-- **An inventory document.** -/
structure Document where
  values : Toml.Table
  environments : List EnvironmentSection
  hostGroups : List HostGroupSection
  projects : List ProjectSection
  playbooks : List PlaybookSection
  plans : List DeployPlan

def EnvironmentSection.ofToml? (v : Toml.Value) : Option EnvironmentSection := do
  let es ← openFields ["vars"] v
  let name ← required es "name" text
  let parents ← orDefault es "parents" (list text) []
  let isAbstract ← orDefault es "abstract" flag false
  let description ← optional es "description" text
  let values ← orDefault es "vars" Toml.Shape.valueTable []
  return { record := { name, parents, isAbstract, description }, values }

def HostRecord.ofToml? (hostGroup : String) (v : Toml.Value) : Option HostRecord := do
  let es ← closedFields ["name", "address", "environment"] v
  let name ← required es "name" text
  let address ← required es "address" text
  let environment ← optional es "environment" text
  return { name, hostGroup, address, environment }

def HostGroupSection.ofToml? (v : Toml.Value) : Option HostGroupSection := do
  let es ← openFields ["hosts"] v
  let name ← required es "name" text
  let parents ← orDefault es "parents" (list text) []
  let description ← optional es "description" text
  let hosts ← orDefault es "hosts" (list (HostRecord.ofToml? name)) []
  return { record := { name, parents, description }, hosts }

def ProjectSection.ofToml? (v : Toml.Value) : Option ProjectSection := do
  let es ← openFields ["vars", "overrides"] v
  let name ← required es "name" text
  let parents ← orDefault es "parents" (list text) []
  let isAbstract ← orDefault es "abstract" flag false
  let description ← optional es "description" text
  let jobOrder ← optional es "job_order" int64
  let hostGroups ← orDefault es "host_groups" (list text) []
  let values ← orDefault es "vars" Toml.Shape.valueTable []
  let overrides ← orDefault es "overrides" Toml.Shape.valueTable []
  return { record := { name, parents, isAbstract, description, jobOrder, hostGroups }, values, overrides }

namespace PlaySection

def keys : List String := ["name", "description", "tags", "host_groups", "vars", "overrides"]

def ofToml? (playbook : String) (v : Toml.Value) : Option PlaySection := do
  let es ← closedFields keys v
  let name ← required es "name" text
  let description ← optional es "description" text
  let tags ← orDefault es "tags" (list text) []
  let hostGroups ← orDefault es "host_groups" (list text) []
  let values ← orDefault es "vars" Toml.Shape.valueTable []
  let overrides ← orDefault es "overrides" Toml.Shape.valueTable []
  return { record := { playbook, name, description, tags, hostGroups }, values, overrides }

end PlaySection

def PlaybookSection.ofToml? (v : Toml.Value) : Option PlaybookSection := do
  let es ← openFields ["vars", "overrides", "plays"] v
  let name ← required es "name" text
  let parents ← orDefault es "parents" (list text) []
  let isAbstract ← orDefault es "abstract" flag false
  let description ← optional es "description" text
  let values ← orDefault es "vars" Toml.Shape.valueTable []
  let overrides ← orDefault es "overrides" Toml.Shape.valueTable []
  let plays ← orDefault es "plays" (list (PlaySection.ofToml? name)) []
  return { record := { name, parents, isAbstract, description }, values, overrides, plays }

def DeployItem.ofToml? (v : Toml.Value) : Option DeployItem := do
  let es ← closedFields DeployItem.keys v
  let project ← optional es "project" text
  let search ← optional es "search" text
  let tags ← orDefault es "tags" (list text) []
  let skipTags ← orDefault es "skip_tags" (list text) []
  let servers ← orDefault es "servers" (list text) []
  let dependsOn ← orDefault es "depends_on" (list text) []
  let jobOrder ← optional es "job_order" int64
  return { project, search, tags, skipTags, servers, dependsOn, jobOrder }

/-- Reads a plan; no session has opened it. -/
def DeployPlan.ofToml? (v : Toml.Value) : Option DeployPlan := do
  let es ← closedFields ["name", "environment", "reverse_order", "items"] v
  let name ← required es "name" text
  let environment ← required es "environment" text
  let reverseOrder ← orDefault es "reverse_order" flag false
  let items ← orDefault es "items" (list DeployItem.ofToml?) []
  return { name, environment, items, reverseOrder }

namespace Document

def keys : List String := ["vars", "environment", "host_group", "project", "playbook", "plan"]

def ofToml? (document : Toml.Table) : Option Document := do
  let es ← closedFields keys (.table document)
  let values ← orDefault es "vars" Toml.Shape.valueTable []
  let environments ← orDefault es "environment" (list EnvironmentSection.ofToml?) []
  let hostGroups ← orDefault es "host_group" (list HostGroupSection.ofToml?) []
  let projects ← orDefault es "project" (list ProjectSection.ofToml?) []
  let playbooks ← orDefault es "playbook" (list PlaybookSection.ofToml?) []
  let plans ← orDefault es "plan" (list DeployPlan.ofToml?) []
  return { values, environments, hostGroups, projects, playbooks, plans }

/-- **Reads a document.** -/
def parse? (source : String) : Option Document := do ofToml? (← Toml.parse? source)

end Document

end DeployInventory
