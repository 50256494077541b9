import DeployInventory.Plan.Expansion
import DeployInventory.Wire.Field
/-!
# Plan.Wire — plans as JSON
-/
namespace DeployInventory

open Wire

namespace DeployItem

/-- The keys of the fields in the order in which they are written. -/
def keys : List String := ["project", "search", "tags", "skip_tags", "servers", "depends_on", "job_order"]

def toJson (i : DeployItem) : Json :=
  .object [("project", .textOrNull i.project), ("search", .textOrNull i.search), ("tags", .texts i.tags),
    ("skip_tags", .texts i.skipTags), ("servers", .texts i.servers), ("depends_on", .texts i.dependsOn),
    ("job_order", .integerOrNull i.jobOrder)]

def ofJson (j : Json) : Decoded DeployItem := do
  let fs ← fields keys j
  let dependsOn ← orDefault fs "depends_on" (list text) []
  let jobOrder ← optional fs "job_order" int64
  let project ← optional fs "project" text
  let search ← optional fs "search" text
  let servers ← orDefault fs "servers" (list text) []
  let skipTags ← orDefault fs "skip_tags" (list text) []
  let tags ← orDefault fs "tags" (list text) []
  return { project, search, tags, skipTags, servers, dependsOn, jobOrder }

end DeployItem

def ExpandedItem.toJson (e : ExpandedItem) : Json :=
  .object [("index", .integer e.index), ("project", .textOrNull e.project), ("item", e.item.toJson)]

namespace DeployPlan

/-- The keys of the fields in the order in which they are written. -/
def keys : List String := ["session", "name", "environment", "items", "reverse_order"]

def sessionOf (j : Json) : Decoded SessionId := do required (SessionId.parse? (← text j))

def ofJson (j : Json) : Decoded DeployPlan := do
  let fs ← fields keys j
  let environment ← present fs "environment" text
  let items ← orDefault fs "items" (list DeployItem.ofJson) []
  let name ← present fs "name" text
  let reverseOrder ← orDefault fs "reverse_order" flag false
  let session ← present fs "session" sessionOf
  return { session, name := ← required name, environment := ← required environment, items, reverseOrder }

end DeployPlan

end DeployInventory
