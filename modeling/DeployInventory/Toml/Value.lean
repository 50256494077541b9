import DeployInventory.Number.Binary64
import DeployInventory.Toml.DateTime
/-!
# Toml.Value — TOML documents

A table keeps its entries in the order of the document; no two have one key.
-/
namespace DeployInventory

namespace Toml

/-- **A value of a TOML document.** -/
inductive Value where
  | string (s : String)
  | integer (n : Int)
  | float (x : Binary64)
  /-- A float whose digits write a number that is too large for a double. -/
  | overflow (isNegative : Bool)
  | boolean (b : Bool)
  | dateTime (d : DateTime)
  | array (items : List Value)
  | table (entries : List (String × Value))
deriving Inhabited, Repr

/-- The entries of a table in the order of the document. -/
abbrev Table := List (String × Value)

end Toml

end DeployInventory
