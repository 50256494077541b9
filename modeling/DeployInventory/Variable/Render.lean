import DeployInventory.Json.Printer
import DeployInventory.Text.Paint
import DeployInventory.Variable.Basic
/-!
# Variable.Render — variables for the eye

One line per variable. Sealed payloads are not shown.
-/
namespace DeployInventory

namespace Variable

mutual

/-- **A variable on one line.** -/
def render (coloured : Bool) : Variable → String
  | .value document => document.compact
  | .reference name => Paint.cyan.apply coloured "->" ++ " " ++ name
  | .list items => "[" ++ ", ".intercalate (renderItems coloured items) ++ "]"
  | .map entries => "\x7b " ++ ", ".intercalate (renderEntries coloured entries) ++ " \x7d"
  | .closure source => Paint.magenta.apply coloured "closure" ++ " " ++ Paint.dimmed.apply coloured source
  | .encrypted _ none => Paint.yellow.apply coloured "<encrypted>"
  | .encrypted _ (some key) => Paint.yellow.apply coloured "<encrypted>" ++ " (key '" ++ key ++ "')"

def renderItems (coloured : Bool) : List Variable → List String
  | [] => []
  | v :: rest => render coloured v :: renderItems coloured rest

def renderEntries (coloured : Bool) : List (String × Variable) → List String
  | [] => []
  | (name, v) :: rest => (name ++ " = " ++ render coloured v) :: renderEntries coloured rest

end

end Variable

end DeployInventory
