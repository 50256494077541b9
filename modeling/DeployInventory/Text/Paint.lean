import DeployInventory.Text.Column
/-!
# Text.Paint — texts in terminal styles

Where colours are on, a painted text stands between the sequence that opens its style and the one that resets all
styles; a reset inside the text opens the style again. The blanks that fill a column belong to the painted text.
-/
namespace DeployInventory

/-- The styles of terminal texts. -/
inductive Paint where
  | bold
  | dimmed
  | red
  | boldRed
  | green
  | boldGreen
  | yellow
  | blue
  | magenta
  | cyan
deriving DecidableEq, Repr

namespace Paint

def code : Paint → String
  | .bold => "1"
  | .dimmed => "2"
  | .red => "31"
  | .boldRed => "1;31"
  | .green => "32"
  | .boldGreen => "1;32"
  | .yellow => "33"
  | .blue => "34"
  | .magenta => "35"
  | .cyan => "36"

def opening (p : Paint) : List Char := '\x1b' :: '[' :: (p.code.toList ++ ['m'])

def reset : List Char := ['\x1b', '[', '0', 'm']

def reopened (p : Paint) : List Char → List Char
  | '\x1b' :: '[' :: '0' :: 'm' :: rest => reset ++ p.opening ++ reopened p rest
  | c :: rest => c :: reopened p rest
  | [] => []

/-- A text in a style, where colours are on. -/
def apply (p : Paint) (coloured : Bool) (s : String) : String :=
  if coloured then .ofList (p.opening ++ reopened p s.toList ++ reset) else s

/-- A text at the left of a column in a style, where colours are on. -/
def column (p : Paint) (coloured : Bool) (width : Nat) (s : String) : String :=
  .ofList (if coloured then p.opening ++ leftAligned width (reopened p s.toList) ++ reset
    else leftAligned width s.toList)

end Paint

end DeployInventory
