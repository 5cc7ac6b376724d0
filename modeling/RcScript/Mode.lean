/-!
# Binding modes

The modes that a binding can be limited to. A mode is written by its exact name.
-/

namespace RcScript

/-- A mode of the browser extension. -/
inductive Mode where
  | normal
  | ignore
  | insert
  | input
  | ex
  | hint
  | visual
  | browser
  deriving DecidableEq, Repr, Inhabited

namespace Mode

/-- Every mode, in the order in which they are listed. -/
def all : List Mode := [normal, ignore, insert, input, ex, hint, visual, browser]

/-- The name of a mode, as written after `--mode=`. -/
def name : Mode → String
  | normal => "normal"
  | ignore => "ignore"
  | insert => "insert"
  | input => "input"
  | ex => "ex"
  | hint => "hint"
  | visual => "visual"
  | browser => "browser"

/-- The mode of a name. -/
def ofName? (text : String) : Option Mode := all.find? fun mode => mode.name == text

end Mode

/-- Whether a name is the name of a mode. -/
def isKnownMode (name : String) : Bool := (Mode.ofName? name).isSome

end RcScript
