/-!
# Events

The browser events that an `autocmd` can fire on. An event is written by its
exact name.
-/

namespace RcScript

/-- A browser event. -/
inductive Event where
  | docStart
  | docLoad
  | docEnd
  | triStart
  | tabEnter
  | tabLeft
  | fullscreenChange
  | fullscreenEnter
  | fullscreenLeft
  | uriChange
  | historyState
  deriving DecidableEq, Repr, Inhabited

namespace Event

/-- Every event, in the order in which they are listed. -/
def all : List Event :=
  [docStart, docLoad, docEnd, triStart, tabEnter, tabLeft, fullscreenChange,
    fullscreenEnter, fullscreenLeft, uriChange, historyState]

/-- The name of an event, as written in a script. -/
def name : Event → String
  | docStart => "DocStart"
  | docLoad => "DocLoad"
  | docEnd => "DocEnd"
  | triStart => "TriStart"
  | tabEnter => "TabEnter"
  | tabLeft => "TabLeft"
  | fullscreenChange => "FullscreenChange"
  | fullscreenEnter => "FullscreenEnter"
  | fullscreenLeft => "FullscreenLeft"
  | uriChange => "UriChange"
  | historyState => "HistoryState"

/-- The event of a name. -/
def ofName? (text : String) : Option Event := all.find? fun event => event.name == text

end Event

/-- Whether a name is the name of an event. -/
def isKnownEvent (name : String) : Bool := (Event.ofName? name).isSome

end RcScript
