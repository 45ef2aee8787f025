/-!
# Configuration and log

The switches of a generation, and the messages it leaves behind.
-/

namespace StackCode

/-- The switches of a generation. -/
structure Config where
  /-- Log a listing of every finished method. -/
  debugCode : Bool := false
  /-- Keep a table of the local variables of every method. -/
  varDebugInfo : Bool := true
  /-- Give iterator classes the members by which loops draw elements from them. -/
  iteratorProtocol : Bool := true
  deriving DecidableEq, Repr, Inhabited

/-- The words that switch the table of local variables off. -/
def Config.offWords : List String := ["0", "false", "off"]

/--
The configuration that two settings of the environment ask for: the first one
turns listings on by being there at all, the second one turns the table of local
variables off by one of three words.
-/
def Config.ofSettings (debug varDebug : Option String) : Config :=
  { debugCode := debug.isSome
    varDebugInfo := varDebug.all fun word => !offWords.contains word }

/-- How much a reader of the log wants to know. -/
inductive LogLevel where
  /-- What was generated. -/
  | debug
  /-- Also how. -/
  | trace
  deriving DecidableEq, Repr, Inhabited

/-- A message of the log. -/
structure LogEntry where
  /-- The level from which on the message is shown. -/
  level : LogLevel
  /-- The wording. -/
  text : String
  deriving DecidableEq, Repr, Inhabited

/-- The message is shown to a reader of the given level. -/
def LogEntry.shownAt (entry : LogEntry) (level : LogLevel) : Bool :=
  match level with
  | .trace => true
  | .debug => entry.level == .debug

end StackCode
