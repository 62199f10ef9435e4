/-
# Logging setup

The configuration of log output, and its installation.  Output is installed
once for a whole process: later calls find it in place, and a process that
already sends its logs elsewhere keeps doing so.
-/
import Relayout.Environment
import Relayout.Logging.Filter

namespace Relayout.Logging

/-- Which events are written. -/
inductive Level where
  | error
  | warn
  | info
  | debug
  | trace
deriving DecidableEq, Repr

namespace Level

def name : Level → String
  | .error => "error"
  | .warn => "warn"
  | .info => "info"
  | .debug => "debug"
  | .trace => "trace"

/-- The level of a word. -/
def ofText? (s : String) : Option Level :=
  match Text.keyword s with
  | "error" => some .error
  | "warn" => some .warn
  | "warning" => some .warn
  | "info" => some .info
  | "debug" => some .debug
  | "trace" => some .trace
  | _ => none

end Level

/-- How events are written. -/
inductive Format where
  | human
  | json
deriving DecidableEq, Repr

namespace Format

def name : Format → String
  | .human => "Human"
  | .json => "Json"

/-- The format of a word. -/
def ofText? (s : String) : Option Format :=
  match Text.keyword s with
  | "human" => some .human
  | "pretty" => some .human
  | "json" => some .json
  | _ => none

end Format

structure Config where
  level : Level
  format : Format
  /-- Whether every event names the place it came from. -/
  withFileInfo : Bool
deriving DecidableEq, Repr

namespace Config

def standard : Config := ⟨.warn, .human, false⟩

/-- The configuration that the environment describes; what it leaves out or
misspells is standard. -/
def ofEnvironment (env : Environment) : Config where
  level := ((Environment.filled env.logLevel).bind Level.ofText?).getD standard.level
  format := ((Environment.filled env.logFormat).bind Format.ofText?).getD standard.format
  withFileInfo := standard.withFileInfo

end Config

/-! ## Installation -/

/-- Where the logs of a process go. -/
inductive Sink where
  /-- Nowhere yet. -/
  | none
  /-- To an output that was installed by someone else. -/
  | foreign
  /-- To the output installed here. -/
  | installed
deriving DecidableEq, Repr

inductive SetupError where
  | invalidFilter
  | alreadyInstalled
deriving DecidableEq, Repr

/-- The filter of an installation: the environment's, or else the level. -/
def filterText (env : Environment) (config : Config) : String :=
  (Environment.filled env.logFilter).getD config.level.name

/-- Installs output.  The filter is looked at before anything is replaced. -/
def install (env : Environment) (config : Config) (sink : Sink) : Except SetupError Sink :=
  if sink = .installed then .ok .installed
  else if !isFilter (filterText env config) then .error .invalidFilter
  else if sink = .foreign then .error .alreadyInstalled
  else .ok .installed

end Relayout.Logging
