import SchemaBinding.Files.Fault
import SchemaBinding.Files.Path
import SchemaBinding.Introspection.Load

/-!
# Failures

Why a run fails.  Each failure has its words and its exit code; only a failed
validation has a code of its own.
-/

namespace SchemaBinding

inductive SettingsFault where
  | notFound (path : Path)
  | unreadable (path : Path) (fault : Files.Fault)
  /-- A configuration is no document, or a setting is of a wrong type. -/
  | invalidDocument (path : Path) (reason : String)
  /-- A setting has a value that means nothing. -/
  | invalidValue (key reason : String)
deriving DecidableEq, Repr

def SettingsFault.message : SettingsFault → String
  | .notFound path => "Configuration file not found: " ++ path.text
  | .unreadable path fault => "Failed to read config " ++ path.text ++ ": " ++ fault.message
  | .invalidDocument path reason => "Invalid TOML in " ++ path.text ++ ": " ++ reason
  | .invalidValue key reason => "Invalid configuration value for '" ++ key ++ "': " ++ reason

inductive WriteFault where
  | directory (path : Path) (fault : Files.Fault)
  | file (path : Path) (fault : Files.Fault)
deriving DecidableEq, Repr

def WriteFault.message : WriteFault → String
  | .directory path fault =>
    "Failed to create directory " ++ path.text ++ ": " ++ fault.message
  | .file path fault => "Failed to write file " ++ path.text ++ ": " ++ fault.message

inductive Failure where
  | unreadableSchema (path : Path) (fault : Files.Fault)
  | invalidSchema (path : Path) (error : Introspection.LoadError)
  | settings (fault : SettingsFault)
  | writing (fault : WriteFault)
  | watching (reason : String)
  /-- A check that was asked for does not hold. -/
  | validation (reason : String)
  /-- A file that no other failure speaks of could not be read or written. -/
  | access (fault : Files.Fault)
deriving Repr

namespace Failure

def message : Failure → String
  | unreadableSchema path fault =>
    "Failed to read schema " ++ path.text ++ ": " ++ fault.message
  | invalidSchema path error => "Invalid schema " ++ path.text ++ ": " ++ error.message
  | settings fault => "Failed to load configuration: " ++ fault.message
  | writing fault => "Failed to write output: " ++ fault.message
  | watching reason => "Watch error: Failed to initialize file watcher: " ++ reason
  | validation reason => "Validation failed: " ++ reason
  | access fault => "IO error: " ++ fault.message

def exitCode : Failure → UInt8
  | validation _ => 2
  | _ => 1

end Failure

end SchemaBinding
