import IconCompiler.Compilation
import IconCompiler.Configuration.Error
import IconCompiler.Discovery
import IconCompiler.Output

/-! Why a command fails. -/

namespace IconCompiler

inductive RunError where
  | scan (e : ScanError)
  | config (e : ConfigError)
  | write (e : WriteError)
  | generate (e : CompileError)
  | validation (reason : String)
  | io (e : IoError)
  deriving DecidableEq

namespace RunError

def message : RunError → String
  | scan e => "Failed to scan directory: " ++ e.message
  | config e => "Failed to load configuration: " ++ e.message
  | write e => "Failed to write output: " ++ e.message
  | generate e => "Failed to generate icons: " ++ e.message
  | validation reason => "Validation failed: " ++ reason
  | io e => "IO error: " ++ e.message

/-- The messages of the errors that led to an error, the nearest first. -/
def causes : RunError → List String
  | scan e =>
    e.message :: match e with
      | .unreadable _ cause => [cause.message]
      | .interrupted reason => [reason]
      | .directoryNotFound _ | .noDrawings _ => []
  | config e =>
    e.message :: match e with
      | .unreadable _ cause => [cause.message]
      | .notFound _ | .invalidToml _ _ | .invalidValue _ _ => []
  | write e => [e.message, e.cause.message]
  | generate e =>
    e.message :: match e with
      | .source e => [e.message]
      | .template e => [e.message]
      | .unsupportedVariant _ => []
  | validation _ => []
  | io e => [e.message]

/-- The error and all that led to it in one line. -/
def account (e : RunError) : String := ": ".intercalate (e.message :: e.causes)

end RunError

end IconCompiler
