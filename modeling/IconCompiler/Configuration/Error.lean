import IconCompiler.FileTree.Error

/-! Why a configuration cannot be used. -/

namespace IconCompiler

inductive ConfigError where
  | notFound (path : String)
  | invalidToml (path reason : String)
  | invalidValue (key reason : String)
  | unreadable (path : String) (cause : IoError)
  deriving DecidableEq

def ConfigError.message : ConfigError → String
  | notFound path => "Configuration file not found: " ++ path
  | invalidToml path reason => "Invalid TOML in " ++ path ++ ": " ++ reason
  | invalidValue key reason => "Invalid configuration value for '" ++ key ++ "': " ++ reason
  | unreadable path cause => "Failed to read config " ++ path ++ ": " ++ cause.message

end IconCompiler
