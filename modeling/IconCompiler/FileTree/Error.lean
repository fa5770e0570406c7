/-! Why an operation on files fails. -/

namespace IconCompiler

inductive IoError where
  | notFound
  | notDirectory
  | isDirectory
  | fileExists
  | permissionDenied
  | nameTooLong
  | nullInName
  | notUtf8
  | other (message : String)
  deriving DecidableEq

def IoError.message : IoError → String
  | notFound => "No such file or directory (os error 2)"
  | notDirectory => "Not a directory (os error 20)"
  | isDirectory => "Is a directory (os error 21)"
  | fileExists => "File exists (os error 17)"
  | permissionDenied => "Permission denied (os error 13)"
  | nameTooLong => "File name too long (os error 36)"
  | nullInName => "file name contained an unexpected NUL byte"
  | notUtf8 => "stream did not contain valid UTF-8"
  | other message => message

end IconCompiler
