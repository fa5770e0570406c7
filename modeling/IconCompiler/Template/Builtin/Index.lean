import IconCompiler.Template.Builtin.Parts

/-! Index files, which export every component of a directory under its name. -/

namespace IconCompiler.Template.Builtin.Index

open Text (lines)

def named : List Part :=
  [.loop (some ["components"])
    [.text r"export { ", .value ["name"], .text r" } from './", .value ["path"],
     .text (lines ["'"])]]

def byDefault : List Part :=
  [.loop (some ["components"])
    [.text r"export { default as ", .value ["name"], .text r" } from './", .value ["path"],
     .text (lines ["'"])]]

end IconCompiler.Template.Builtin.Index
