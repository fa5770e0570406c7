import IconCompiler.Variant.Builtin

/-! Variants under their identifiers, in the order of their first registration. -/

namespace IconCompiler

abbrev Registry := Table String Variant

namespace Registry

/-- Registers a variant, in the place of one with the same identifier if there is one. -/
def register (r : Registry) (v : Variant) : Registry := r.put v.id v

def ofVariants (vs : List Variant) : Registry := vs.foldl register Table.empty

def builtin : Registry := ofVariants Variant.builtins

/-- The identifiers as they are named to a user. -/
def listing (r : Registry) : String := ", ".intercalate r.keys

/-- The registry in one line. -/
def describe (r : Registry) : String :=
  "VariantRegistry \x7b variants: " ++ Text.escapedList r.keys ++ " \x7d"

end Registry

end IconCompiler
