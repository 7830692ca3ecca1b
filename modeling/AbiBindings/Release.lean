import AbiBindings.Text.Basic

/-!
The release of the program and of its module format. Both are written into every output, so that
a changed output can be told apart as a new release or a changed contract.
-/

namespace AbiBindings.Release

def version : Text := "0.1.0"

/-- The version of the module format, raised when readers of it would notice. -/
def formatVersion : Text := "1"

/-- The name and version that outputs carry. -/
def generator : Text := "ethbind " ++ version

/-- The line that the program prints about itself. -/
def banner : Text := generator ++ " (ir " ++ formatVersion ++ ")"

end AbiBindings.Release
