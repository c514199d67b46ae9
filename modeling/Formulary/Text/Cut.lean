import Formulary.Text.Classes
import Formulary.Text.Utf8

/-!
# Cutting texts
-/

namespace Formulary.Text

def trim (t : Text) : Text := trimEndWith isSpace (trimStartWith isSpace t)

/-- What stands before and after the first occurrence of a byte. -/
def cut? (mark : UInt8) : Text → Option (Text × Text)
  | [] => none
  | b :: rest =>
    if b == mark then some ([], rest) else (cut? mark rest).map fun (a, c) => (b :: a, c)

end Formulary.Text
