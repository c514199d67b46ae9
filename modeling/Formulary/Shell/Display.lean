import Formulary.Text.Quote
import Formulary.Value.Basic

/-!
# Displayed values

How the shell shows a value: as a literal of the language where there is one.
-/

namespace Formulary

/-- A double as it is shown: always with a sign that it is no integer. -/
def Number.displayDouble (x : Float) : String :=
  let text := doubleText x
  if text.toList.any fun c => ".eEIN".toList.contains c then text else text ++ ".0"

def Value.display : Value → Text
  | .nil => Text.ofString "null"
  | .string t => Text.ofString (Text.quote t)
  | .char c => Text.ofString "'" ++ Value.charText c ++ Text.ofString "'"
  | .decimal d _ => Text.ofString (d.text ++ "m")
  | .dateTime t => Text.ofString "#" ++ t.format (Text.ofString "2006-01-02T15:04:05Z07:00") ++
      Text.ofString "#"
  | .single x => Text.ofString (Number.singleText x ++ "f")
  | .double x => Text.ofString (Number.displayDouble x)
  | v => v.shown

end Formulary
