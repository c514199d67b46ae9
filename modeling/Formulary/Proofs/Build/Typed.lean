import Formulary.Proofs.Build.Walk
import Formulary.Proofs.Element.Body

/-!
# Typed elements

The typing rules of elements, as far as the types of values depend on them: operations stand on
operands of the types they compute with, conversions are those the scope has, and functions,
constants, members and overloads come from the scope. The element of every tree keeps these rules,
whatever the scope.
-/

namespace Formulary

inductive Imported (root : List Member) : Member → Prop
  | here {m : Member} (h : m ∈ root) : Imported root m
  | within {name : String} {members : List Member} {m : Member}
      (h : Imported root (.namespace name members))
    (hm : m ∈ members) : Imported root m

/-- A value that a literal stands for. -/
def Value.Plain : Value → Prop
  | .nil | .bool _ | .int .. | .char _ | .single _ | .double _ | .decimal .. | .string _
  | .dateTime _ | .timeSpan _ => True
  | _ => False

/-- A conversion that operators give between two types, with or without a cast. -/
def Conversion.Between (host : Host) (ops : Operators) (source target : Ty)
    (how : Option Conversion) : Prop :=
  Typing.implicit? host ops source target = some how ∨
    Typing.explicit? host ops source target = some how ∨
    Typing.checkedExplicit? host ops source target = some how

/-- The types a unary operation takes and gives. -/
def Unary.Yields (ops : Operators) : Unary → Ty → Ty → Prop
  | .not, a, t => a = .bool ∧ t = .bool
  | .complement, a, t => a.isIntegral ∧ t = a
  | .negate u _, a, t => Typing.isComputed u ∧ a = u ∧ t = u
  | .overload op f, a, t =>
    ((op, f) ∈ ops.unary ∨ (op, f) ∈ Builtin.operators.unary) ∧ f.signature.params = [a] ∧
      f.signature.results.head? = some t

/-- The types a binary operation takes and gives. -/
def Binary.Yields (ops : Operators) : Binary → Ty → Ty → Ty → Prop
  | .concat, _, _, t => t = .string
  | .arithmetic _ u _, a, b, t => Typing.isComputed u ∧ a = u ∧ b = u ∧ t = u
  | .power, a, b, t => a = .double ∧ b = .double ∧ t = .double
  | .compare _ u, a, b, t => Typing.isComputed u ∧ a = u ∧ b = u ∧ t = .bool
  | .textEqual _ _, a, b, t => a = .string ∧ b = .string ∧ t = .bool
  | .sameObject _, _, _, t => t = .bool
  | .compareEnum _, a, b, t => a.isEnum ∧ b = a ∧ t = .bool
  | .shift _ u, a, b, t => u.isIntegral ∧ a = u ∧ b = .int .int ∧ t = u
  | .bitwise _ u, a, b, t => u.isIntegral ∧ a = u ∧ b = u ∧ t = u
  | .exclusive, a, b, t => a = .bool ∧ b = .bool ∧ t = .bool
  | .overload op f, a, b, t =>
    ((op, f) ∈ ops.binary ∨ (op, f) ∈ Builtin.operators.binary) ∧ f.signature.params = [a, b] ∧
      f.signature.results.head? = some t

/-- The types a comparison for equality can have: boolean, or what an overload of the host gives. -/
def Scope.Compared (s : Scope) (t : Ty) : Prop :=
  t = .bool ∨ ∃ f, (.equal, f) ∈ s.operators.binary ∧ f.signature.results.head? = some t

/-- The typing rules. `last` is the type of the value evaluated just before, which a duplicate
stands for. The owner is no element of its own, only what its members are read from. -/
inductive Typed (s : Scope) : Option Ty → Element → Prop
  | literal {last v} (numeral : Option NumeralImage) (h : Value.Plain v) :
    Typed s last (.constant (v.type?.getD .null) v numeral)
  | imported {last name t v} (h : Imported s.imports (.constant name t v)) :
      Typed s last (.constant t v none)
  | convert {last name how t e} (he : Typed s last e)
      (h : Conversion.Between s.host s.operators e.type t how) :
    Typed s last (.convert name how t e)
  | unary {last op t e} (he : Typed s last e) (h : Unary.Yields s.operators op e.type t) :
      Typed s last (.unary op t e)
  | binary {last op t l r} (hl : Typed s last l) (hr : Typed s none r)
    (h : Binary.Yields s.operators op l.type r.type t) : Typed s last (.binary op t l r)
  | choose {last t c x y} (hc : Typed s last c) (hx : Typed s last x) (hy : Typed s last y)
      (cond : c.type = .bool)
    (whenTrue : x.type = t) (whenFalse : y.type = t) : Typed s last (.choose t c x y)
  | logic {last c} (h : ∀ e ∈ c.operands, Typed s last e)
      (bool : ∀ e ∈ c.operands, e.type = .bool) :
    Typed s last (.logic c)
  | duplicate {t} : Typed s (some t) (.duplicate t)
  | among {last o tests} (ho : Typed s last o) (h : ∀ e ∈ tests, Typed s (some o.type) e)
    (compared : ∀ e ∈ tests, s.Compared e.type) : Typed s last (.among o tests)
  | contains {last c o} (hc : Typed s last c) (ho : Typed s none o)
    (h : Build.searchedType? c.type = some o.type) : Typed s last (.contains c o)
  | read {last m r} (hr : Typed s last r) (h : m ∈ s.host.members r.type)
      (kind : m.kind ∈ Build.readable) :
    Typed s last (.read m (m.valueType?.getD .null) r)
  | readOwner {last m o} (owner : s.ownerType = some o) (h : m ∈ s.host.members o)
      (kind : m.kind ∈ Build.readable) :
    Typed s last (.read m (m.valueType?.getD .null) (.owner o))
  | call {last name n f spread t args} (h : Imported s.imports (.function name f))
    (value : f.signature.value? = some t) (hargs : ∀ a ∈ args, Typed s none a) :
    Typed s last (.call n f spread t args)
  | invoke {last name signature spread t r args} (hr : Typed s last r)
    (h : .method name signature ∈ s.host.members r.type) (value : signature.value? = some t)
    (hargs : ∀ a ∈ args, Typed s none a) : Typed s last (.invoke name signature spread t r args)
  | invokeOwner {last name signature spread t o args} (owner : s.ownerType = some o)
    (h : .method name signature ∈ s.host.members o) (value : signature.value? = some t)
    (hargs : ∀ a ∈ args, Typed s none a) : Typed s last
    (.invoke name signature spread t (.owner o) args)
  | load {last name t} : Typed s last (.variable name t)
  | demand {last name t args} (hargs : ∀ a ∈ args, Typed s none a) :
      Typed s last (.demand name t args)
  | index {last c i t key} (hc : Typed s last c) (hi : Typed s none i)
      (h : Build.itemType? c.type = some (t, key)) :
    Typed s last (.index t c i)

namespace Typed

variable {s : Scope} {last : Option Ty} {e : Element}

/-- An element that stands for itself can follow any value. -/
theorem weaken (h : Typed s none e) : Typed s last e := by
  generalize hn : (none : Option Ty) = start at h
  induction h with
  | literal numeral h => exact .literal numeral h
  | imported h => exact .imported h
  | convert _ h ih => exact .convert (ih hn) h
  | unary _ h ih => exact .unary (ih hn) h
  | binary _ hr h ih => exact .binary (ih hn) hr h
  | choose _ _ _ cond whenTrue whenFalse ihc ihx ihy =>
    exact .choose (ihc hn) (ihx hn) (ihy hn) cond whenTrue whenFalse
  | logic _ bool ih => exact .logic (fun e he => ih e he hn) bool
  | duplicate => cases hn
  | among _ h compared ih => exact .among (ih hn) h compared
  | contains _ ho h ih => exact .contains (ih hn) ho h
  | read _ h kind ih => exact .read (ih hn) h kind
  | readOwner owner h kind => exact .readOwner owner h kind
  | call h value hargs => exact .call h value hargs
  | invoke _ h value hargs ih => exact .invoke (ih hn) h value hargs
  | invokeOwner owner h value hargs => exact .invokeOwner owner h value hargs
  | load => exact .load
  | demand hargs => exact .demand hargs
  | index _ hi h ih => exact .index (ih hn) hi h

end Typed

end Formulary
