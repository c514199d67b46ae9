import Formulary.Proofs.Build.Typed
import Formulary.Proofs.Machine.Flow
import Formulary.Proofs.Value.Genuine

/-!
# Honest hosts

What a host promises of its functions, methods and constants: that they give values of the types
they declare, for arguments of the types they declare. The built-in overloads keep this promise.
-/

namespace Formulary

open Machine

/-- Genuine arguments that can be stored where the parameters are declared. -/
def Signature.Takes (host : Host) (s : Signature) (args : List Value) : Prop :=
  List.Forall₂ (fun p a => host.accepts p a = true) s.params args ∧ ∀ a ∈ args, a.Genuine host

/-- Whatever value an evaluation gives is one of a declared type. -/
def Host.Gives (host : Host) (t : Ty) (e : Eval Value) : Prop :=
  ∀ tally tally' v, e.run tally = (.ok v, tally') → host.Has t v

/-- A function that gives values of the type it declares. -/
def Function.Honest (host : Host) (f : Function) : Prop :=
  ∀ args t, f.signature.Takes host args → f.signature.results.head? = some t →
    host.Gives t (f.body args)

/-- A method that gives values of the type it declares, called on values of its type or on pointers
to them. -/
def Method.Honest (host : Host) (base : Ty) (m : Method) : Prop :=
  ∀ recv args t, recv.Genuine host → recv.type? = some base ∨ recv.type? = some (.pointer base) →
    m.signature.Takes host args → m.signature.results.head? = some t →
      host.Gives t (m.body recv args)

/-- A host whose records do not hold themselves, and whose types have methods of different names
that give values of the types they declare. -/
structure Host.Honest (host : Host) : Prop where
  ranked : ∃ rank, host.Ranked rank
  distinct : ∀ t, ((host.methods t).map (·.name)).Nodup
  methods : ∀ t, ∀ m ∈ host.methods t, m.Honest host t

/-- A member that gives values of the type it declares. -/
def Member.Honest (host : Host) : Member → Prop
  | .function _ f => f.Honest host
  | .constant _ t v => host.Has t v
  | _ => True

structure Operators.Honest (host : Host) (ops : Operators) : Prop where
  binary : ∀ op f, (op, f) ∈ ops.binary → f.Honest host
  unary : ∀ op f, (op, f) ∈ ops.unary → f.Honest host
  implicit : ∀ f ∈ ops.implicit, f.Honest host
  explicit : ∀ f ∈ ops.explicit, f.Honest host

structure Scope.Honest (s : Scope) : Prop where
  host : s.host.Honest
  imports : ∀ m, Imported s.imports m → m.Honest s.host
  operators : s.operators.Honest s.host

section Gives

variable {host : Host} {t : Ty}

theorem Host.Gives.pure {v : Value} (h : host.Has t v) : host.Gives t (pure v) := by
  intro tally tally' w hw
  obtain ⟨rfl, -⟩ := run_pure_eq_ok.1 hw
  exact h

theorem Host.Gives.failed {f : Failure} : host.Gives t (failed f) := nofun

theorem Host.Gives.breakdown : host.Gives t breakdown := nofun

theorem Host.Gives.bind {α : Type} {e : Eval α} {k : α → Eval Value}
    (h : ∀ a tally tally', e.run tally = (.ok a, tally') → host.Gives t (k a)) :
    host.Gives t (e >>= k) := by
  intro tally tally' v hv
  obtain ⟨a, u, ha, hk⟩ := run_bind_eq_ok.1 hv
  exact h a tally u ha _ _ v hk

/-- A value of a plain type. -/
theorem Host.has_of_type {v : Value} (h : v.type? = some t) (ht : t.isInterface = false)
    (hv : v.Genuine host) :
    host.Has t v := ⟨fits_of_type h ht, hv⟩

end Gives

section Builtin

variable (host : Host)

/-- A function of two arguments whose values are of one plain type. -/
theorem two_honest {p q result : Ty} {f : Value → Value → Value}
    (h : ∀ a b, host.Has result (f a b)) :
    (Builtin.two p q result f).Honest host := by
  intro args t _ ht
  obtain rfl := Option.some.inj ht
  dsimp only [Builtin.two]
  split
  · exact .pure (h _ _)
  · exact .breakdown

theorem decimals_honest (f : Decimal → Decimal → Decimal) : (Builtin.decimals f).Honest host :=
  two_honest host fun _ _ => Host.has_of_type rfl rfl trivial

theorem spans_honest (f : Int → Int → Int) : (Builtin.spans f).Honest host :=
  two_honest host fun _ _ => Host.has_of_type rfl rfl trivial

theorem moved_honest (f : Int → Int) : (Builtin.moved f).Honest host :=
  two_honest host fun _ _ => Host.has_of_type rfl rfl trivial

theorem quotient_honest (f : Decimal → Decimal → Decimal) : (Builtin.quotient f).Honest host := by
  intro args t _ ht
  obtain rfl := Option.some.inj ht
  dsimp only [Builtin.quotient]
  split
  · split
    · exact .failed
    · exact .pure (Host.has_of_type rfl rfl trivial)
  · exact .breakdown

theorem comparisons_honest {op : Operator} {x : Operator × Function}
    (h : x ∈ Builtin.comparisons op) :
    x.2.Honest host := by
  simp only [Builtin.comparisons, List.mem_cons, List.not_mem_nil, or_false] at h
  rcases h with rfl | rfl | rfl <;> exact two_honest host fun _ _ =>
    Host.has_of_type rfl rfl trivial

/-- The built-in overloads give values of the types they declare. -/
theorem builtin_honest : Builtin.operators.Honest host where
  binary op f h := by
    rcases List.mem_append.1 h with h | h
    · simp only [List.mem_cons, Prod.mk.injEq, List.not_mem_nil, or_false] at h
      rcases h with ⟨-, rfl⟩ | ⟨-, rfl⟩ | ⟨-, rfl⟩ | ⟨-, rfl⟩ | ⟨-, rfl⟩ | ⟨-, rfl⟩ | ⟨-, rfl⟩ | ⟨-,
        rfl⟩ | ⟨-, rfl⟩ |
        ⟨-, rfl⟩ | ⟨-, rfl⟩
      · exact decimals_honest host _
      · exact moved_honest host _
      · exact spans_honest host _
      · exact decimals_honest host _
      · exact moved_honest host _
      · exact two_honest host fun _ _ => Host.has_of_type rfl rfl trivial
      · exact spans_honest host _
      · exact decimals_honest host _
      · exact quotient_honest host _
      · exact quotient_honest host _
      · exact two_honest host fun _ _ => Host.has_of_type rfl rfl trivial
    · obtain ⟨op', -, h⟩ := List.mem_flatMap.1 h
      exact comparisons_honest host h
  unary op f h := by
    simp only [Builtin.operators, List.mem_cons, Prod.mk.injEq, List.not_mem_nil, or_false] at h
    rcases h with ⟨-, rfl⟩ | ⟨-, rfl⟩
    all_goals
      intro args t _ ht
      obtain rfl := Option.some.inj ht
      dsimp only
      split
      · exact .pure (Host.has_of_type rfl rfl trivial)
      · exact .breakdown
  implicit f h := nomatch h
  explicit f h := nomatch h

end Builtin

/-- A host that declares nothing. -/
def Host.bare : Host := ⟨[], [], fun _ => [], fun _ => []⟩

theorem Host.bare_honest : Host.bare.Honest where
  ranked := ⟨fun _ => 0, fun _ => ⟨Nat.le_refl _, nofun⟩⟩
  distinct _ := List.nodup_nil
  methods _ _ h := nomatch h

end Formulary
