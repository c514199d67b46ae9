import Formulary.Proofs.Element.Tidy
import Formulary.Proofs.Machine.Flow

/-!
# Layouts of elements

A kinding gives elements the kinds of their values, in accordance with what their instructions do to
a layout. The lines of an element that has a kind lead from any layout to the same layout with this
kind on top: whatever way is taken through the branches of a choice, the tests of a membership test
or the operands of a condition.
-/

namespace Formulary

open Machine Machine.Lines

variable {α : Type}

def KindAll (kind : Option α → Element → α → Prop) : Option α → List Element → List α → Prop
  | _, [], [] => True
  | last, e :: es, a :: as => kind last e a ∧ KindAll kind (some a) es as
  | _, _, _ => False

/-- Elements whose kinds do not depend on what is evaluated before them. -/
theorem KindAll.of_forall {kind : Option α → Element → α → Prop} {f : Element → α}
    {es : List Element} (h : ∀ e ∈ es, ∀ last, kind last e (f e)) (last : Option α) :
    KindAll kind last es (es.map f) := by
  induction es generalizing last with
  | nil => trivial
  | cons e es ih =>
    exact ⟨h e List.mem_cons_self last, ih (fun x hx => h x (List.mem_cons_of_mem _ hx)) _⟩

/-- Kinds of elements that agree with a discipline. The kind of an element may depend on the kind of
the value evaluated before it. -/
structure Kinding (d : Discipline Instruction α) (kind : Option α → Element → α → Prop) : Prop where
  constant : ∀ {last t v numeral a}, kind last (.constant t v numeral) a → d.pushes v a
  convertNone : ∀ {last name t e a}, kind last (.convert name none t e) a → kind last e a
  convertSome : ∀ {last name c t e a}, kind last (.convert name (some c) t e) a →
    ∃ b, kind last e b ∧ ∀ s, d.acts (.convert name t c) (b :: s) (a :: s)
  unary : ∀ {last op t e a}, kind last (.unary op t e) a →
    ∃ b, kind last e b ∧ ∀ s, d.acts (.unary op e.type) (b :: s) (a :: s)
  binary : ∀ {last op t l r a}, kind last (.binary op t l r) a →
    ∃ b c, kind last l b ∧ kind (some b) r c ∧ ∀ s,
      d.acts (.binary op l.type) (c :: b :: s) (a :: s)
  choose : ∀ {last t c x y a}, kind last (.choose t c x y) a →
    (∃ b, d.decides b ∧ kind last c b) ∧ kind last x a ∧ kind last y a
  logic : ∀ {last c a}, kind last (.logic c) a →
    (∀ b, d.pushes (.bool b) a) ∧ ∀ e ∈ c.operands, kind last e a ∧ ∃ b, d.decides b ∧ kind last e b
  duplicate : ∀ {last t a}, kind last (.duplicate t) a → ∀ s : List α, s.head? = last →
    d.acts .duplicate s (a :: s)
  among : ∀ {last o ts a}, kind last (.among o ts) a →
    (∀ b, d.pushes (.bool b) a) ∧ ∃ b, kind last o b ∧ ∀ t ∈ ts, ∃ x, d.decides x ∧
      kind (some b) t x
  contains : ∀ {last c o a}, kind last (.contains c o) a →
    ∃ b x, kind last c b ∧ kind (some b) o x ∧ ∀ s, d.acts (.contains c.type) (x :: b :: s) (a :: s)
  owner : ∀ {last t a}, kind last (.owner t) a → ∀ s, d.acts .owner s (a :: s)
  read : ∀ {last m t r a}, kind last (.read m t r) a → ∃ b, kind last r b ∧ ∀ s,
    d.acts (.read m) (b :: s) (a :: s)
  call : ∀ {last name fn spread t args a}, kind last (.call name fn spread t args) a →
    ∃ bs, KindAll kind last args bs ∧ ∀ s, d.acts (.call name fn spread args.length)
      (bs.reverse ++ s) (a :: s)
  invoke : ∀ {last name signature spread t r args a},
    kind last (.invoke name signature spread t r args) a →
    ∃ b bs, kind last r b ∧ KindAll kind (some b) args bs ∧
      ∀ s, d.acts (.invoke name signature spread args.length) (bs.reverse ++ b :: s) (a :: s)
  load : ∀ {last name t a}, kind last (.variable name t) a → ∀ s,
    d.acts (.variable name t) s (a :: s)
  demand : ∀ {last name t args a}, kind last (.demand name t args) a →
    ∃ bs, KindAll kind last args bs ∧ ∀ s, d.acts (.demand name t args.length)
      (bs.reverse ++ s) (a :: s)
  index : ∀ {last t r i a}, kind last (.index t r i) a →
    ∃ b c, kind last r b ∧ kind (some b) i c ∧ ∀ s, d.acts (.index r.type) (c :: b :: s) (a :: s)

def Leads (d : Discipline Instruction α) (s : List α) (a : Lines Instruction) (t : List α) : Prop :=
  ∃ c : Chart Instruction α, c.lines = a ∧ c.Flows d t ∧ c.start t = s

namespace Leads

variable {d : Discipline Instruction α} {s t u : List α} {a b : Lines Instruction}

theorem nil : Leads d s [] s := ⟨[], rfl, trivial, rfl⟩

theorem append (ha : Leads d s a t) (hb : Leads d t b u) : Leads d s (a ++ b) u := by
  obtain ⟨ca, rfl, fa, sa⟩ := ha
  obtain ⟨cb, rfl, fb, rfl⟩ := hb
  exact ⟨ca ++ cb, Chart.lines_append ca cb, fa.append fb, by rw [Chart.start_append, sa]⟩

theorem act {i : Instruction} (h : d.acts i s t) : Leads d s [.step (.act i)] t :=
  ⟨[(s, .step (.act i))], rfl, .through rfl h trivial, rfl⟩

theorem push {v : Value} {k : α} (h : d.pushes v k) : Leads d s [.step (.push v)] (k :: s) :=
  ⟨[(s, .step (.push v))], rfl, .through rfl ⟨k, h, rfl⟩ trivial, rfl⟩

/-- An instruction behind lines that lead to the layout it works on. -/
theorem snoc (ha : Leads d s a t) {i : Instruction} (h : d.acts i t u) :
    Leads d s (a ++ [Line.step (.act i)]) u :=
  ha.append (act h)

end Leads

section Leads

variable {d : Discipline Instruction α} {s : List α}

/-- A choice leads to the same layout through either branch. -/
theorem leads_choice {j k : α} {n : Nat} {c x y : Lines Instruction} (hj : d.decides j)
    (hc : Leads d s c (j :: s))
    (hx : Leads d s x (k :: s)) (hy : Leads d s y (k :: s)) (hxn : n ∉ marks x)
    (hyn : n + 1 ∉ marks y) :
    Leads d s (c ++ Line.step (.jumpIf false n) ::
      (x ++ Line.step (.jump (n + 1)) :: .mark n :: (y ++ [Line.mark (n + 1)])))
      (k :: s) := by
  obtain ⟨cc, rfl, fc, sc⟩ := hc
  obtain ⟨cx, rfl, fx, sx⟩ := hx
  obtain ⟨cy, rfl, fy, sy⟩ := hy
  let last : Chart Instruction α := cy ++ [(k :: s, .mark (n + 1))]
  let second : Chart Instruction α := (k :: s, .step (.jump (n + 1))) :: (s, .mark n) :: last
  let first : Chart Instruction α := (j :: s, .step (.jumpIf false n)) :: (cx ++ second)
  have slast : last.start (k :: s) = s := by
    rw [Chart.start_append]
    exact sy
  have flast : last.Flows d (k :: s) := fy.append ⟨rfl, trivial⟩
  have fsecond : second.Flows d (k :: s) := by
    refine .jump ?_ ⟨slast.symm, flast⟩
    rw [Chart.landing, if_neg (by omega), Chart.landing_append_of_not_mem hyn]
    simp [Chart.landing, Chart.start]
  have ffirst : first.Flows d (k :: s) := by
    refine ⟨fun l hl => ⟨s, ⟨j, hj, rfl⟩, ?_⟩, fun _ => ⟨j, hj, ?_⟩, fx.append fsecond⟩
    · cases hl
      rw [Chart.landing_append_of_not_mem hxn]
      simp [second, Chart.landing, slast]
    · rw [Chart.start_append]
      exact congrArg _ sx.symm
  refine ⟨cc ++ first, ?_, fc.append ffirst, ?_⟩
  · simp [first, second, last]
  · rw [Chart.start_append]
    exact sc

/-- The tests of a membership test keep the layout with the tested value on top, whether one holds
or none. -/
theorem leads_tests {k : α} {found n : Nat} {es : List Element}
    {tail : Chart Instruction α} {out : List α}
    (hfound : found < n) (h : ∀ e ∈ es, ∀ n, ∃ j, d.decides j ∧
      Leads d (k :: s) (e.body n) (j :: k :: s))
    (flows : tail.Flows d out) (hstart : tail.start out = k :: s)
    (hland : tail.landing found out = some (k :: s)) :
    ∃ c : Chart Instruction α, c.lines = Element.bodyTests found n es ++
      tail.lines ∧ c.Flows d out ∧
      c.start out = k :: s ∧ c.landing found out = some (k :: s) := by
  induction es generalizing n with
  | nil => exact ⟨tail, rfl, flows, hstart, hland⟩
  | cons e es ih =>
    have htidy := e.tidy n
    have hgrow := htidy.grows
    have hoff : found ∉ marks (e.body n) := by
      intro hmem
      have hin := htidy.within found hmem
      omega
    obtain ⟨rest, lrest, frest, srest, hrest⟩ := ih (n := e.next n) (by omega) fun x hx =>
      h x (List.mem_cons_of_mem _ hx)
    obtain ⟨j, hj, ce, le, fe, se⟩ := h e List.mem_cons_self n
    let jump : Chart Instruction α := (j :: k :: s, .step (.jumpIf true found)) :: rest
    have fjump : jump.Flows d out := by
      refine ⟨fun l hl => ⟨k :: s, ⟨j, hj, rfl⟩, ?_⟩, fun _ => ⟨j, hj, ?_⟩, frest⟩
      · cases hl
        exact hrest
      · exact congrArg _ srest.symm
    refine ⟨ce ++ jump, ?_, fe.append fjump, ?_, ?_⟩
    · rw [Chart.lines_append, le, Element.bodyTests, List.append_assoc, List.cons_append, ← lrest]
      rfl
    · rw [Chart.start_append]
      exact se
    · rw [← le] at hoff
      rw [Chart.landing_append_of_not_mem hoff]
      exact hrest

/-- A membership test leads to its outcome in place of the tested value. -/
theorem leads_among {a k : α} {n m : Nat} {o : Lines Instruction} {es : List Element} (hn : n < m)
    (pushBool : ∀ b, d.pushes (.bool b) a) (ho : Leads d s o (k :: s))
    (h : ∀ e ∈ es, ∀ n, ∃ j, d.decides j ∧ Leads d (k :: s) (e.body n) (j :: k :: s)) :
    Leads d s (o ++ (Element.bodyTests n m es ++
      [Line.step .drop, .step (.push (.bool false)), .step (.jump (n + 1)), .mark n, .step .drop,
        .step (.push (.bool true)), .mark (n + 1)])) (a :: s) := by
  obtain ⟨co, rfl, fo, so⟩ := ho
  let tail : Chart Instruction α :=
    [(k :: s, .step .drop), (s, .step (.push (.bool false))), (a :: s, .step (.jump (n + 1))),
      (k :: s, .mark n), (k :: s, .step .drop), (s, .step (.push (.bool true))),
      (a :: s, .mark (n + 1))]
  have ftail : tail.Flows d (a :: s) := by
    refine .through rfl ⟨k, rfl⟩ (.through rfl ⟨a, pushBool false, rfl⟩
      (.jump ?_ ⟨rfl, .through rfl ⟨k, rfl⟩
      (.through rfl ⟨a, pushBool true, rfl⟩ ⟨rfl, trivial⟩)⟩))
    simp [Chart.landing, Chart.start]
  obtain ⟨c, lc, fc, sc, -⟩ := leads_tests hn h ftail rfl
    (by simp [tail, Chart.landing, Chart.start])
  refine ⟨co ++ c, ?_, Chart.Flows.append (sc ▸ fo) fc, ?_⟩
  · rw [Chart.lines_append, lc]
    rfl
  · rw [Chart.start_append, sc]
    exact so

/-- One operand with its mark in front of lines that start with its jump. -/
theorem leads_operand {k : α} {label : Goal → Option Nat} {p : Nat} {b : Lines Instruction}
    {rest : Chart Instruction α}
    {out : List α} (distinct : ∀ g h l, label g = some l → label h = some l → g = h)
    (apart : ∀ g l, label g = some l → l ∉ marks b) (h : Leads d s b (k :: s))
    (flows : rest.Flows d out) (hstart : rest.start out = k :: s) :
    ∃ c : Chart Instruction α, c.lines = Chain.entry label p ++ (b ++ rest.lines) ∧ c.Flows d out ∧
      c.start out = s ∧ (∀ l, label (.operand p) = some l → c.landing l out = some s) ∧
      ∀ g l, label g = some l → g ≠ .operand p → c.landing l out = rest.landing l out := by
  obtain ⟨cb, rfl, fb, sb⟩ := h
  have fbody : (cb ++ rest).Flows d out := Chart.Flows.append (hstart ▸ fb) flows
  have sbody : (cb ++ rest).start out = s := by
    rw [Chart.start_append, hstart]
    exact sb
  have hpass : ∀ g l, label g = some l → (cb ++ rest).landing l out = rest.landing l out :=
    fun g l hl => Chart.landing_append_of_not_mem (apart g l hl)
  rw [Chain.entry]
  cases hl : label (.operand p) with
  | none =>
    refine ⟨cb ++ rest, Chart.lines_append cb rest, fbody, sbody, fun l hl =>
      ?_, fun g l hg _ => hpass g l hg⟩
    cases hl
  | some m =>
    refine ⟨(s, .mark m) :: (cb ++ rest), ?_, ⟨sbody.symm, fbody⟩, rfl, fun l hm =>
      ?_, fun g l hg hne => ?_⟩
    · simp
    · obtain rfl : m = l := by simpa using hm
      simp [Chart.landing, sbody]
    · have hml : m ≠ l := by
        rintro rfl
        exact hne (distinct g _ m hg hl)
      rw [Chart.landing, if_neg hml, hpass g l hg]

theorem Chain.forall_mem_bodies {P : Lines Instruction → Prop} (finish : Nat) (c : Chain)
    {es : List Element}
    (h : ∀ e ∈ es, ∀ n, P (e.body n)) : ∀ b ∈ Chain.bodies finish c es, P b := by
  induction es generalizing c with
  | nil => exact fun b hb => nomatch hb
  | cons e es ih =>
    intro b hb
    rcases List.mem_cons.1 hb with rfl | hb
    · exact h e List.mem_cons_self _
    · exact ih (c.operand finish e) (fun x hx => h x (List.mem_cons_of_mem _ hx)) b hb

/-- The operands of a condition keep the layout: each leaves a value for its jump to decide on. -/
theorem leads_laid {a : α} {label : Goal → Option Nat} {finish place : Nat}
    {bodies : List (Lines Instruction)}
    {later : List (Logic × Nat)} {tail : Chart Instruction α} {out : List α}
    (arranged : Chain.Arranged label bodies)
    (labelled : Chain.Labelled label place later) (wide : ∀ x ∈ later, 1 ≤ x.2)
    (length : bodies.length = later.length + 1)
    (h : ∀ b ∈ bodies, Leads d s b (a :: s) ∧ ∃ j, d.decides j ∧ Leads d s b (j :: s))
    (flows : tail.Flows d out) (hfinish : tail.landing finish out = some (a :: s))
    (hvalue : ∀ b l, label (.value b) = some l → tail.landing l out = some s) :
    ∃ c : Chart Instruction α, c.lines = Chain.laid label finish place bodies later ++
      tail.lines ∧ c.Flows d out ∧
      c.start out = s ∧ (∀ j l, place ≤ j → j < place + bodies.length →
        label (.operand j) = some l →
        c.landing l out = some s) ∧
      ∀ b l, label (.value b) = some l → c.landing l out = some s := by
  induction bodies generalizing place later with
  | nil => simp at length
  | cons b bodies ih =>
    obtain ⟨hlast, j, hj, hb⟩ := h b List.mem_cons_self
    have apart := arranged.apart b List.mem_cons_self
    cases later with
    | nil =>
      obtain rfl : bodies = [] := List.eq_nil_of_length_eq_zero (by simpa using length)
      let jump : Chart Instruction α := (a :: s, .step (.jump finish)) :: tail
      have fjump : jump.Flows d out := by
        exact .jump hfinish flows
      obtain ⟨c, lc, fc, sc, hmark, hpass⟩ :=
        leads_operand (p := place) arranged.distinct apart hlast fjump rfl
      refine ⟨c, by simpa [jump,
        Chain.laid] using lc, fc, sc, fun j l hj hlt hl => ?_, fun v l hl => ?_⟩
      · obtain rfl : j = place := by simp at hlt; omega
        exact hmark l hl
      · rw [hpass _ l hl (by simp)]
        exact hvalue v l hl
    | cons x later =>
      obtain ⟨op, right⟩ := x
      obtain ⟨⟨l, hl⟩, labelled⟩ := labelled
      have hwide : ∀ x ∈ later, 1 ≤ x.2 := fun x hx => wide x (List.mem_cons_of_mem _ hx)
      obtain ⟨rest, lrest, frest, srest, hoperand, hval⟩ :=
        ih arranged.tail labelled hwide (by simpa using length)
        fun x hx => h x (List.mem_cons_of_mem _ hx)
      have hland : rest.landing l out = some s := by
        cases hg : Chain.goal place op right later with
        | operand j =>
          have hlt := Chain.goal_lt (wide _ List.mem_cons_self) hwide hg
          have hahead := Chain.goal_ahead hg
          simp only [List.length_cons] at length
          exact hoperand j l (by omega) (by omega) (hg ▸ hl)
        | value v => exact hval v l (hg ▸ hl)
      let jump : Chart Instruction α := (j :: s, .step (.jumpIf op.decisive l)) :: rest
      have fjump : jump.Flows d out := by
        refine ⟨fun m hm => ⟨s, ⟨j, hj, rfl⟩, ?_⟩, fun _ => ⟨j, hj, congrArg _ srest.symm⟩, frest⟩
        cases hm
        exact hland
      obtain ⟨c, lc, fc, sc, hmark, hpass⟩ :=
        leads_operand (p := place) arranged.distinct apart hb fjump rfl
      refine ⟨c, ?_, fc, sc, fun j m hj hlt hm => ?_, fun v m hm => ?_⟩
      · rw [lc]
        simp [jump, Chain.laid, hl, lrest]
      · by_cases hp : j = place
        · exact hmark m (hp ▸ hm)
        · have hne : Goal.operand j ≠ .operand place := fun he => hp (by injection he)
          rw [hpass _ m hm hne]
          simp only [List.length_cons] at hlt
          exact hoperand j m (by omega) (by omega) hm
      · rw [hpass _ m hm (by simp)]
        exact hval v m hm

/-- The values of a condition that are jumped to lead to the layout of its end. -/
theorem flows_ending {a : α} {label : Goal → Option Nat} {finish : Nat}
    (pushBool : ∀ b, d.pushes (.bool b) a)
    (distinct : ∀ g h l, label g = some l → label h = some l → g = h)
    (hfinish : ∀ g, label g ≠ some finish) :
    ∃ c : Chart Instruction α, c.lines = Chain.ending label finish ∧ c.Flows d (a :: s) ∧
      c.landing finish (a :: s) = some (a :: s) ∧
      ∀ b l, label (.value b) = some l → c.landing l (a :: s) = some s := by
  have hf := hfinish (.value false)
  have ht := hfinish (.value true)
  have hd := distinct (.value false) (.value true)
  have push : ∀ b, d.Effect (.push (.bool b) : Step Nat Instruction) s (a :: s) :=
    fun b => ⟨a, pushBool b, rfl⟩
  rw [Chain.ending]
  cases hlf : label (.value false) with
  | none =>
    cases hlt : label (.value true) with
    | none =>
      refine ⟨[(a :: s, .mark finish)], rfl, ⟨rfl, trivial⟩, by simp [Chart.landing,
        Chart.start], fun b l hl => ?_⟩
      cases b <;> simp_all
    | some lt =>
      refine ⟨[(s, .mark lt), (s, .step (.push (.bool true))), (a :: s, .mark finish)], rfl,
        ⟨rfl, .through rfl (push true) ⟨rfl, trivial⟩⟩, ?_, fun b l hl => ?_⟩
      · simp_all [Chart.landing, Chart.start]
      · cases b <;> simp_all [Chart.landing, Chart.start]
  | some lf =>
    cases hlt : label (.value true) with
    | none =>
      refine ⟨[(s, .mark lf), (s, .step (.push (.bool false))), (a :: s, .mark finish)], rfl,
        ⟨rfl, .through rfl (push false) ⟨rfl, trivial⟩⟩, ?_, fun b l hl => ?_⟩
      · simp_all [Chart.landing, Chart.start]
      · cases b <;> simp_all [Chart.landing, Chart.start]
    | some lt =>
      have hne : lf ≠ lt := fun he => by simpa using hd lf hlf (he ▸ hlt)
      refine ⟨[(s, .mark lf), (s, .step (.push (.bool false))),
        (a :: s, .step (.jump finish)), (s, .mark lt), (s, .step (.push (.bool true))),
        (a :: s, .mark finish)], rfl,
        ⟨rfl, .through rfl (push false) (.jump ?_ ⟨rfl, .through rfl (push true) ⟨rfl, trivial⟩⟩)⟩,
        ?_, fun b l hl => ?_⟩
      · simp_all [Chart.landing, Chart.start]
      · simp_all [Chart.landing, Chart.start]
      · cases b <;> simp_all [Chart.landing, Chart.start]

theorem leads_logic {a : α} {condition : Condition} (n : Nat) (pushBool : ∀ b, d.pushes (.bool b) a)
    (h : ∀ e ∈ condition.operands, ∀ n,
      Leads d s (e.body n) (a :: s) ∧ ∃ j, d.decides j ∧ Leads d s (e.body n) (j :: s)) :
    Leads d s (Element.body n (.logic condition)) (a :: s) := by
  have tidy : ∀ e ∈ condition.operands, ∀ n, e.Tidy n := fun e _ => e.tidy
  have harr := Chain.arranged n tidy
  have hlength : (Chain.parts n condition).length = condition.operators.length + 1 := by
    rw [Chain.parts, Chain.length_bodies, condition.length_operators]
  have hnew : ∀ g, (Chain.ofCondition n condition).label? g ≠ some n :=
    fun g hg => Nat.lt_irrefl n (Chain.label_lt n tidy hg).1
  obtain ⟨tail, ltail, ftail, hfinish, hvalue⟩ := flows_ending (s := s) pushBool harr.distinct hnew
  obtain ⟨c, lc, fc, sc, -⟩ := leads_laid harr (Chain.labelled n tidy)
    condition.operators_wide hlength
    (Chain.forall_mem_bodies n _ h) ftail hfinish hvalue
  refine ⟨c, ?_, fc, sc⟩
  rw [lc, ltail, Element.body_logic n condition tidy]
  rfl

end Leads

namespace Element

section Kinding

variable {d : Discipline Instruction α} {kind : Option α → Element → α → Prop}

theorem leads_bodyAll {es : List Element} (h : ∀ e ∈ es, ∀ (n : Nat) s a, kind s.head? e a →
    Leads d s (e.body n) (a :: s))
    {s as : List α} (hk : KindAll kind s.head? es as) (n : Nat) :
    Leads d s (bodyAll n es) (as.reverse ++ s) := by
  induction es generalizing s as n with
  | nil =>
    cases as with
    | nil => exact .nil
    | cons a as => exact hk.elim
  | cons e es ih =>
    cases as with
    | nil => exact hk.elim
    | cons a as =>
      have hrest := ih (fun x hx => h x (List.mem_cons_of_mem _ hx)) (s := a :: s) hk.2 (e.next n)
      have := (h e List.mem_cons_self n s a hk.1).append hrest
      simpa [bodyAll] using this

/-- The lines of an element lead to the layout with its kind on top. -/
theorem leads (kinding : Kinding d kind) (e : Element) (n : Nat) (s : List α) (a : α)
    (h : kind s.head? e a) :
    Leads d s (e.body n) (a :: s) := by
  induction e using Element.induction generalizing n s a with
  | constant t v numeral => exact .push (kinding.constant h)
  | convert name how t inner ih =>
    cases how with
    | none => simpa using ih n s a (kinding.convertNone h)
    | some c =>
      obtain ⟨b, hb, hact⟩ := kinding.convertSome h
      simpa using (ih n s b hb).snoc (hact s)
  | unary op t operand ih =>
    obtain ⟨b, hb, hact⟩ := kinding.unary h
    simpa using (ih n s b hb).snoc (hact s)
  | binary op t left right ihl ihr =>
    obtain ⟨b, c, hb, hc, hact⟩ := kinding.binary h
    simpa using (ihl n s b hb).append ((ihr (left.next n) (b :: s) c hc).snoc (hact s))
  | choose t condition whenTrue whenFalse ihc iht ihf =>
    obtain ⟨⟨j, hj, hc⟩, ht, hf⟩ := kinding.choose h
    have hcle := (condition.tidy (n + 2)).grows
    have ttidy := whenTrue.tidy (condition.next (n + 2))
    have ftidy := whenFalse.tidy (whenTrue.next (condition.next (n + 2)))
    have htle := ttidy.grows
    rw [body_choose]
    refine leads_choice hj (ihc _ s _ hc) (iht _ s a ht) (ihf _ s a hf) (fun hmem => ?_)
      (fun hmem => ?_)
    · have hin := ttidy.within n hmem
      omega
    · have hin := ftidy.within (n + 1) hmem
      omega
  | logic condition ih =>
    obtain ⟨hpush, hk⟩ := kinding.logic h
    refine leads_logic n hpush fun e he m => ?_
    obtain ⟨ha, j, hj, hb⟩ := hk e he
    exact ⟨ih e he m s a ha, j, hj, ih e he m s j hb⟩
  | duplicate t => exact .act (kinding.duplicate h s rfl)
  | among operand tests ih iht =>
    obtain ⟨hpush, b, hb, ht⟩ := kinding.among h
    have hgrow := (operand.tidy (n + 2)).grows
    rw [body_among]
    refine leads_among (by omega) hpush (ih _ s b hb) fun e he m => ?_
    obtain ⟨j, hj, hk⟩ := ht e he
    exact ⟨j, hj, iht e he m (b :: s) j hk⟩
  | contains collection operand ihc ih =>
    obtain ⟨b, x, hb, hx, hact⟩ := kinding.contains h
    simpa using (ihc n s b hb).append ((ih (collection.next n) (b :: s) x hx).snoc (hact s))
  | owner t => exact .act (kinding.owner h s)
  | read m t receiver ih =>
    obtain ⟨b, hb, hact⟩ := kinding.read h
    simpa using (ih n s b hb).snoc (hact s)
  | call name fn spread t args ih =>
    obtain ⟨bs, hbs, hact⟩ := kinding.call h
    simpa using (leads_bodyAll ih hbs n).snoc (hact s)
  | invoke name signature spread t receiver args ih iha =>
    obtain ⟨b, bs, hb, hbs, hact⟩ := kinding.invoke h
    simpa using (ih n s b hb).append
      ((leads_bodyAll iha (s := b :: s) hbs (receiver.next n)).snoc (hact s))
  | variable_ name t => exact .act (kinding.load h s)
  | demand name t args ih =>
    obtain ⟨bs, hbs, hact⟩ := kinding.demand h
    simpa using (leads_bodyAll ih hbs n).snoc (hact s)
  | index t receiver position ihr ihp =>
    obtain ⟨b, c, hb, hc, hact⟩ := kinding.index h
    simpa using (ihr n s b hb).append ((ihp (receiver.next n) (b :: s) c hc).snoc (hact s))

/-- The program of an element that has a kind has a table of layouts, which ends with this kind
alone. -/
theorem charted (kinding : Kinding d kind) {e : Element} {a : α} (h : kind none e a) :
    ∃ layout : Nat → List α, (assembled (e.body 0)).Charted d layout ∧ layout 0 = [] ∧
      layout (assembled (e.body 0)).size = [a] := by
  obtain ⟨c, lc, fc, sc⟩ := leads kinding e 0 [] a h
  have htable := fc.charted (lc ▸ (e.tidy 0).forward)
  rw [lc] at htable
  refine ⟨c.layout [a], htable, ?_, ?_⟩
  · rw [Chart.layout_zero fc, sc]
  · have hend := Chart.layout_append (o := [a]) c [] 0
    rw [assembled_size, ← lc]
    simpa [Chart.layout] using hend

end Kinding

end Element

end Formulary
