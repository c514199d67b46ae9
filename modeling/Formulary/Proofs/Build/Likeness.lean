import Formulary.Proofs.Build.Resolution
import Formulary.Proofs.Grammar.Growth

/-!
# Like walks

Two resolutions that treat alike what a map of elements makes alike build alike elements from like
trees. Trees are alike if they differ at most in the places of their nodes and tokens: places only
say where a walk fails.
-/

namespace Formulary

section Outcomes

variable {ε δ α α' β β' : Type} {x : Except ε α} {x' : Except δ α'} {φ : α → α'} {ψ : β → β'}

theorem toOption_eq_some {a : α} : x.toOption = some a ↔ x = .ok a := by
  cases x <;> simp [Except.toOption]

/-- Like outcomes stay alike if both go on alike. -/
theorem toOption_bind_like (h : x'.toOption = x.toOption.map φ) {g : α → Except ε β}
    {g' : α' → Except δ β'} (hg : ∀ a, (g' (φ a)).toOption = (g a).toOption.map ψ) :
    (x' >>= g').toOption = (x >>= g).toOption.map ψ := by
  cases x with
  | error e =>
    cases x' with
    | error e' => rfl
    | ok a' => cases h
  | ok a =>
    cases x' with
    | error e' => cases h
    | ok a' =>
      cases h
      exact hg a

theorem toOption_map_like (h : x'.toOption = x.toOption.map φ) {g : α → β} {g' : α' → β'}
    (hg : ∀ a, g' (φ a) = ψ (g a)) : (x'.map g').toOption = (x.map g).toOption.map ψ := by
  cases x with
  | error e =>
    cases x' with
    | error e' => rfl
    | ok a' => cases h
  | ok a =>
    cases x' with
    | error e' => cases h
    | ok a' =>
      cases h
      exact congrArg some (hg a)

end Outcomes

namespace Build

open Grammar (Form Tree)
open Lexical (Kind Place Token)

section Images

variable (φ : Element → Element) (f : Place → Place)

/-- A name with its arguments mapped. -/
def Reference.image (r : Reference) : Reference := ⟨r.name, r.args.map (List.map φ)⟩

/-- What a chain stands for, with its element mapped. -/
def Subject.image : Subject → Subject
  | .value e => .value (φ e)
  | .scope path members => .scope path members
  | .type path => .type path

/-- What a node is built to, with its elements mapped and its token moved. -/
def Attribute.image : Attribute → Attribute
  | .token t => .token { t with place := f t.place }
  | .value e => .value (φ e)
  | .arguments es => .arguments (es.map φ)
  | .list es => .list (es.map φ)
  | .name r => .name (r.image φ)
  | .member r => .member (r.image φ)
  | .index es => .index (es.map φ)
  | .type t => .type t

/-- A part with its elements mapped and its place moved. -/
def Part.image (p : Part) : Part := ⟨f p.place, p.built.image φ f⟩

structure Resolution.Mirrors (r r' : Resolution) : Prop where
  literal : ∀ t, (r'.literal { t with place := f t.place }).toOption = (r.literal t).toOption.map φ
  logical : ∀ op x y, (r'.logical op (φ x) (φ y)).toOption = (r.logical op x y).toOption.map φ
  negation : ∀ x, (r'.negation (φ x)).toOption = (r.negation x).toOption.map φ
  amongList : ∀ x items, (r'.amongList (φ x) (items.map φ)).toOption =
    (r.amongList x items).toOption.map φ
  amongCollection : ∀ x c, (r'.amongCollection (φ x) (φ c)).toOption =
    (r.amongCollection x c).toOption.map φ
  shift : ∀ left x y, (r'.shift left (φ x) (φ y)).toOption = (r.shift left x y).toOption.map φ
  compare : ∀ op x y, (r'.compare op (φ x) (φ y)).toOption = (r.compare op x y).toOption.map φ
  arithmetic : ∀ op x y, (r'.arithmetic op (φ x) (φ y)).toOption =
    (r.arithmetic op x y).toOption.map φ
  minus : ∀ x, (r'.minus (φ x)).toOption = (r.minus x).toOption.map φ
  choice : ∀ c x y, (r'.choice (φ c) (φ x) (φ y)).toOption = (r.choice c x y).toOption.map φ
  cast : ∀ x t, (r'.cast (φ x) t).toOption = (r.cast x t).toOption.map φ
  type : ∀ path, (r'.type path).toOption = (r.type path).toOption
  first : ∀ x, (r'.first (x.image φ)).toOption = (r.first x).toOption.map (Subject.image φ)
  next : ∀ s x, (r'.next (s.image φ) (x.image φ)).toOption =
    (r.next s x).toOption.map (Subject.image φ)
  index : ∀ s es, (r'.index (s.image φ) (es.map φ)).toOption =
    (r.index s es).toOption.map (Subject.image φ)
  settle : ∀ s, (r'.settle (s.image φ)).toOption = (r.settle s).toOption.map φ

theorem Part.isBuilt_image (p : Part) : (p.image φ f).isBuilt = p.isBuilt := by
  obtain ⟨place, built⟩ := p
  cases built <;> rfl

theorem filter_isBuilt_image (parts : List Part) :
    (parts.map (Part.image φ f)).filter Part.isBuilt =
      (parts.filter Part.isBuilt).map (Part.image φ f) := by
  rw [List.filter_map]
  congr 1
  exact List.filter_congr fun p _ => Part.isBuilt_image φ f p

end Images

section Walks

variable {α : Type}

@[simp] theorem toOption_answered (x : Except Failure α) : (answered x).toOption = x.toOption := by
  cases x <;> rfl

@[simp] theorem toOption_lapsed (l : Lapse) : (lapsed l : Except Halt α).toOption = none := rfl

@[simp] theorem toOption_haltedAt (position : Nat) (x : Except Halt α) :
    (haltedAt position x).toOption = x.toOption := by
  cases x <;> rfl

theorem toOption_outcome (x : Except Halt α) : (outcome x).toOption = x.toOption := by
  cases x <;> rfl

end Walks

namespace Resolution.Mirrors

variable {φ : Element → Element} {f : Place → Place} {r r' : Resolution}

theorem answered_image {x x' : Except Failure Element} (h : x'.toOption = x.toOption.map φ) :
    (answered x').toOption = (answered x).toOption.map φ := by
  rwa [toOption_answered, toOption_answered]

theorem valueOf_image (p : Part) : (valueOf (p.image φ f)).toOption =
    (valueOf p).toOption.map φ := by
  obtain ⟨place, built⟩ := p
  cases built <;> rfl

/-- A chain of operators, folded from the left. -/
theorem fold_image {apply apply' : Kind → Element → Element → Except Failure Element}
    (h : ∀ k x y, (apply' k (φ x) (φ y)).toOption = (apply k x y).toOption.map φ) (acc : Element)
    (parts : List Part) :
    (Resolution.fold apply' (φ acc) (parts.map (Part.image φ f))).toOption =
      (Resolution.fold apply acc parts).toOption.map φ := by
  fun_induction Resolution.fold apply acc parts with
  | case1 acc op operand rest t ht ih =>
    obtain ⟨place, built⟩ := op
    cases ht
    refine toOption_bind_like (valueOf_image operand) fun y => ?_
    have happly : (haltedAt (f place).offset (answered (apply' t.kind (φ acc) (φ y)))).toOption =
        (haltedAt place.offset (answered (apply t.kind acc y))).toOption.map φ := by
      simpa using h t.kind acc y
    exact toOption_bind_like happly fun acc => ih acc
  | case2 acc op operand rest hbuilt =>
    obtain ⟨place, built⟩ := op
    cases built with
    | token t => exact absurd rfl (hbuilt t)
    | _ => rfl
  | case3 parts acc hshort =>
    rcases parts with _ | ⟨p, _ | ⟨q, rest⟩⟩
    · rfl
    · rfl
    · exact absurd rfl (hshort p q rest)

theorem operatorChain_image {apply apply' : Kind → Element → Element → Except Failure Element}
    (h : ∀ k x y, (apply' k (φ x) (φ y)).toOption = (apply k x y).toOption.map φ)
    (parts : List Part) :
    (Resolution.operatorChain apply' (parts.map (Part.image φ f))).toOption =
      (Resolution.operatorChain apply parts).toOption.map (Attribute.image φ f) := by
  cases parts with
  | nil => rfl
  | cons p rest =>
    exact toOption_bind_like (valueOf_image p) fun acc =>
      toOption_map_like (fold_image h acc rest) fun _ => rfl

theorem firstLink_image (h : r.Mirrors φ f r') (a : Attribute) :
    (r'.firstLink (a.image φ f)).toOption = (r.firstLink a).toOption.map (Subject.image φ) := by
  cases a with
  | token t =>
    simp only [Attribute.image, firstLink]
    split
    · have hliteral : (answered (r'.literal { t with place := f t.place })).toOption =
          (answered (r.literal t)).toOption.map φ := by
        simpa using h.literal t
      exact toOption_map_like hliteral fun _ => rfl
    · rfl
  | name x =>
    have := h.first x
    simpa [Attribute.image, firstLink] using this
  | _ => rfl

theorem nextLink_image (h : r.Mirrors φ f r') (subject : Subject) (a : Attribute) :
    (r'.nextLink (subject.image φ) (a.image φ f)).toOption =
      (r.nextLink subject a).toOption.map (Subject.image φ) := by
  cases a with
  | member x =>
    have := h.next subject x
    simpa [Attribute.image, nextLink] using this
  | index es =>
    have := h.index subject es
    simpa [Attribute.image, nextLink] using this
  | _ => rfl

theorem laterLinks_image (h : r.Mirrors φ f r') (subject : Subject) (parts : List Part) :
    (r'.laterLinks (subject.image φ) (parts.map (Part.image φ f))).toOption =
      (r.laterLinks subject parts).toOption.map (Subject.image φ) := by
  induction parts generalizing subject with
  | nil => rfl
  | cons p parts ih =>
    have hlink : (haltedAt (f p.place).offset
      (r'.nextLink (subject.image φ) (p.built.image φ f))).toOption =
        (haltedAt p.place.offset (r.nextLink subject p.built)).toOption.map (Subject.image φ) := by
      simpa using h.nextLink_image subject p.built
    exact toOption_bind_like hlink fun subject => ih subject

theorem linkChain_image (h : r.Mirrors φ f r') (parts : List Part) :
    (r'.linkChain (parts.map (Part.image φ f))).toOption =
      (r.linkChain parts).toOption.map (Attribute.image φ f) := by
  cases parts with
  | nil => rfl
  | cons p parts =>
    have hlink : (haltedAt (f p.place).offset (r'.firstLink (p.built.image φ f))).toOption =
        (haltedAt p.place.offset (r.firstLink p.built)).toOption.map (Subject.image φ) := by
      simpa using h.firstLink_image p.built
    refine toOption_bind_like hlink fun subject =>
      toOption_bind_like (h.laterLinks_image subject parts) fun subject => ?_
    have hsettle : (answered (r'.settle (subject.image φ))).toOption =
        (answered (r.settle subject)).toOption.map φ := by
      simpa using h.settle subject
    exact toOption_map_like hsettle fun _ => rfl

theorem castType_image (h : r.Mirrors φ f r') (parts : List Part) :
    (r'.castType (parts.map (Part.image φ f))).toOption =
      (r.castType parts).toOption.map (Attribute.image φ f) := by
  have htokens : (parts.map (Part.image φ f)).filterMap tokenOf =
      (parts.filterMap tokenOf).map fun t => { t with place := f t.place } := by
    rw [List.filterMap_map, List.map_filterMap]
    congr 1
    funext p
    obtain ⟨place, built⟩ := p
    cases built <;> rfl
  simp only [castType, htokens, List.filter_map, List.map_map, List.any_map, Function.comp_def]
  generalize parts.filterMap tokenOf = tokens
  have htype : ∀ path, (answered (r'.type path)).toOption =
      (answered (r.type path)).toOption.map id := by
    intro path
    simpa using h.type path
  exact toOption_map_like (htype _) fun _ => rfl

theorem membership_image (h : r.Mirrors φ f r') (operand : Element) (a : Attribute) :
    (r'.membership (φ operand) (a.image φ f)).toOption =
      (r.membership operand a).toOption.map φ := by
  cases a with
  | list items =>
    have := h.amongList operand items
    simpa [Attribute.image, membership] using this
  | value c =>
    have := h.amongCollection operand c
    simpa [Attribute.image, membership] using this
  | _ => rfl

theorem mapM_valueOf_image (parts : List Part) :
    ((parts.map (Part.image φ f)).mapM valueOf).toOption =
      (parts.mapM valueOf).toOption.map (List.map φ) := by
  induction parts with
  | nil => rfl
  | cons p parts ih =>
    rw [List.map_cons, List.mapM_cons, List.mapM_cons]
    exact toOption_bind_like (valueOf_image p) fun e => toOption_bind_like ih fun es => rfl

/-- Like children make like nodes. -/
theorem combine_image (h : r.Mirrors φ f r') (form : Form) (name : String) (parts : List Part) :
    (r'.combine form name (parts.map (Part.image φ f))).toOption =
      (r.combine form name parts).toOption.map (Attribute.image φ f) := by
  cases form with
  | expression | paren =>
    simp only [combine, filter_isBuilt_image]
    cases parts.filter Part.isBuilt <;> rfl
  | xor | or | and => exact operatorChain_image (fun k x y => h.logical _ x y) parts
  | shift => exact operatorChain_image (fun k x y => h.shift _ x y) parts
  | compare => exact operatorChain_image (fun k x y => h.compare _ x y) parts
  | sum | product | power => exact operatorChain_image (fun k x y => h.arithmetic _ x y) parts
  | collection | chain => exact h.linkChain_image parts
  | castType => exact h.castType_image parts
  | not =>
    rcases parts with _ | ⟨⟨place, built⟩, rest⟩
    · rfl
    · cases built with
      | token t =>
        simp only [List.map_cons, Part.image, Attribute.image, combine]
        cases rest with
        | nil => cases t.kind <;> rfl
        | cons p rest =>
          cases t.kind with
          | not =>
            refine toOption_bind_like (valueOf_image p) fun e => ?_
            exact toOption_map_like (answered_image (h.negation e)) fun _ => rfl
          | _ => rfl
      | _ => rfl
  | among =>
    rcases parts with _ | ⟨p, _ | ⟨q, _ | ⟨target, rest⟩⟩⟩
    · rfl
    · rfl
    · rfl
    · refine toOption_bind_like (valueOf_image p) fun e => ?_
      exact toOption_map_like (h.membership_image e target.built) fun _ => rfl
  | list =>
    rcases parts with _ | ⟨p, _ | ⟨⟨place, built⟩, rest⟩⟩
    · rfl
    · rfl
    · cases built <;> rfl
  | negate =>
    rcases parts with _ | ⟨⟨place, built⟩, rest⟩
    · rfl
    · cases built with
      | token t =>
        simp only [List.map_cons, Part.image, Attribute.image, combine]
        cases rest with
        | nil => cases t.kind <;> rfl
        | cons p rest =>
          cases t.kind with
          | minus =>
            refine toOption_bind_like (valueOf_image p) fun e => ?_
            exact toOption_map_like (answered_image (h.minus e)) fun _ => rfl
          | _ => rfl
      | _ => rfl
  | choice =>
    simp only [combine, filter_isBuilt_image]
    rcases parts.filter Part.isBuilt with _ | ⟨c, _ | ⟨x, _ | ⟨y, rest⟩⟩⟩
    · rfl
    · rfl
    · rfl
    · refine toOption_bind_like (valueOf_image c) fun c =>
        toOption_bind_like (valueOf_image x) fun x =>
        toOption_bind_like (valueOf_image y) fun y => ?_
      exact toOption_map_like (answered_image (h.choice c x y)) fun _ => rfl
  | cast =>
    simp only [combine, filter_isBuilt_image]
    rcases parts.filter Part.isBuilt with _ | ⟨p, _ | ⟨⟨place, built⟩, rest⟩⟩
    · rfl
    · rfl
    · cases built with
      | type t =>
        refine toOption_bind_like (valueOf_image p) fun e => ?_
        exact toOption_map_like (answered_image (h.cast e t)) fun _ => rfl
      | _ => rfl
  | name =>
    rcases parts with _ | ⟨⟨place, built⟩, _ | ⟨⟨place', built'⟩, rest⟩⟩
    · rfl
    · cases built <;> rfl
    · cases built with
      | token t => cases built' <;> rfl
      | _ => rfl
  | arguments =>
    rcases parts with _ | ⟨p, _ | ⟨⟨place, built⟩, _ | ⟨q, _ | ⟨q', rest⟩⟩⟩⟩
    · rfl
    · rfl
    · cases built <;> rfl
    · cases built <;> rfl
    · cases built <;> rfl
  | argumentList =>
    simp only [combine, filter_isBuilt_image]
    exact toOption_map_like (mapM_valueOf_image _) fun _ => rfl
  | member =>
    rcases parts with _ | ⟨p, _ | ⟨⟨place, built⟩, rest⟩⟩
    · rfl
    · rfl
    · cases built <;> rfl
  | index =>
    rcases parts with _ | ⟨p, _ | ⟨⟨place, built⟩, rest⟩⟩
    · rfl
    · rfl
    · cases built <;> rfl
  | _ => rfl

mutual

theorem build_image (h : r.Mirrors φ f r') (t : Tree) :
    (r'.build (t.moved f)).toOption = (r.build t).toOption.map (Attribute.image φ f) := by
  cases t with
  | leaf t => rfl
  | node rule name place children =>
    refine toOption_bind_like (h.buildAll_image children) fun parts => ?_
    simp only [toOption_haltedAt]
    cases Form.ofNumber? rule with
    | none => rfl
    | some form => exact h.combine_image form name parts

theorem buildAll_image (h : r.Mirrors φ f r') (ts : List Tree) :
    (r'.buildAll (Tree.movedAll f ts)).toOption =
      (r.buildAll ts).toOption.map (List.map (Part.image φ f)) := by
  cases ts with
  | nil => rfl
  | cons t ts =>
    refine toOption_bind_like (h.build_image t) fun a =>
      toOption_bind_like (h.buildAll_image ts) fun parts => ?_
    rw [Tree.place_moved]
    rfl

end

/-- Like trees have like elements. -/
theorem element_image (h : r.Mirrors φ f r') (t : Tree) :
    (r'.element (t.moved f)).toOption = (r.element t).toOption.map φ := by
  refine toOption_bind_like (h.build_image t) fun a => ?_
  cases a <;> rfl

end Resolution.Mirrors

end Build

end Formulary
