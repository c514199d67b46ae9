import Formulary.Build.Tree

/-!
# Building keeps properties of elements

Whatever holds of the elements of names and literals and is kept by the operators, calls, members
and indexes of a scope holds of the element of every tree.
-/

namespace Formulary

theorem bind_eq_ok {ε α β : Type} {x : Except ε α} {f : α → Except ε β} {b : β} :
    (x >>= f) = .ok b ↔ ∃ a, x = .ok a ∧ f a = .ok b := by
  cases x with
  | ok a => exact ⟨fun h => ⟨a, rfl, h⟩, fun ⟨_, h, hf⟩ => by cases h; exact hf⟩
  | error e => exact ⟨nofun, fun ⟨_, h, _⟩ => nomatch h⟩

theorem map_eq_ok {ε α β : Type} {x : Except ε α} {f : α → β} {b : β} :
    x.map f = .ok b ↔ ∃ a, x = .ok a ∧ f a = b := by
  cases x with
  | ok a => simp [Except.map]
  | error e => simp [Except.map]

theorem mapError_eq_ok {ε δ α : Type} {x : Except ε α} {f : ε → δ} {a : α} :
    x.mapError f = .ok a ↔ x = .ok a := by
  cases x with
  | ok b =>
    show (Except.ok b : Except δ α) = .ok a ↔ _
    simp
  | error e => constructor <;> intro h <;> cases h

theorem exists_ok_iff_isOk {ε α : Type} {r : Except ε α} : (∃ a, r = .ok a) ↔ r.isOk = true := by
  cases r with
  | error e => simp [Except.isOk, Except.toBool]
  | ok a => simp [Except.isOk, Except.toBool]

theorem isSome_toOption {ε α : Type} {r : Except ε α} : r.toOption.isSome = r.isOk := by
  cases r <;> rfl

theorem exists_ok_of_any {ε α : Type} {r : Except ε α} {p : α → Bool}
    (h : r.toOption.any p = true) :
    ∃ a, r = .ok a ∧ p a = true := by
  cases r with
  | error e => cases h
  | ok a => exact ⟨a, rfl, h⟩

theorem placedAt_eq_ok {α : Type} {position : Nat} {r : Except Failure α} {a : α} :
    placedAt position r = .ok a ↔ r = .ok a := mapError_eq_ok

namespace Build

/-- A property of the token or of the elements within what a node is built to. -/
def Attribute.Holds (T : Lexical.Token → Prop) (P : Element → Prop) : Attribute → Prop
  | .token t => T t
  | .type _ => True
  | .value e => P e
  | .arguments es | .list es | .index es => ∀ e ∈ es, P e
  | .name r | .member r => ∀ args, r.args = some args → ∀ e ∈ args, P e

/-- A property of the element a chain stands for, and one of the members of a namespace it stands
for. -/
def Subject.Holds (P : Element → Prop) (Q : List Member → Prop) : Subject → Prop
  | .value e => P e
  | .scope _ members => Q members
  | .type _ => True

structure Kept (s : Scope) (T : Lexical.Token → Prop) (P : Element → Prop)
    (Q : List Member → Prop) : Prop where
  literal : ∀ {t e}, T t → literal s.options t = .ok e → P e
  logical : ∀ {op l r e}, P l → P r → logical s op l r = .ok e → P e
  negation : ∀ {x e}, P x → negation s x = .ok e → P e
  amongList : ∀ {x items e}, P x → (∀ i ∈ items, P i) → amongList s x items = .ok e → P e
  amongCollection : ∀ {x c e}, P x → P c → amongCollection s x c = .ok e → P e
  shift : ∀ {left l r e}, P l → P r → shift s left l r = .ok e → P e
  compare : ∀ {op l r e}, P l → P r → compare s op l r = .ok e → P e
  arithmetic : ∀ {op l r e}, P l → P r → arithmetic s op l r = .ok e → P e
  minus : ∀ {x e}, P x → minus s x = .ok e → P e
  choice : ∀ {c x y e}, P c → P x → P y → choice s c x y = .ok e → P e
  cast : ∀ {x t e}, P x → cast s x t = .ok e → P e
  first : ∀ {r subject}, (∀ args, r.args = some args → ∀ e ∈ args, P e) → first s r = .ok subject →
    subject.Holds P Q
  next : ∀ {subject r subject'}, subject.Holds P Q →
    (∀ args, r.args = some args → ∀ e ∈ args, P e) →
    next s subject r = .ok subject' → subject'.Holds P Q
  indexOne : ∀ {x i e}, P x → P i → indexOne s x i = .ok e → P e

section Kept

variable {s : Scope} {T : Lexical.Token → Prop} {P : Element → Prop} {Q : List Member → Prop}

theorem Part.element_holds {p : Part} {e : Element} (hp : p.built.Holds T P)
    (h : p.element = .ok e) : P e := by
  obtain ⟨place, built⟩ := p
  cases built with
  | value x =>
    cases h
    exact hp
  | _ => cases h

/-- A chain of operators of one level, folded from the left. -/
theorem fold_holds {apply : Lexical.Kind → Element → Element → Except Failure Element}
    (keep : ∀ {k l r e}, P l → P r → apply k l r = .ok e → P e) {parts : List Part}
    (hp : ∀ p ∈ parts, p.built.Holds T P)
    {acc e : Element} (hacc : P acc) (h : fold apply acc parts = .ok e) : P e := by
  fun_induction fold apply acc parts with
  | case1 acc op operand rest t ht ih =>
    obtain ⟨r, hr, h⟩ := bind_eq_ok.1 h
    obtain ⟨a, ha, h⟩ := bind_eq_ok.1 h
    have hr : P r := Part.element_holds (hp operand (by simp)) hr
    exact ih a (fun p hm => hp p (by simp [hm])) (keep hacc hr (placedAt_eq_ok.1 ha)) h
  | case2 => cases h
  | case3 => cases h; exact hacc

theorem operatorChain_holds {apply : Lexical.Kind → Element → Element → Except Failure Element}
    (keep : ∀ {k l r e}, P l → P r → apply k l r = .ok e → P e) {parts : List Part}
    (hp : ∀ p ∈ parts, p.built.Holds T P)
    {a : Attribute} (h : operatorChain apply parts = .ok a) : a.Holds T P := by
  cases parts with
  | nil => cases h
  | cons p rest =>
    obtain ⟨acc, hacc, h⟩ := bind_eq_ok.1 h
    obtain ⟨e, he, rfl⟩ := map_eq_ok.1 h
    exact fold_holds keep (fun q hq => hp q (List.mem_cons_of_mem _ hq))
      (Part.element_holds (hp p List.mem_cons_self) hacc) he

theorem foldlM_indexOne_holds (kept : Kept s T P Q) {positions : List Element}
    (hp : ∀ e ∈ positions, P e) {x e : Element}
    (hx : P x) (h : positions.foldlM (indexOne s) x = .ok e) : P e := by
  induction positions generalizing x with
  | nil =>
    cases h
    exact hx
  | cons i positions ih =>
    rw [List.foldlM_cons] at h
    obtain ⟨y, hy, h⟩ := bind_eq_ok.1 h
    exact ih (fun e he => hp e (List.mem_cons_of_mem _ he))
      (kept.indexOne hx (hp i List.mem_cons_self) hy) h

theorem firstLink_holds (kept : Kept s T P Q) {a : Attribute} (ha : a.Holds T P) {subject : Subject}
    (h : firstLink s a = .ok subject) : subject.Holds P Q := by
  cases a with
  | token t =>
    obtain ⟨e, he, rfl⟩ := map_eq_ok.1 h
    exact kept.literal ha he
  | name r => exact kept.first ha h
  | value e =>
    cases h
    exact ha
  | _ => cases h

theorem nextLink_holds (kept : Kept s T P Q) {subject : Subject} (hs : subject.Holds P Q)
    {a : Attribute} (ha : a.Holds T P)
    {subject' : Subject} (h : nextLink s subject a = .ok subject') : subject'.Holds P Q := by
  cases a with
  | member r => exact kept.next hs ha h
  | index es =>
    cases subject with
    | value e =>
      obtain ⟨x, hx, rfl⟩ := map_eq_ok.1 h
      exact foldlM_indexOne_holds kept ha hs hx
    | scope path members =>
      simp only [nextLink, index] at h
      split at h
      · cases h
        exact hs
      · cases h
    | type path =>
      simp only [nextLink, index] at h
      split at h
      · cases h
        exact hs
      · cases h
  | _ => cases h

theorem laterLinks_holds (kept : Kept s T P Q) {parts : List Part}
    (hp : ∀ p ∈ parts, p.built.Holds T P) {subject subject' : Subject} (hs : subject.Holds P Q)
    (h : laterLinks s subject parts = .ok subject') :
    subject'.Holds P Q := by
  induction parts generalizing subject with
  | nil =>
    cases h
    exact hs
  | cons p parts ih =>
    obtain ⟨next, hnext, h⟩ := bind_eq_ok.1 h
    have hn := nextLink_holds kept hs (hp p List.mem_cons_self) (placedAt_eq_ok.1 hnext)
    exact ih (fun q hq => hp q (List.mem_cons_of_mem _ hq)) hn h

theorem linkChain_holds (kept : Kept s T P Q) {parts : List Part}
    (hp : ∀ p ∈ parts, p.built.Holds T P) {a : Attribute}
    (h : linkChain s parts = .ok a) : a.Holds T P := by
  cases parts with
  | nil => cases h
  | cons p parts =>
    obtain ⟨subject, hsubject, h⟩ := bind_eq_ok.1 h
    obtain ⟨last, hlast, h⟩ := bind_eq_ok.1 h
    obtain ⟨e, he, rfl⟩ := map_eq_ok.1 h
    have hfirst := firstLink_holds kept (hp p List.mem_cons_self) (placedAt_eq_ok.1 hsubject)
    have hall := laterLinks_holds kept (fun q hq => hp q (List.mem_cons_of_mem _ hq)) hfirst hlast
    cases last with
    | value x =>
      cases he
      exact hall
    | scope path members => cases he
    | type path => cases he

theorem mapM_element_holds {parts : List Part} (hp : ∀ p ∈ parts, p.built.Holds T P)
    {es : List Element}
    (h : parts.mapM Part.element = .ok es) : ∀ e ∈ es, P e := by
  induction parts generalizing es with
  | nil =>
    cases h
    exact fun e he => nomatch he
  | cons p parts ih =>
    rw [List.mapM_cons] at h
    obtain ⟨e, he, h⟩ := bind_eq_ok.1 h
    obtain ⟨rest, hrest, h⟩ := bind_eq_ok.1 h
    cases h
    intro x hx
    rcases List.mem_cons.1 hx with rfl | hx
    · exact Part.element_holds (hp p List.mem_cons_self) he
    · exact ih (fun q hq => hp q (List.mem_cons_of_mem _ hq)) hrest x hx

/-- A node keeps what holds of its children. -/
theorem combine_holds (kept : Kept s T P Q) {form : Grammar.Form} {name : String}
    {parts : List Part}
    (hp : ∀ p ∈ parts, p.built.Holds T P) {a : Attribute} (h : combine s form name parts = .ok a) :
    a.Holds T P := by
  have hfilter : ∀ p ∈ parts.filter Part.isBuilt, p.built.Holds T P := fun p hm =>
    hp p (List.mem_filter.1 hm).1
  have hbuilt : ∀ {q : Part}, q ∈ parts → (.ok q.built : Except Failure Attribute) = .ok a →
      a.Holds T P := by
    intro q hq he
    cases he
    exact hp q hq
  unfold combine at h
  split at h
  -- The cases follow the table of forms: a node stands for its only part, or applies what its form
  -- says.
  case h_1 | h_2 =>
    split at h
    · rename_i q rest hq
      cases h
      exact hfilter q (hq ▸ List.mem_cons_self)
    · cases h
  case h_3 | h_4 | h_5 => exact operatorChain_holds kept.logical hp h
  case h_6 =>
    split at h
    · rename_i q rest _
      obtain ⟨e, he, h⟩ := bind_eq_ok.1 h
      obtain ⟨x, hx, rfl⟩ := map_eq_ok.1 h
      exact kept.negation (Part.element_holds (hp q (by simp)) he) hx
    · cases h
  case h_7 | h_8 | h_19 => exact hbuilt (by simp) h
  case h_9 p _ target _ =>
    obtain ⟨e, he, h⟩ := bind_eq_ok.1 h
    obtain ⟨x, hx, rfl⟩ := map_eq_ok.1 h
    have hoperand := Part.element_holds (hp p (by simp)) he
    have htarget := hp target (by simp)
    unfold membership at hx
    split at hx
    · rename_i items hitems
      rw [hitems] at htarget
      exact kept.amongList hoperand htarget hx
    · rename_i collection hcollection
      rw [hcollection] at htarget
      exact kept.amongCollection hoperand htarget hx
    · cases hx
  case h_10 _ p _ | h_27 _ p _ =>
    have hq := hp p (by simp)
    split at h
    · rename_i es hes
      cases h
      rw [hes] at hq
      exact hq
    · cases h
  case h_11 | h_12 => exact linkChain_holds kept hp h
  case h_13 => exact operatorChain_holds kept.shift hp h
  case h_14 => exact operatorChain_holds kept.compare hp h
  case h_15 | h_16 | h_17 => exact operatorChain_holds kept.arithmetic hp h
  case h_18 =>
    split at h
    · rename_i q rest _
      obtain ⟨e, he, h⟩ := bind_eq_ok.1 h
      obtain ⟨x, hx, rfl⟩ := map_eq_ok.1 h
      exact kept.minus (Part.element_holds (hp q (by simp)) he) hx
    · cases h
  case h_20 =>
    split at h
    · rename_i c x y rest hparts
      rw [hparts] at hfilter
      obtain ⟨ec, hc, h⟩ := bind_eq_ok.1 h
      obtain ⟨ex, hx, h⟩ := bind_eq_ok.1 h
      obtain ⟨ey, hy, h⟩ := bind_eq_ok.1 h
      obtain ⟨e, he, rfl⟩ := map_eq_ok.1 h
      exact kept.choice (Part.element_holds (hfilter c (by simp)) hc)
        (Part.element_holds (hfilter x (by simp)) hx)
        (Part.element_holds (hfilter y (by simp)) hy) he
    · cases h
  case h_21 =>
    split at h
    · rename_i q place t rest hparts
      rw [hparts] at hfilter
      obtain ⟨x, hx, h⟩ := bind_eq_ok.1 h
      obtain ⟨e, he, rfl⟩ := map_eq_ok.1 h
      exact kept.cast (Part.element_holds (hfilter q (by simp)) hx) he
    · cases h
  case h_22 =>
    simp only [castType] at h
    split at h
    · cases h
      trivial
    · cases h
  case h_23 =>
    split at h
    · cases h
      exact fun args hargs => nomatch hargs
    · rename_i place es rest
      cases h
      intro args hargs
      cases hargs
      exact hp ⟨place, .arguments es⟩ (by simp)
    · cases h
  case h_24 =>
    split at h
    · rename_i open_ place es close
      cases h
      exact hp ⟨place, .arguments es⟩ (by simp)
    · cases h
    · cases h
      exact fun e he => nomatch he
  case h_25 =>
    obtain ⟨es, hes, h⟩ := bind_eq_ok.1 h
    cases h
    exact mapM_element_holds hfilter hes
  case h_26 _ p _ =>
    have hq := hp p (by simp)
    split at h
    · rename_i r hr
      cases h
      rw [hr] at hq
      exact hq
    · cases h
  all_goals cases h

mutual

/-- What holds of names and literals and is kept holds of what a tree is built to. -/
theorem build_holds (kept : Kept s T P Q) (t : Grammar.Tree)
    (ht : ∀ x ∈ t.leaves, T x) {a : Attribute}
    (h : build s t = .ok a) : a.Holds T P := by
  cases t with
  | leaf token =>
    cases h
    exact ht token (by simp [Grammar.Tree.leaves])
  | node rule name place children =>
    obtain ⟨parts, hparts, h⟩ := bind_eq_ok.1 h
    have h := placedAt_eq_ok.1 h
    split at h
    · exact combine_holds kept (buildAll_holds kept children ht hparts) h
    · cases h

theorem buildAll_holds (kept : Kept s T P Q) (ts : List Grammar.Tree)
    (ht : ∀ x ∈ Grammar.Tree.leavesOf ts, T x)
    {parts : List Part} (h : buildAll s ts = .ok parts) : ∀ p ∈ parts, p.built.Holds T P := by
  cases ts with
  | nil =>
    cases h
    exact fun p hp => nomatch hp
  | cons t ts =>
    obtain ⟨a, ha, h⟩ := bind_eq_ok.1 h
    obtain ⟨rest, hrest, h⟩ := bind_eq_ok.1 h
    cases h
    rw [Grammar.Tree.leavesOf] at ht
    intro p hp
    rcases List.mem_cons.1 hp with rfl | hp
    · exact build_holds kept t (fun x hx => ht x (List.mem_append_left _ hx)) ha
    · exact buildAll_holds kept ts (fun x hx => ht x (List.mem_append_right _ hx)) hrest p hp

end

/-- What holds of names and literals and is kept holds of the element of a tree. -/
theorem element_holds (kept : Kept s T P Q) {t : Grammar.Tree}
    (ht : ∀ x ∈ t.leaves, T x) {e : Element}
    (h : element s t = .ok e) : P e := by
  obtain ⟨a, ha, h⟩ := bind_eq_ok.1 h
  have hold := build_holds kept t ht ha
  cases a with
  | value x =>
    cases h
    exact hold
  | _ => cases h

end Kept

end Build

end Formulary
