import Formulary.Proofs.Build.Named
import Formulary.Proofs.Build.Negated
import Formulary.Proofs.Session.Exactness

/-!
# Access to members

Fields and properties that an expression reads and methods that it calls are members that it may
use: under the access to the owner where they are members of the owner's type, and under open access
everywhere else, however long the chain of names is that leads to them.
-/

namespace Formulary

open Machine

/-- A member of a type that may be used, given the type of the owner and the access to it. -/
structure Member.Granted (host : Host) (owner : Option Ty) (access : Access) (t : Ty)
    (m : Member) : Prop where
  member : m ∈ host.members t
  owned : owner = some t → m.isAccessible access = true
  foreign : owner ≠ some t → m.isAccessible .open = true

/-- A member that may be used is not denied. -/
theorem Member.Granted.tag {host : Host} {owner : Option Ty} {access : Access} {t : Ty} {m : Member}
    (h : m.Granted host owner access t) : m.tag ≠ .deny := by
  have hnot : ∀ a : Access, m.isAccessible a = true → m.tag ≠ .deny := by
    intro a ha htag
    rw [isAccessible, htag] at ha
    cases ha
  by_cases howner : owner = some t
  · exact hnot access (h.owned howner)
  · exact hnot .open (h.foreign howner)

/-- An element that reads or calls, if it reads or calls anything itself, a member that may be
used. -/
def Element.Granted (host : Host) (owner : Option Ty) (access : Access) : Element → Prop
  | .read m _ r => m.Granted host owner access r.type
  | .invoke name signature _ _ r _ =>
    (Member.method name signature).Granted host owner access r.type
  | _ => True

namespace Build

theorem granted_of_accessible {s : Scope} {t : Ty} {m : Member} (hm : m ∈ s.host.members t)
    (h : m.isAccessible (accessTo s t) = true) :
    m.Granted s.host s.ownerType s.options.ownerAccess t := by
  refine ⟨hm, fun howner => ?_, fun howner => ?_⟩
  · rwa [accessTo_owner howner] at h
  · rwa [accessTo, if_neg (by simpa using howner)] at h

/-- Names bring in only members that may be used. -/
theorem named_granted (s : Scope) : Named s (Element.All
    (Element.Granted s.host s.ownerType s.options.ownerAccess)) where
  closed := Element.closed_all fun e he => by cases e <;> trivial
  read hr hm haccess :=
    Element.all_iff.2 ⟨granted_of_accessible hm haccess, by simpa [Element.children] using hr⟩
  invoke hr hm haccess hargs :=
    Element.all_iff.2 ⟨granted_of_accessible hm
      haccess, by simpa [Element.children] using ⟨hr, hargs⟩⟩
  load _ := Element.all_iff.2 ⟨trivial, nofun⟩
  demand _ hargs := Element.all_iff.2 ⟨trivial, hargs⟩

end Build

namespace Context

variable {c : Context} {host : Host} {store : Store} {o : Options} {text : Text}

/-- The element of a text reads and calls only members that may be used. -/
theorem element_granted {root : Element} (h : c.element host store o text = .ok root) :
    root.All (Element.Granted host c.owner.type? o.ownerAccess) := by
  obtain ⟨tree, inner, -, hinner, hroot⟩ := element_eq_ok h
  have named := Build.named_granted (c.scope host store o)
  exact Build.implicit_ensures named.closed (named.element hinner) root hroot

section Vault

open Grammar Lexical Build

/-- A host of vaults: everyone may see what is in them, and nobody the code. -/
def vaults : Host :=
  { Host.bare with records := [("Vault",
      [{ name := "balance", type := .int .int },
        { name := "code", type := .int .int, tag := .deny }])] }

def balance : Member := .field "balance" (.int .int) [0] true .none

theorem members_vault : vaults.members (.record "Vault") =
    [balance, .field "code" (.int .int) [1] true .deny] :=
  List.mergeSort_of_pairwise (by decide)

def vault : Context := { Context.usual with owner := .record "Vault" [.int .int 5, .int .int 7] }

def balanceElement : Element := .read balance (.int .int) (.owner (.record "Vault"))

theorem firstName_balance : firstName (vault.scope vaults {} {}) "balance" =
    .ok (.value balanceElement) := by
  have howned : readFirst ((vault.scope vaults {} {}).ownerMembers "balance" readable) .open
    (.owner (.record "Vault")) =
      some (.ok balanceElement) := by
    simp only [Scope.ownerMembers, vault, scope, Value.type?, Host.findMembers, members_vault]
    rfl
  have howner : ownerElement (vault.scope vaults {} {}) = some (.owner (.record "Vault")) := rfl
  have haccess : (vault.scope vaults {} {}).options.ownerAccess = .open := rfl
  simp only [firstName, howner, haccess, howned]

def nameTree (t : Token) : Tree :=
  wrapped t.place (.negate :: levels) (.node Form.chain.number "MemberExpression" t.place
    [.node Form.name.number "MemberFunctionExpression" t.place [.leaf t]])

theorem leaves_nameTree (t : Token) : (nameTree t).leaves = [t] := by
  rw [nameTree, leaves_wrapped]
  rfl

theorem grows_nameTree {t : Token} (ht : t.kind = .identifier) :
    Grows expressionGrammar (.rule Form.expression.number) [nameTree t] := by
  have hstarts : ∀ u ∈ [t].head?, u.place = t.place := fun u hu => by cases hu; rfl
  have hname : Grows expressionGrammar (.rule Form.name.number)
      [.node Form.name.number "MemberFunctionExpression" t.place [.leaf t]] :=
    .rule (r := shown .name "MemberFunctionExpression" [[tok .identifier, maybe .arguments]])
      (by decide)
      (List.mem_singleton.2 rfl) (grows_of_needed
        (grows_leaf (Nat.le_refl 1) rfl (congrArg _ ht.symm) .nil)) hstarts
  have hbasic : Grows expressionGrammar (.rule Form.basic.number)
      [.node Form.name.number "MemberFunctionExpression" t.place [.leaf t]] := by
    have hlast : [one .name] ∈ [[one .literal], [one .paren], [one .choice], [one .cast],
      [one .name]] := by simp
    exact .rule
      (r := spliced .basic "BasicExpression" [[one .literal], [one .paren], [one .choice],
        [one .cast], [one .name]])
      (by decide) hlast (grows_once (Nat.le_refl 1) rfl rfl hname .nil) hstarts
  have hchain : Grows expressionGrammar (.rule Form.chain.number)
      [.node Form.chain.number "MemberExpression" t.place
        [.node Form.name.number "MemberFunctionExpression" t.place [.leaf t]]] :=
    .rule (r := shown .chain "MemberExpression" [[one .basic, many .chainTail]]) (by decide)
      (List.mem_singleton.2 rfl)
      (grows_of_needed (grows_once (Nat.le_refl 1) rfl rfl hbasic .nil)) hstarts
  have hlevels : (Form.chain :: .negate :: levels).IsChain Passes := by decide
  exact grows_wrapped hlevels (fun u hu => hstarts u hu) hchain

/-- A name alone is built to what it stands for. -/
theorem build_nameTree {s : Scope} {t : Token} {e : Element}
    (h : firstName s (identifier t.image) = .ok (.value e)) :
    Build.element s (nameTree t) = .ok e := by
  have hchain : build s (.node Form.chain.number "MemberExpression" t.place
      [.node Form.name.number "MemberFunctionExpression" t.place [.leaf t]]) = .ok (.value e) := by
    show placedAt _ (linkChain s [⟨t.place, .name ⟨identifier t.image, none⟩⟩]) = _
    simp only [linkChain, firstLink, first, h]
    rfl
  have hroot : build s (nameTree t) = .ok (.value e) := build_wrapped (List.Subset.refl _) hchain
  rw [Build.element, hroot]
  rfl

theorem parse_balance : vault.parse (Text.ofString "balance") =
    .ok (nameTree ⟨.identifier, Text.ofString "balance", {}⟩) := by
  have htokens : vault.lexer.tokenize (Text.ofString "balance") =
      ([⟨.identifier, Text.ofString "balance", {}⟩], []) := by
    rw [Lexical.tokenize_standing]
    decide +kernel
  have hok : (Grammar.parse vault.lexer (Text.ofString "balance")).isOk = true := by
    rw [parse_standing]
    decide +kernel
  obtain ⟨t, ht⟩ := exists_ok_iff_isOk.2 hok
  rw [Context.parse, ht, parse_eq_of_grows (by rw [htokens]) (grows_nameTree rfl)
    (by rw [htokens, leaves_nameTree]) ht]
  rfl

theorem element_balance : vault.element vaults {} {} (Text.ofString "balance") =
    .ok balanceElement :=
  bind_eq_ok.2 ⟨_, parse_balance, bind_eq_ok.2
    ⟨balanceElement, build_nameTree firstName_balance, rfl⟩⟩

end Vault

/-- In the element of a text that compiles, every member that is read or called, anywhere, is a
member of the type of what it is read from or called on, and accessible: under the access to the
owner if this is the owner's type, under open access if it is another one. So no instruction of its
program reads or calls a member that is denied. -/
theorem compile_granted {compiled : Compiled} (h : c.compile host store o text = .ok compiled) :
    ∃ root, c.element host store o text = .ok root ∧
      root.program (limitOf o.maxInstructions) = .ok compiled.program ∧
      (∀ m t r, (Element.read m t r).Within root →
        m.Granted host c.owner.type? o.ownerAccess r.type) ∧
      (∀ name signature spread t r args, (Element.invoke name signature spread t r args).Within
        root →
        (Member.method name signature).Granted host c.owner.type? o.ownerAccess r.type) ∧
      (∀ m, .act (.read m) ∈ compiled.program.steps → m.tag ≠ .deny) ∧
      ∀ name signature spread count, .act (.invoke name signature spread count) ∈
        compiled.program.steps →
        ∃ t, (Member.method name signature).Granted host c.owner.type? o.ownerAccess t := by
  obtain ⟨root, hroot, hprogram, -⟩ := compile_eq_ok h
  have hgranted := element_granted hroot
  refine ⟨root, hroot, hprogram, fun m t r hread =>
    hgranted _ hread, fun name signature spread t r args hcall =>
    hgranted _ hcall, fun m hm => ?_, fun name signature spread count hm => ?_⟩
  · obtain ⟨x, hx, hact⟩ := Element.exists_of_act hprogram hm
    have hx := hgranted x hx
    cases x with
    | read m' t r =>
      cases hact
      exact hx.tag
    | convert _ how => cases how <;> cases hact
    | _ => cases hact
  · obtain ⟨x, hx, hact⟩ := Element.exists_of_act hprogram hm
    have hx := hgranted x hx
    cases x with
    | invoke _ _ _ t r args =>
      cases hact
      exact ⟨_, hx⟩
    | convert _ how => cases how <;> cases hact
    | _ => cases hact

/-- The balance of a vault that is the owner is read, and may be. -/
theorem compile_balance_granted : ∃ compiled root,
    vault.compile vaults {} {} (Text.ofString "balance") = .ok compiled ∧
    vault.element vaults {} {} (Text.ofString "balance") = .ok root ∧
    (Element.read balance (.int .int) (.owner (.record "Vault"))).Within root ∧
    balance.Granted vaults (some (.record "Vault")) .open (.record "Vault") := by
  have hok : (vault.compile vaults {} {} (Text.ofString "balance")).isOk = true := by
    rw [compile, element_balance]
    decide +kernel
  obtain ⟨compiled, hcompiled⟩ := exists_ok_iff_isOk.2 hok
  obtain ⟨root, hroot, -, hread, -⟩ := compile_granted hcompiled
  rw [element_balance] at hroot
  cases hroot
  exact ⟨compiled, balanceElement, hcompiled, element_balance, .refl, hread balance _ _ .refl⟩

end Context

end Formulary
