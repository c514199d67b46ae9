import Formulary.Proofs.Build.Calling
import Formulary.Proofs.Build.Renamed
import Formulary.Proofs.Grammar.Steering
import Formulary.Proofs.Scope.Consistency
import Formulary.Session.Context
import Mathlib.Data.List.Induction

/-!
# Functions in namespaces

Imports grow by registrations, each at the end of a path. Registrations tell what a namespace holds:
its functions, constants and types are those registered at exactly its path, and its namespaces are
the names with which paths go on below it, in the order in which they first occur. A call behind a
path follows the path by names under the case rule, and where several namespaces have a name, the
first link of the chain takes the newest of them and every later link the oldest. So the functions
of a namespace are called by its path unless a namespace with a name that differs in letter case
stands in the way.
-/

namespace Formulary

namespace Imports

/-! ## Growing trees -/

section Growth

variable {name q : String} {path base : List String} {change : List Member → List Member}
  {members added root : List Member}

/-- The names of the namespaces among members, with what they hold. -/
def spaces (members : List Member) : List (String × List Member) :=
  members.filterMap fun m =>
    match m with
    | .namespace n inner => some (n, inner)
    | _ => none

def flat (members : List Member) : List Member := members.filter (·.kind != .namespace)

theorem nestedPath_concat (base : List String) (q : String) (root : List Member) :
    nestedPath (base ++ [q]) root = nested q (nestedPath base root) := by
  induction base generalizing root with
  | nil => rfl
  | cons name base ih => exact ih _

@[simp] theorem spaces_namespace (n : String) (inner members : List Member) :
    spaces (.namespace n inner :: members) = (n, inner) :: spaces members := rfl

@[simp] theorem nested_namespace (n : String) (inner members : List Member) :
    nested q (.namespace n inner :: members) = if n = q then inner else nested q members := by
  simp [nested]

@[simp] theorem within_namespace (n : String) (inner members : List Member) :
    within name change (.namespace n inner :: members) =
      if n = name then .namespace n (change inner) :: members
      else .namespace n inner :: within name change members := by
  simp [within]

theorem flat_append (a b : List Member) : flat (a ++ b) = flat a ++ flat b := List.filter_append ..

theorem spaces_append (a b : List Member) : spaces (a ++ b) = spaces a ++ spaces b :=
  List.filterMap_append ..

theorem spaces_flat (h : flat added = added) : spaces added = [] := by
  rw [spaces, List.filterMap_eq_nil_iff]
  intro m hm
  rw [← h, flat, List.mem_filter] at hm
  cases m with
  | «namespace» => cases hm.2
  | _ => rfl

theorem nested_append_flat (h : flat added = added) :
    nested q (members ++ added) = nested q members := by
  have hnone : ∀ l : List Member, flat l = l → nested q l = [] := by
    intro l
    induction l with
    | nil => exact fun _ => rfl
    | cons m l ih =>
      intro hl
      have hm : (m.kind != .namespace) = true ∧ flat l = l := by
        have hall := List.filter_eq_self.1 hl
        exact ⟨hall m List.mem_cons_self, List.filter_eq_self.2 fun x hx =>
          hall x (List.mem_cons_of_mem _ hx)⟩
      cases m with
      | «namespace» => cases hm.1
      | _ => exact ih hm.2
  induction members with
  | nil => exact hnone added h
  | cons m members ih =>
    cases m with
    | «namespace» n inner => rw [List.cons_append, nested_namespace, nested_namespace, ih]
    | _ => exact ih

theorem nested_within (name q : String) (change : List Member → List Member)
    (members : List Member) :
    nested q (within name change members) =
      if q = name then change (nested q members) else nested q members := by
  induction members with
  | nil =>
    rw [within, nested_namespace]
    by_cases hq : q = name
    · subst hq
      simp [nested]
    · simp [hq, ne_comm.1 hq]
  | cons m members ih =>
    cases m with
    | «namespace» n inner =>
      by_cases hn : n = name
      · subst hn
        by_cases hq : q = n
        · simp [hq]
        · simp [hq, ne_comm.1 hq]
      · by_cases hq : n = q
        · subst hq
          simp [hn]
        · simp [hn, hq, ih]
    | _ => exact ih

theorem flat_within : flat (within name change members) = flat members := by
  induction members with
  | nil => rfl
  | cons m members ih =>
    cases m with
    | «namespace» n inner =>
      rw [within_namespace]
      split
      · rfl
      · exact ih
    | _ => exact congrArg (List.cons _) ih

theorem names_spaces_within : (spaces (within name change members)).map Prod.fst =
    if name ∈ (spaces members).map Prod.fst then (spaces members).map Prod.fst
    else (spaces members).map Prod.fst ++ [name] := by
  induction members with
  | nil => rfl
  | cons m members ih =>
    cases m with
    | «namespace» n inner =>
      by_cases hn : n = name
      · simp [hn]
      · rw [within_namespace, if_neg hn, spaces_namespace, spaces_namespace, List.map_cons,
          ih, List.map_cons]
        simp only [List.mem_cons, ne_comm.1 hn, false_or]
        split <;> rfl
    | _ => exact ih

/-- Namespaces of different names are told apart by them. -/
theorem spaces_eq (h : ((spaces members).map Prod.fst).Nodup) :
    spaces members = ((spaces members).map Prod.fst).map fun q => (q, nested q members) := by
  induction members with
  | nil => rfl
  | cons m members ih =>
    cases m with
    | «namespace» n inner =>
      obtain ⟨hn, hrest⟩ := List.nodup_cons.1 h
      have hstep : ∀ x ∈ (spaces members).map Prod.fst,
          (x, nested x (.namespace n inner :: members)) = (x, nested x members) := by
        intro x hx
        have hne : n ≠ x := fun heq => hn (heq ▸ hx)
        simp [hne]
      rw [spaces_namespace, List.map_cons, List.map_cons, List.map_congr_left hstep, ← ih hrest]
      simp
    | _ => exact ih h

/-- What stands at the end of one path when the members at the end of another are changed, without a
change to the namespaces among them. -/
theorem nestedPath_withinPath (hchange : ∀ q members,
    nested q (change members) = nested q members) :
    nestedPath base (withinPath path change root) =
      if base <+: path then withinPath (path.drop base.length) change (nestedPath base root)
      else nestedPath base root := by
  induction base generalizing path root with
  | nil => simp [nestedPath]
  | cons q base ih =>
    cases path with
    | nil => simp [nestedPath, withinPath, hchange]
    | cons name path =>
      simp only [nestedPath, withinPath, nested_within, List.cons_prefix_cons, List.length_cons,
        List.drop_succ_cons]
      by_cases hq : q = name
      · rw [if_pos hq, ih]
        simp [hq]
      · simp [hq]

end Growth

/-! ## Registrations -/

/-- A registration at the end of a path: only the path, or a function, a constant or a type. -/
inductive Registration where
  | space (path : List String)
  | function (path : List String) (name : String) (r : Registrant)
  | constant (path : List String) (name : String) (v : Value)
  | type (path : List String) (name : String) (t : Option Ty)

namespace Registration

def path : Registration → List String
  | .space path | .function path .. | .constant path .. | .type path .. => path

/-- What is handed over at the end of the path. -/
def additions : Registration → List (Except String Member)
  | .space _ => []
  | .function _ name r => [Imports.function name r]
  | .constant _ name v => [Imports.constant name v]
  | .type _ name t => [Imports.type name t]

def added (r : Registration) : List Member := (accepted r.additions).1

def run (r : Registration) (root : List Member) : List Member := (add r.path r.additions root).1

/-- The name with which the path of a registration goes on below another path. -/
def below? (base : List String) (r : Registration) : Option String :=
  if base <+: r.path then (r.path.drop base.length).head? else none

end Registration

def registered (rs : List Registration) : List Member := rs.foldl (fun root r => r.run root) []

/-- What is registered at the end of exactly one path. -/
def membersAt (rs : List Registration) (base : List String) : List Member :=
  (rs.filter (·.path = base)).flatMap Registration.added

/-- The names with which paths go on below a path, in the order in which they first occur. -/
def namesAt (rs : List Registration) (base : List String) : List String :=
  (rs.filterMap (·.below? base)).eraseDups

variable {base : List String} {r : Registration} {rs : List Registration}

theorem accepted_single {x : Except String Member} {m : Member}
    (h : m ∈ (accepted [x]).1) : x = .ok m := by
  cases x with
  | error fault => cases h
  | ok y => rw [List.mem_singleton.1 h]

theorem named_ok {name : String} {x : Except String Member} {m : Member}
    (h : named name x = .ok m) : x = .ok m := by
  unfold named at h
  split at h
  · cases h
  · exact h

/-- What a registration adds is a member of the kind that it says. -/
theorem Registration.mem_added {m : Member} (h : m ∈ r.added) :
    (∃ path name f, r = .function path name (.function f) ∧ m = .function name f) ∨
      (∃ path name v, r = .constant path name v ∧ m = .constant name (v.type?.getD .null) v) ∨
      ∃ path name t, r = .type path name (some t) ∧ m = .type name t := by
  cases r with
  | space path => cases h
  | function path name f =>
    have hm := named_ok (accepted_single h)
    cases f with
    | other t => cases hm
    | function f =>
      dsimp only at hm
      split at hm <;> cases hm
      exact .inl ⟨path, name, f, rfl, rfl⟩
  | constant path name v =>
    cases named_ok (accepted_single h)
    exact .inr (.inl ⟨path, name, v, rfl, rfl⟩)
  | type path name t =>
    have hm := named_ok (accepted_single h)
    cases t with
    | none => cases hm
    | some t =>
      cases hm
      exact .inr (.inr ⟨path, name, t, rfl, rfl⟩)

theorem flat_added (r : Registration) : flat r.added = r.added := by
  refine List.filter_eq_self.2 fun m hm => ?_
  obtain ⟨_, _, _, _, rfl⟩ | ⟨_, _, _, _, rfl⟩ | ⟨_, _, _, _, rfl⟩ :=
    Registration.mem_added hm <;> rfl

theorem flat_append_added (members : List Member) (r : Registration) :
    flat (members ++ r.added) = flat members ++ r.added := by
  rw [flat_append, flat_added]

theorem spaces_append_added (members : List Member) (r : Registration) :
    spaces (members ++ r.added) = spaces members := by
  rw [spaces_append, spaces_flat (flat_added r), List.append_nil]

theorem registered_concat : registered (rs ++ [r]) =
    withinPath r.path (· ++ r.added) (registered rs) := by
  rw [registered, List.foldl_append]
  rfl

/-- A registration changes what stands at the end of a path if its own path starts with this one. -/
theorem nestedPath_registered : nestedPath base (registered (rs ++ [r])) =
    if base <+: r.path then
      withinPath (r.path.drop base.length) (· ++ r.added) (nestedPath base (registered rs))
    else nestedPath base (registered rs) := by
  rw [registered_concat, nestedPath_withinPath fun q members => nested_append_flat (flat_added r)]

theorem nestedPath_nil (base : List String) : nestedPath base [] = [] := by
  induction base with
  | nil => rfl
  | cons name base ih => exact ih

/-- A namespace holds what is registered at exactly its path. -/
theorem flat_registered (base : List String) (rs : List Registration) :
    flat (nestedPath base (registered rs)) = membersAt rs base := by
  induction rs using List.reverseRecOn with
  | nil => rw [registered, List.foldl_nil, nestedPath_nil]; rfl
  | append_singleton rs r ih =>
    have hstep : membersAt (rs ++ [r]) base = membersAt rs base ++ if r.path = base then
        r.added else [] := by
      simp only [membersAt, List.filter_append, List.flatMap_append, List.filter_singleton]
      split <;> simp_all
    rw [nestedPath_registered, hstep, ← ih]
    by_cases hbase : base <+: r.path
    · obtain ⟨rest, hrest⟩ := hbase
      rw [if_pos ⟨rest, hrest⟩, ← hrest, List.drop_left]
      cases rest with
      | nil => rw [withinPath, flat_append_added, List.append_nil, if_pos rfl]
      | cons name rest => simp [withinPath, flat_within]
    · have hne : r.path ≠ base := fun h => hbase (h ▸ List.prefix_rfl)
      rw [if_neg hbase, if_neg hne, List.append_nil]

theorem eraseDups_concat (l : List String) (x : String) :
    (l ++ [x]).eraseDups = if x ∈ l.eraseDups then l.eraseDups else l.eraseDups ++ [x] := by
  rw [List.eraseDups_append]
  by_cases hx : x ∈ l <;> simp [List.removeAll, List.eraseDups_cons, hx]

theorem nodup_eraseDups (l : List String) : l.eraseDups.Nodup := by
  induction l using List.reverseRecOn with
  | nil => exact List.nodup_nil
  | append_singleton l x ih =>
    rw [eraseDups_concat]
    split
    · exact ih
    · rename_i hx
      refine List.nodup_append.2 ⟨ih, List.nodup_singleton x, ?_⟩
      rintro a ha b hb rfl
      exact hx (List.mem_singleton.1 hb ▸ ha)

/-- The namespaces of a namespace are the names with which paths go on below its own. -/
theorem names_registered (base : List String) (rs : List Registration) :
    (spaces (nestedPath base (registered rs))).map Prod.fst = namesAt rs base := by
  induction rs using List.reverseRecOn with
  | nil => rw [registered, List.foldl_nil, nestedPath_nil]; rfl
  | append_singleton rs r ih =>
    rw [nestedPath_registered, namesAt, List.filterMap_append, List.filterMap_cons,
      Registration.below?]
    by_cases hbase : base <+: r.path
    · rw [if_pos hbase, if_pos hbase]
      cases r.path.drop base.length with
      | nil =>
        rw [withinPath, spaces_append_added, ih]
        simp [namesAt]
      | cons name rest =>
        rw [withinPath, names_spaces_within, ih]
        simp [eraseDups_concat, namesAt]
    · rw [if_neg hbase, if_neg hbase, ih]
      simp [namesAt]

/-- What a path leads to by exact names is told by the registrations. -/
theorem spaces_registered (base : List String) (rs : List Registration) :
    spaces (nestedPath base (registered rs)) =
      (namesAt rs base).map fun q => (q, nestedPath (base ++ [q]) (registered rs)) := by
  rw [spaces_eq (names_registered base rs ▸ nodup_eraseDups _), names_registered]
  simp only [nestedPath_concat]

end Imports

namespace Build

open Imports
open Overload (Candidate)

variable {s : Scope} {rs : List Registration} {p n fname : String} {base names : List String}

/-! ## Chains of names -/

/-- No constant and no type is registered under a name. -/
def Unclaimed (rs : List Registration) (n : String) : Prop :=
  ∀ r ∈ rs, ∀ m ∈ r.added, sameName false m.name n = true → m.kind = .function

/-- A scope with the imports that registrations give. Letter case does not count in it. -/
structure Registered (s : Scope) (rs : List Registration) : Prop where
  imports : s.imports = registered rs
  caseless : s.options.caseSensitive = false

/-- Where the later links of a chain lead: each to the oldest namespace that has its name. -/
def descend (rs : List Registration) (base : List String) : List String → Option (List String)
  | [] => some []
  | n :: names =>
    ((namesAt rs base).find? (sameName false · n)).bind fun q =>
      (descend rs (base ++ [q]) names).map (q :: ·)

/-- Where a chain of names leads: first to the newest namespace that has the name. -/
def leads (rs : List Registration) (p : String) (names : List String) : Option (List String) :=
  ((namesAt rs []).filter (sameName false · p)).getLast?.bind fun q =>
    (descend rs [q] names).map (q :: ·)

theorem mem_of_mem_nestedPath {m : Member} (h : m ∈ nestedPath base (registered rs))
    (hm : m.kind ≠ .namespace) :
    ∃ r ∈ rs, r.path = base ∧ m ∈ r.added := by
  have hflat : m ∈ flat (nestedPath base (registered rs)) :=
    List.mem_filter.2 ⟨h, by simpa using hm⟩
  rw [flat_registered, membersAt, List.mem_flatMap] at hflat
  obtain ⟨r, hr, hadded⟩ := hflat
  obtain ⟨hr, hpath⟩ := List.mem_filter.1 hr
  exact ⟨r, hr, of_decide_eq_true hpath, hadded⟩

/-- Under an unclaimed name there are only functions and namespaces. -/
theorem kind_of_mem_lookup (hn : Unclaimed rs n) {m : Member}
    (h : m ∈ lookup (nestedPath base (registered rs)) n false) : m.kind = .function ∨
    m.kind = .namespace := by
  obtain ⟨hmem, hname⟩ := List.mem_filter.1 h
  by_cases hm : m.kind = .namespace
  · exact .inr hm
  · obtain ⟨r, hr, -, hadded⟩ := mem_of_mem_nestedPath hmem hm
    exact .inl (hn r hr m hadded hname)

theorem spaces_lookup (members : List Member) (n : String) (cs : Bool) :
    spaces (lookup members n cs) = (spaces members).filter (sameName cs ·.1 n) := by
  induction members with
  | nil => rfl
  | cons m members ih =>
    have hcons : lookup (m :: members) n cs =
      if sameName cs m.name n then m :: lookup members n cs else lookup members n cs :=
        List.filter_cons
    rw [hcons]
    cases m with
    | «namespace» k inner =>
      rw [spaces_namespace, List.filter_cons, ← ih, apply_ite spaces]
      rfl
    | _ => split <;> exact ih

/-- The namespaces with a name, in the order in which they came to be. -/
theorem filterMap_lookup_registered {α : Type} (f : String → List Member → α)
    (g : Member → Option α)
    (hg : ∀ m, g m = match m with | .namespace k inner => some (f k inner) | _ => none) :
    (lookup (nestedPath base (registered rs)) n false).filterMap g =
    ((namesAt rs base).filter (sameName false · n)).map fun q =>
      f q (nestedPath (base ++ [q]) (registered rs)) := by
  have hmap : ∀ members : List Member, members.filterMap g = (spaces members).map fun x =>
      f x.1 x.2 := by
    intro members
    rw [spaces, List.map_filterMap]
    congr 1
    funext m
    rw [hg]
    cases m <;> rfl
  rw [hmap, spaces_lookup, spaces_registered, List.filter_map, List.map_map]
  rfl

/-- A first name that nothing else has stands for the newest of its namespaces. -/
theorem firstName_registered (hs : Registered s rs) (howner : s.ownerMembers p readable = [])
    (hstore : s.store.typeOf? p = none) (hsupplied : s.store.suppliedType? p = none)
    (hp : Unclaimed rs p) :
    firstName s p =
      match ((namesAt rs []).filter (sameName false · p)).getLast? with
      | some q => .ok (.scope q (nestedPath [q] (registered rs)))
      | none => undefinedName s p := by
  have hfound : s.imported p = lookup (nestedPath [] (registered rs)) p false := by
    rw [Scope.imported, hs.imports, hs.caseless]
    rfl
  have hkind : ∀ m ∈ s.imported p, m.kind = .function ∨ m.kind = .namespace := fun m hm =>
    kind_of_mem_lookup hp (hfound ▸ hm)
  have hconstant : ∀ g : Member → Option Element, (∀ m, m.kind ≠ .constant → g m = none) →
      (s.imported p).findSome? g = none := by
    intro g hg
    refine List.findSome?_eq_none_iff.2 fun m hm => hg m ?_
    rcases hkind m hm with h | h <;> rw [h] <;> decide
  have htype : ∀ g : Member → Option Subject, (∀ m, m.kind ≠ .type → g m = none) →
      (s.imported p).filterMap g = [] := by
    intro g hg
    refine List.filterMap_eq_nil_iff.2 fun m hm => hg m ?_
    rcases hkind m hm with h | h <;> rw [h] <;> decide
  have hscope : ∀ g h : Member → Option Subject, (∀ m, m.kind ≠ .type → h m = none) →
      (∀ m, g m = match m with | .namespace k inner => some (.scope k inner) | _ => none) →
      ((s.imported p).filterMap g).getLast?.or ((s.imported p).filterMap h).getLast? =
        ((namesAt rs []).filter (sameName false · p)).getLast?.map fun q =>
          .scope q (nestedPath [q] (registered rs)) := by
    intro g h hh hg
    rw [htype h hh, hfound, filterMap_lookup_registered Subject.scope g hg, List.getLast?_map,
      List.getLast?_nil, Option.or_none]
    rfl
  unfold firstName
  dsimp only
  rw [howner, hstore, hsupplied, hconstant _ fun m => by cases m <;> simp [Member.kind],
    hscope _ _ (fun m => by cases m <;> simp [Member.kind]) fun m => by cases m <;> rfl]
  cases ((namesAt rs []).filter (sameName false · p)).getLast? <;> cases ownerElement s <;> rfl

/-- A later name that nothing else has stands for the oldest of its namespaces. -/
theorem inNamespace_registered (hs : Registered s rs) (label : String) (hn : Unclaimed rs n) :
    inNamespace s label (nestedPath base (registered rs)) ⟨n, none⟩ =
      match (namesAt rs base).find? (sameName false · n) with
      | some q => .ok (.scope s!"{label}.{q}" (nestedPath (base ++ [q]) (registered rs)))
      | none => undefined s!"namespace {label}: name {Text.quoteString n} is not defined" n
          ((nestedPath base (registered rs)).map Member.name) := by
  let scope (k : String) (inner : List Member) : Subject := .scope s!"{label}.{k}" inner
  have hfirst : ∀ g : Member → Option Subject, (∀ m, m.kind = .function → g m = none) →
      (∀ k inner, g (.namespace k inner) = some (scope k inner)) →
      (lookup (nestedPath base (registered rs)) n false).findSome? g =
        ((namesAt rs base).find? (sameName false · n)).map fun q =>
          scope q (nestedPath (base ++ [q]) (registered rs)) := by
    intro g hfunction hspace
    have hg : ∀ m ∈ lookup (nestedPath base (registered rs)) n false,
        g m = match m with | .namespace k inner => some (scope k inner) | _ => none := by
      intro m hm
      rcases kind_of_mem_lookup hn hm with h | h
      · rw [hfunction m h]
        cases m <;> first | rfl | cases h
      · cases m <;> first | exact hspace _ _ | cases h
    rw [← List.head?_filterMap, List.filterMap_congr hg,
      filterMap_lookup_registered scope _ fun m => by cases m <;> rfl,
      List.head?_map, List.head?_filter]
  simp only [inNamespace, hs.caseless]
  rw [hfirst _ (fun m hm => by cases m <;> first | rfl | cases hm) fun _ _ => rfl]
  cases (namesAt rs base).find? (sameName false · n) <;> rfl

/-- The reason of an outcome that is a compile error. -/
def reason? {α : Type} : Except Failure α → Option Reason
  | .error (.compile e) => some e.reason
  | _ => none

/-- The outcome that a name is not defined. -/
def Undefined {α : Type} (x : Except Failure α) : Prop := reason? x = some .undefinedName

theorem Undefined.placedAt {α : Type} {x : Except Failure α} (h : Undefined x) (position : Nat) :
    Undefined (placedAt position x) := by
  cases x with
  | ok a => cases h
  | error f =>
    cases f with
    | compile e => exact h
    | _ => cases h

theorem Undefined.bind {α β : Type} {x : Except Failure α} (h : Undefined x)
    (f : α → Except Failure β) :
    Undefined (x >>= f) := by
  cases x with
  | ok a => cases h
  | error e =>
    cases e with
    | compile e => exact h
    | _ => cases h

theorem undefined_undefined {α : Type} (message name : String) (known : List String) :
    Undefined (undefined message name known : Except Failure α) := rfl

/-- Links of names alone lead from namespace to namespace. -/
theorem laterLinks_registered (base : List String) (hs : Registered s rs) {links : List Part}
    (rest : List Part)
    (label : String) (hlinks : links.map Part.built = names.map fun n => .member ⟨n, none⟩)
    (hnames : ∀ n ∈ names, Unclaimed rs n) :
    match descend rs base names with
    | some path => ∃ label', laterLinks s (.scope label (nestedPath base (registered rs)))
        (links ++ rest) =
        laterLinks s (.scope label' (nestedPath (base ++ path) (registered rs))) rest
    | none => Undefined (laterLinks s (.scope label (nestedPath base (registered rs)))
        (links ++ rest)) := by
  induction names generalizing base links label with
  | nil =>
    rw [List.map_eq_nil_iff.1 hlinks]
    exact ⟨label, by rw [List.append_nil]; rfl⟩
  | cons n names ih =>
    obtain ⟨link, links, rfl, hlink, hlinks⟩ := List.map_eq_cons_iff.1 hlinks
    obtain ⟨hn, hnames⟩ := List.forall_mem_cons.1 hnames
    have hstep : nextLink s (.scope label (nestedPath base (registered rs))) link.built =
        inNamespace s label (nestedPath base (registered rs)) ⟨n, none⟩ := by
      rw [hlink]
      rfl
    rw [List.cons_append, laterLinks, hstep, inNamespace_registered hs label hn, descend]
    cases (namesAt rs base).find? (sameName false · n) with
    | none => exact ((undefined_undefined _ _ _).placedAt _).bind _
    | some q =>
      have hrest := ih (base ++ [q]) s!"{label}.{q}" hlinks hnames
      rw [Option.bind_some]
      cases hdescend : descend rs (base ++ [q]) names with
      | none =>
        rw [hdescend] at hrest
        exact hrest
      | some path =>
        rw [hdescend] at hrest
        obtain ⟨label', hlabel⟩ := hrest
        rw [List.append_assoc] at hlabel
        exact ⟨label', hlabel⟩

theorem functionsOf_lookup (members : List Member) (n : String) (cs : Bool) :
    functionsOf (lookup members n cs) = functionsOf (lookup (flat members) n cs) := by
  simp only [functionsOf, lookup, flat, List.filter_filter]
  refine List.filter_congr fun m _ => ?_
  by_cases hm : m.kind = .function
  · simp +decide [hm]
  · rw [beq_eq_false_iff_ne.2 hm]
    rfl

/-- The functions that are called by a name behind a chain of names. -/
def called (rs : List Registration) (p : String) (names : List String)
    (fname : String) : List Member :=
  functionsOf <|
    match leads rs p names with
    | some path => lookup (membersAt rs path) fname false
    | none => []

/-- A name that is called in a namespace. -/
theorem inNamespace_called (hs : Registered s rs) (label fname : String) (path : List String)
    (args : List Element) :
    let functions := functionsOf (lookup (membersAt rs path) fname false)
    let x := inNamespace s label (nestedPath path (registered rs)) ⟨fname, some args⟩
    if functions = [] then Undefined x
    else x = (callBest s none fname args (candidates functions .all false)).map .value := by
  dsimp only [inNamespace]
  rw [hs.caseless, functionsOf_lookup (nestedPath path (registered rs)), flat_registered]
  split
  · rename_i hnil
    rw [hnil]
    exact undefined_undefined _ _ _
  · rename_i hcons
    split
    · exact absurd ‹_› hcons
    · rfl

/-- The call of a name behind a chain of names. -/
theorem linkChain_registered (hs : Registered s rs) (howner : s.ownerMembers p readable = [])
    (hstore : s.store.typeOf? p = none) (hsupplied : s.store.suppliedType? p = none)
    (hnames : ∀ n ∈ p :: names, Unclaimed rs n) {head last : Part} {links : List Part}
    (rest : List Part) {args : List Element} (hhead : head.built = .name ⟨p, none⟩)
    (hlinks : links.map Part.built = names.map fun n => .member ⟨n, none⟩)
    (hlast : last.built = .member ⟨fname, some args⟩) :
    if called rs p names fname = [] then Undefined (linkChain s (head :: links ++ last :: rest))
    else linkChain s (head :: links ++ last :: rest) = (do
      let subject ← placedAt last.place.offset
        ((callBest s none fname args (candidates (called rs p names fname) .all false)).map .value)
      let subject ← laterLinks s subject rest
      subject.element.map .value) := by
  obtain ⟨hp, hnames⟩ := List.forall_mem_cons.1 hnames
  have hfirst : firstLink s head.built = firstName s p := by rw [hhead]; rfl
  rw [List.cons_append, linkChain, hfirst, firstName_registered hs howner hstore hsupplied
    hp, called, leads]
  cases ((namesAt rs []).filter (sameName false · p)).getLast? with
  | none => exact ((undefined_undefined _ _ _).placedAt _).bind _
  | some q =>
    have hlater := laterLinks_registered [q] hs (last :: rest) q hlinks hnames
    rw [Option.bind_some]
    cases hdescend : descend rs [q] names with
    | none =>
      rw [hdescend] at hlater
      exact hlater.bind _
    | some path =>
      rw [hdescend] at hlater
      obtain ⟨label, hlabel⟩ := hlater
      have hcall := inNamespace_called hs label fname (q :: path) args
      have hlink : nextLink s (.scope label (nestedPath (q :: path) (registered rs))) last.built =
          inNamespace s label (nestedPath (q :: path) (registered rs)) ⟨fname, some args⟩ := by
        rw [hlast]
        rfl
      dsimp only at hcall
      simp only [Option.map_some, placedAt, Except.mapError, bind, Except.bind, hlabel,
        List.cons_append, List.nil_append, laterLinks, hlink]
      split
      · rename_i hnil
        rw [if_pos hnil] at hcall
        exact ((hcall.placedAt _).bind _).bind _
      · rename_i hcons
        rw [if_neg hcons] at hcall
        rw [hcall]
        cases callBest s none fname args _ <;> rfl

/-! ## Namespaces in the way -/

/-- A path whose own namespaces its names stand for: no newer namespace of the root has the first
name, and no older one on the way has a later name. -/
structure Unshadowed (rs : List Registration) (p : String) (names : List String) : Prop where
  newest : ((namesAt rs []).filter (sameName false · p)).getLast? = some p
  oldest : ∀ before n after, names = before ++ n :: after →
    (namesAt rs (p :: before)).find? (sameName false · n) = some n

theorem descend_alike {path : List String} (h : descend rs base names = some path) :
    List.Forall₂ (fun q n => sameName false q n) path names := by
  induction names generalizing base path with
  | nil =>
    cases h
    exact .nil
  | cons n names ih =>
    obtain ⟨q, hq, h⟩ := Option.bind_eq_some_iff.1 h
    obtain ⟨rest, hrest, rfl⟩ := Option.map_eq_some_iff.1 h
    exact .cons (List.find?_some (p := fun q => sameName false q n) hq) (ih hrest)

theorem leads_alike {path : List String} (h : leads rs p names = some path) :
    List.Forall₂ (fun q n => sameName false q n) path (p :: names) := by
  obtain ⟨q, hq, h⟩ := Option.bind_eq_some_iff.1 h
  obtain ⟨rest, hrest, rfl⟩ := Option.map_eq_some_iff.1 h
  exact .cons (List.mem_filter.1 (List.mem_of_getLast? hq)).2 (descend_alike hrest)

theorem descend_eq_self : descend rs base names = some names ↔
    ∀ before n after, names = before ++ n :: after →
      (namesAt rs (base ++ before)).find? (sameName false · n) = some n := by
  induction names generalizing base with
  | nil => simp [descend]
  | cons m names ih =>
    have hstep : descend rs base (m :: names) = some (m :: names) ↔
        (namesAt rs base).find? (sameName false · m) = some m ∧
          descend rs (base ++ [m]) names = some names := by
      constructor
      · intro h
        obtain ⟨q, hq, h⟩ := Option.bind_eq_some_iff.1 h
        obtain ⟨rest, hrest, heq⟩ := Option.map_eq_some_iff.1 h
        cases heq
        exact ⟨hq, hrest⟩
      · rintro ⟨hq, hrest⟩
        rw [descend, hq, Option.bind_some, hrest]
        rfl
    rw [hstep, ih]
    constructor
    · rintro ⟨hm, h⟩ before n after heq
      cases before with
      | nil =>
        cases heq
        rwa [List.append_nil]
      | cons x before =>
        cases heq
        rw [List.append_cons]
        exact h before n after rfl
    · intro h
      refine ⟨by simpa using h [] m names rfl, fun before n after heq => ?_⟩
      rw [← List.append_cons]
      exact h (m :: before) n after (by rw [heq]; rfl)

/-- A path leads to itself exactly if no namespace is in its way. -/
theorem leads_eq_self : leads rs p names = some (p :: names) ↔ Unshadowed rs p names := by
  constructor
  · intro h
    obtain ⟨q, hq, h⟩ := Option.bind_eq_some_iff.1 h
    obtain ⟨rest, hrest, heq⟩ := Option.map_eq_some_iff.1 h
    cases heq
    exact ⟨hq, descend_eq_self.1 hrest⟩
  · rintro ⟨hnewest, holdest⟩
    rw [leads, hnewest, Option.bind_some, descend_eq_self.2 holdest]
    rfl

/-- What is called was registered as a function where the chain leads. -/
theorem exists_of_mem_called {m : Member} (h : m ∈ called rs p names fname) :
    ∃ path n r, leads rs p names = some path ∧ .function path n r ∈ rs ∧
      Imports.function n r = .ok m ∧
      sameName false n fname = true := by
  obtain ⟨hfound, n, f, rfl⟩ := eq_function_of_mem h
  split at hfound
  · rename_i path hpath
    obtain ⟨hmember, hname⟩ := List.mem_filter.1 hfound
    obtain ⟨r, hr, hadded⟩ := List.mem_flatMap.1 hmember
    obtain ⟨hr, hat⟩ := List.mem_filter.1 hr
    have hat := of_decide_eq_true hat
    obtain ⟨_, _, _, rfl, heq⟩ | ⟨_, _, _, -, heq⟩ | ⟨_, _, _, -, heq⟩ :=
      Registration.mem_added hadded <;> cases heq
    exact ⟨path, n, .function f, hpath, hat ▸ hr, accepted_single hadded, hname⟩
  · cases hfound

theorem mem_called {path : List String} {m : Member} {r : Registrant}
    (hpath : leads rs p names = some path)
    (hr : .function path fname r ∈ rs) (hm : Imports.function fname r = .ok m) :
    m ∈ called rs p names fname := by
  have hadded : m ∈ (Registration.function path fname r).added := by
    rw [Registration.added, Registration.additions, hm]
    exact List.mem_singleton_self m
  have hmember : m ∈ membersAt rs path :=
    List.mem_flatMap.2 ⟨_, List.mem_filter.2 ⟨hr, decide_eq_true rfl⟩, hadded⟩
  obtain ⟨_, _, f, heq, rfl⟩ | ⟨_, _, _, heq, -⟩ | ⟨_, _, _, heq, -⟩ :=
    Registration.mem_added hadded <;> cases heq
  rw [called, hpath]
  exact List.mem_filter.2
    ⟨List.mem_filter.2 ⟨hmember, by simp [Member.name, sameName]⟩, by simp [Member.kind]⟩

/-- The candidates for the call of a name behind a chain of names. -/
def considered (rs : List Registration) (p : String) (names : List String) (fname : String) :
    List (Candidate Member) :=
  candidates (called rs p names fname) .all false

theorem exists_considered {m : Member} (h : m ∈ called rs p names fname) :
    ∃ c ∈ considered rs p names fname, c.payload = m := by
  obtain ⟨-, n, f, rfl⟩ := eq_function_of_mem h
  exact ⟨_, List.mem_filterMap.2 ⟨_, h, rfl⟩, rfl⟩

theorem considered_eq_nil : considered rs p names fname = [] ↔ called rs p names fname = [] := by
  constructor
  · intro h
    refine List.eq_nil_iff_forall_not_mem.2 fun m hm => ?_
    obtain ⟨c, hc, -⟩ := exists_considered hm
    rw [h] at hc
    cases hc
  · intro h
    rw [considered, h]
    rfl

structure PathCall (head last : Part) (links : List Part) (p : String) (names : List String)
    (fname : String)
    (args : List Element) : Prop where
  head : head.built = .name ⟨p, none⟩
  links : links.map Part.built = names.map fun n => .member ⟨n, none⟩
  last : last.built = .member ⟨fname, some args⟩

/-- The call of a name behind a path chooses among fixed candidates, and fails for an undefined name
if there are none. A function that is registered under the name at the end of the path is one of
them whatever else is registered before or after, as long as no namespace is in the way of the path.
Where one is, the candidates are functions at the end of another path, whose names differ from those
of the path in letter case. -/
theorem call_reaches (hs : Registered s rs) (howner : s.ownerMembers p readable = [])
    (hstore : s.store.typeOf? p = none) (hsupplied : s.store.suppliedType? p = none)
    (hnames : ∀ n ∈ p :: names, Unclaimed rs n) (fname : String) :
    (∀ (head last : Part) (links rest : List Part) (args : List Element),
      PathCall head last links p names fname args →
      if considered rs p names fname = [] then
        Undefined (linkChain s (head :: links ++ last :: rest))
      else linkChain s (head :: links ++ last :: rest) = (do
        let subject ← placedAt last.place.offset
          ((callBest s none fname args (considered rs p names fname)).map .value)
        let subject ← laterLinks s subject rest
        subject.element.map .value)) ∧
    (Unshadowed rs p names → ∀ r m, .function (p :: names) fname r ∈ rs →
      Imports.function fname r = .ok m →
      ∃ c ∈ considered rs p names fname, c.payload = m) ∧
    (¬Unshadowed rs p names → ∀ c ∈ considered rs p names fname, ∃ path n r,
      .function path n r ∈ rs ∧
      Imports.function n r = .ok c.payload ∧ sameName false n fname = true ∧ path ≠ p :: names ∧
      List.Forall₂ (fun q n => sameName false q n) path (p :: names)) := by
  refine ⟨fun head last links rest args h => ?_, fun hclear r m hr hm =>
    ?_, fun hshadowed c hc => ?_⟩
  · have hchain := linkChain_registered hs howner hstore hsupplied hnames rest h.head h.links h.last
    simp only [considered_eq_nil]
    exact hchain
  · exact exists_considered (mem_called (leads_eq_self.2 hclear) hr hm)
  · obtain ⟨path, n, r, hpath, hr, hm, hname⟩ := exists_of_mem_called (mem_candidates hc).1
    refine ⟨path, n, r, hr, hm, hname, ?_, leads_alike hpath⟩
    rintro rfl
    exact hshadowed (leads_eq_self.1 hpath)

theorem mem_namesAt {q : String} : q ∈ namesAt rs base ↔ ∃ r ∈ rs, ∃ rest,
    r.path = base ++ q :: rest := by
  rw [namesAt, List.mem_eraseDups, List.mem_filterMap]
  refine exists_congr fun r => and_congr_right fun _ => ?_
  unfold Registration.below?
  constructor
  · intro h
    split at h
    · rename_i hbase
      obtain ⟨tail, htail⟩ := hbase
      rw [← htail, List.drop_left] at h
      obtain ⟨rest, rfl⟩ := List.head?_eq_some_iff.1 h
      exact ⟨rest, htail.symm⟩
    · cases h
  · rintro ⟨rest, hpath⟩
    rw [hpath, if_pos (List.prefix_append ..), List.drop_left]
    rfl

section Libraries

/-- A function of one number. -/
def identity : Function := ⟨⟨[.int .int], false, [.int .int]⟩, fun args => pure (args.headD .nil)⟩

def libraries : List Registration :=
  [.function ["Lib", "Inner"] "F" (.function identity), .space ["Other"],
    .function ["Lib"] "F" (.function identity)]

/-- The same with a namespace whose name is in lower case. -/
def shadowing : List Registration := libraries ++ [Registration.space ["lib"]]

def importing (rs : List Registration) : Context where
  options := {}
  imports := registered rs
  lexer := .ofOptions {}

theorem unshadowed_inner : Unshadowed libraries "Lib" ["Inner"] where
  newest := by
    simp only [sameName_false]
    decide +kernel
  oldest before n after h := by
    cases before with
    | nil =>
      cases h
      simp only [sameName_false]
      decide +kernel
    | cons x before => cases before <;> cases h

theorem unclaimed_shadowing (n : String) : Unclaimed shadowing n := by
  intro r hr m hm _
  obtain ⟨_, _, _, -, rfl⟩ | ⟨_, _, _, rfl, -⟩ | ⟨_, _, _, rfl, -⟩ := Registration.mem_added hm
  · rfl
  · simp [shadowing, libraries] at hr
  · simp [shadowing, libraries] at hr

theorem unclaimed_libraries (n : String) : Unclaimed libraries n := fun r hr =>
  unclaimed_shadowing n r (List.mem_append_left _ hr)

/-- A function two namespaces deep is among the candidates. -/
theorem call_reaches_inner : ∃ c ∈ considered libraries "Lib" ["Inner"] "F",
    c.payload = .function "F" identity :=
  (call_reaches (s := (importing libraries).scope .bare {} {}) ⟨rfl, rfl⟩ rfl rfl rfl (fun n _ =>
    unclaimed_libraries n)
    "F").2.1 unshadowed_inner (.function identity) _ (by simp [libraries]) rfl

theorem reason?_wordless {α : Type} (x : Except Failure α) :
    reason? (x.mapError Failure.wordless) = reason? x := by
  cases x with
  | ok a => rfl
  | error f => cases f <;> rfl

/-- The scope of texts with the namespace in lower case. -/
def shadowed : Scope := (importing shadowing).scope .bare {} {}

/-- First names where a name alone stands for the namespace in lower case, which has no members. -/
def toShadow (r : Reference) : Except Failure Subject :=
  match r.args with
  | none => .ok (.scope "lib" [])
  | some _ => first shadowed r

theorem firstName_shadowed : firstName shadowed "Lib" = .ok (.scope "lib" []) := by
  have hnewest : ((namesAt shadowing []).filter (sameName false · "Lib")).getLast? =
      some "lib" := by
    simp only [sameName_false]
    decide +kernel
  have hregistered : Registered shadowed shadowing := ⟨rfl, rfl⟩
  rw [firstName_registered hregistered rfl rfl rfl (unclaimed_shadowing _), hnewest]
  rfl

/-- A namespace whose name is in lower case hides a function that was registered before it. -/
theorem compile_shadowed : Undefined ((importing shadowing).compile .bare {} {}
    (Text.ofString "Lib.F(1)")) := by
  have hwalk : ((importing shadowing).parse (Text.ofString "Lib.F(1)")).toOption.any (fun tree =>
      tree.firstNames.map identifier == ["Lib"] &&
        reason? (outcome (((resolutionOf shadowed).naming toShadow).element tree)) == some
          .undefinedName) = true := by
    rw [Context.parse, Grammar.parse_standing]
    decide +kernel
  obtain ⟨tree, htree, hwalk⟩ := exists_ok_of_any hwalk
  rw [Bool.and_eq_true, beq_iff_eq, beq_iff_eq] at hwalk
  have halike : AnswerAlike tree.firstNames (first shadowed) toShadow := by
    refine ⟨fun x hx => ?_, fun _ _ => rfl⟩
    have hname : identifier x = "Lib" := List.mem_singleton.1 (hwalk.1 ▸ List.mem_map_of_mem hx)
    show (firstName shadowed (identifier x)).mapError Failure.wordless = _
    rw [hname, firstName_shadowed]
    rfl
  have hsame := (alike_element (r := resolutionOf shadowed) (mapError_eq_ok.1 htree) halike).outcome
  rw [Resolution.outcome_element] at hsame
  have hundefined : Undefined (element shadowed tree) := by
    rw [Undefined, ← reason?_wordless, hsame, reason?_wordless, hwalk.2]
  rw [Context.compile, Context.element, htree]
  exact (hundefined.bind _).bind _

end Libraries

end Build

end Formulary
