import Formulary.Proofs.Grammar.Limits

/-!
# How deep a text is nested

A derivation with the greatest number of its rules that stand within one another (`Nested`), hidden
rules included. The parser runs out of depth on what is derived exactly if it has fewer levels than
that (`Nested.parses`). Main statement: the limit of the depth only rejects (`parse_limited`).
-/

namespace Formulary.Grammar

open Lexical (Kind Lexer Options Token)

inductive Nested (g : RuleSet) : Phrase → List Kind → Nat → Prop
  | rule {r : Rule} {es : List Element} {ks : List Kind} {a : Nat} (hr : r ∈ g.rules)
      (hes : es ∈ r.alternatives)
    (h : Nested g (.elements es) ks a) : Nested g (.rule r.id) ks (a + 1)
  | nil : Nested g (.elements []) [] 0
  | cons {e : Element} {es : List Element} {n : Nat} {ks ks' : List Kind} {a b : Nat}
      (counts : e.Counts n) (h : Nested g (.copies e n) ks a) (h' : Nested g (.elements es) ks' b) :
    Nested g (.elements (e :: es)) (ks ++ ks') (max a b)
  | none {e : Element} : Nested g (.copies e 0) [] 0
  | token {e : Element} {k : Kind} {n : Nat} {ks : List Kind} {a : Nat} (he : e.target = .token k)
    (h : Nested g (.copies e n) ks a) : Nested g (.copies e (n + 1)) (k :: ks) a
  | copy {e : Element} {id n : Nat} {ks ks' : List Kind} {a b : Nat} (he : e.target = .rule id)
    (h : Nested g (.rule id) ks a) (h' : Nested g (.copies e n) ks' b) :
    Nested g (.copies e (n + 1)) (ks ++ ks') (max a b)

section Nested

variable {g : RuleSet} {p : Phrase} {ks : List Kind}

theorem Nested.derives {a : Nat} (h : Nested g p ks a) : Derives g p ks := by
  induction h with
  | rule hr hes _ ih => exact .rule hr hes ih
  | nil => exact .nil
  | cons counts _ _ ih ih' => exact .cons counts ih ih'
  | none => exact .none
  | token he _ ih => exact .token he ih
  | copy he _ _ ih ih' => exact .copy he ih ih'

/-- Every derivation is nested so or so deep. -/
theorem Derives.nested (h : Derives g p ks) : ∃ a, Nested g p ks a := by
  induction h with
  | rule hr hes _ ih =>
    obtain ⟨a, ih⟩ := ih
    exact ⟨_, .rule hr hes ih⟩
  | nil => exact ⟨_, .nil⟩
  | cons counts _ _ ih ih' =>
    obtain ⟨⟨a, ih⟩, ⟨b, ih'⟩⟩ := And.intro ih ih'
    exact ⟨_, .cons counts ih ih'⟩
  | none => exact ⟨_, .none⟩
  | token he _ ih =>
    obtain ⟨a, ih⟩ := ih
    exact ⟨_, .token he ih⟩
  | copy he _ _ ih ih' =>
    obtain ⟨⟨a, ih⟩, ⟨b, ih'⟩⟩ := And.intro ih ih'
    exact ⟨_, .copy he ih ih'⟩

end Nested

/-- The depth was enough for an outcome. -/
def Enough {α : Type} (out : Outcome α) : Prop := ∃ result, out = .ok result

theorem enough_ok {α : Type} (result : α × State) : Enough (.ok result) := ⟨result, rfl⟩

theorem not_enough_error {α : Type} (place : Lexical.Place) :
    ¬ Enough (.error place : Outcome α) := by
  rintro ⟨result, h⟩
  cases h

section Threshold

variable {g : RuleSet} {starts follow : Nat → List Kind} {separator : Nat}

/-- The parser passes tokens of a phrase if it has at least so many levels, and runs out of depth
otherwise. -/
def Phrase.Needs (g : RuleSet) (starts follow : Nat → List Kind) (separator : Nat)
    (us : List Token) (a : Nat) :
    Phrase → Prop
  | .rule id => ∀ r ∈ g.rules, r.id = id → ∀ depth s rest, s.At (us ++ rest) →
      comes rest ∈ follow id →
    (Enough (parseRule g.ready separator depth (r.ready g.facts) s) ↔ a ≤ depth)
  | .elements es => ∀ depth after s rest children, Steered (g.tableOf starts) follow after es →
    (∀ e ∈ es, ∀ id, e.target = .rule id → ∃ q ∈ g.rules, q.id = id) → s.At (us ++ rest) →
      comes rest ∈ after →
    (Enough (parseElements g.ready separator (parseRule g.ready separator depth)
      (es.map (Element.ready g.facts))
      children s) ↔ a ≤ depth)
  | .copies e m => ∀ depth n fuel s rest children,
      e.Follows (g.tableOf starts) follow (comes rest) →
    (∀ id, e.target = .rule id → ∃ q ∈ g.rules, q.id = id) → e.Counts (n + m) → m < fuel →
      s.At (us ++ rest) →
    (Enough (parseElement g.ready separator (parseRule g.ready separator depth) (e.ready g.facts)
      fuel n children s) ↔
      a ≤ depth)

/-- What is left before the parser after the tokens of a rule, and that they have been passed. -/
theorem Derives.passes_rule (predictive : g.Predictive starts follow) {id : Nat}
    {us rest : List Token} {s : State}
    (hd : Derives g (.rule id) (us.map (·.kind))) {r : Rule} (hr : r ∈ g.rules)
    (hid : r.id = id) {depth : Nat}
    (hat : s.At (us ++ rest)) (hrest : comes rest ∈ follow id) {t : Option Tree} {s' : State}
    (hrun : parseRule g.ready separator depth (r.ready g.facts) s = .ok (t, s')) :
    ∃ tree, t = some tree ∧ s'.At rest ∧ s'.next.place.offset ≠ s.next.place.offset := by
  obtain ⟨hsome, hat'⟩ := hd.passes predictive r hr hid depth s us rest t s' hat rfl hrest hrun
  obtain ⟨tree, rfl⟩ := Option.isSome_iff_exists.1 hsome
  obtain ⟨tree', htree, hpass, hgrows⟩ :=
    parseRule_grows predictive depth r hr _ _ _ hat.stream hat.calm hrun hat'.clean.1
  cases htree
  have hleaves := predictive.leaves_ne_nil hgrows
  rw [Tree.leavesOf_added] at hleaves
  exact ⟨tree, rfl, hat', hpass.offset_ne hat.stream hleaves⟩

theorem needs_none (predictive : g.Predictive starts follow) {e : Element} :
    (Phrase.copies e 0).Needs g starts follow separator [] 0 := by
  intro depth n fuel s rest children hfollow _ hcounts hfuel hat
  obtain ⟨fuel, rfl⟩ := Nat.exists_eq_add_of_lt hfuel
  have hstop : (e.ready g.facts).stops n s = true := by
    rw [ReadyElement.stops, hat.kind_eq]
    exact stops predictive hcounts hfollow.1
  rw [Nat.zero_add, parseElement_stops hstop]
  exact iff_of_true (enough_ok _) (Nat.zero_le depth)

/-- The loop over an element goes on while copies of its target are to come. -/
theorem stops_eq_false {e : Element} {m n : Nat} {s : State} (hcounts : e.Counts (n + (m + 1)))
    (hk : s.next.kind ∈ (e.facts g.facts).first) : (e.ready g.facts).stops n s = false := by
  refine Bool.eq_false_iff.2 (goes_on (fun b hb => ?_) hk)
  have := hcounts.2 b hb
  omega

theorem needs_token {e : Element} {u : Token} {us : List Token} {m a : Nat}
    (he : e.target = .token u.kind)
    (ih : (Phrase.copies e m).Needs g starts follow separator us a) :
    (Phrase.copies e (m + 1)).Needs g starts follow separator (u :: us) a := by
  intro depth n fuel s rest children hfollow hdefined hcounts hfuel hat
  obtain ⟨fuel, rfl⟩ := Nat.exists_eq_add_of_lt hfuel
  have hnext : s.next = u := hat.next_eq.2.1
  have hgo := stops_eq_false (g := g) hcounts (s := s) (by simp [Element.facts, he, hnext])
  have htarget : (e.ready g.facts).element.target = .token u.kind := he
  rw [parseElement_at_token hgo htarget, if_pos (congrArg Token.kind hnext)]
  exact ih depth (n + 1) _ _ rest _ hfollow hdefined (by rwa [Nat.add_assoc, Nat.add_comm 1])
    (by omega) hat.advance

/-- One copy of a rule, and then the others: what runs out of depth is the one or the others. -/
theorem needs_copy (predictive : g.Predictive starts follow) {e : Element} {id m a b : Nat}
    {us vs : List Token} (he : e.target = .rule id) (hd : Derives g (.rule id) (us.map (·.kind)))
    (hd' : Derives g (.copies e m) (vs.map (·.kind)))
    (ih : (Phrase.rule id).Needs g starts follow separator us a)
    (ih' : (Phrase.copies e m).Needs g starts follow separator vs b) :
    (Phrase.copies e (m + 1)).Needs g starts follow separator (us ++ vs) (max a b) := by
  intro depth n fuel s rest children hfollow hdefined hcounts hfuel hat
  obtain ⟨fuel, rfl⟩ := Nat.exists_eq_add_of_lt hfuel
  obtain ⟨r, hr, hid⟩ := hdefined id he
  rw [List.append_assoc] at hat
  have hgo := stops_eq_false (g := g) hcounts (next_mem_first predictive he hd hat)
  have htarget : (e.ready g.facts).element.target = .rule id := he
  have hrule := rule?_ready predictive.distinct hr
  rw [hid] at hrule
  have hfollows := comes_mem_follow predictive he hd' hcounts hfollow
  have hneeds := ih r hr hid depth s (vs ++ rest) hat hfollows
  rw [parseElement_at_rule hgo htarget hrule]
  cases hrun : parseRule g.ready separator depth (r.ready g.facts) s with
  | error place =>
    rw [hrun] at hneeds
    have hdeep : ¬ a ≤ depth := fun hle => not_enough_error place (hneeds.2 hle)
    refine iff_of_false (not_enough_error place) fun hle => hdeep ?_
    omega
  | ok result =>
    obtain ⟨t, s'⟩ := result
    have hle := hneeds.1 ⟨_, hrun⟩
    obtain ⟨tree, rfl, hat', hother⟩ := hd.passes_rule predictive hr hid hat hfollows hrun
    dsimp only [afterRule]
    rw [if_neg hother, ih' depth (n + 1) _ _ rest _ hfollow hdefined
      (by rwa [Nat.add_assoc, Nat.add_comm 1]) (by omega) hat']
    omega

/-- The first element of a sequence, and then the others. -/
theorem needs_cons (predictive : g.Predictive starts follow) {e : Element}
    {es : List Element} {m a b : Nat}
    {us vs : List Token} (counts : e.Counts m) (hd : Derives g (.copies e m) (us.map (·.kind)))
    (hd' : Derives g (.elements es) (vs.map (·.kind)))
    (ih : (Phrase.copies e m).Needs g starts follow separator us a)
    (ih' : (Phrase.elements es).Needs g starts follow separator vs b) :
    (Phrase.elements (e :: es)).Needs g starts follow separator (us ++ vs) (max a b) := by
  intro depth after s rest children steered hdefined hat hrest
  rw [List.append_assoc] at hat
  have hfollow := steered.follows (comes_mem_ahead predictive hd' hrest)
  have hfuel := predictive.copies_lt hd hat
  have hdefined' := hdefined e List.mem_cons_self
  obtain ⟨-, -, -, steered⟩ := steered
  have hcounts : e.Counts (0 + m) := by rwa [Nat.zero_add]
  have hneeds := ih depth 0 _ s (vs ++ rest) children hfollow hdefined' hcounts hfuel hat
  rw [List.map_cons, parseElements]
  cases hrun : parseElement g.ready separator (parseRule g.ready separator depth)
    (e.ready g.facts) (s.bound + 2) 0
      children s with
  | error place =>
    rw [hrun] at hneeds
    have hdeep : ¬ a ≤ depth := fun hle => not_enough_error place (hneeds.2 hle)
    refine iff_of_false (not_enough_error place) fun hle => hdeep ?_
    omega
  | ok result =>
    obtain ⟨children', s'⟩ := result
    have hle := hneeds.1 ⟨_, hrun⟩
    obtain ⟨ts, hgrows, rfl⟩ := hd.grows rfl
    obtain ⟨-, hat'⟩ := hgrows.regrows predictive depth 0 _ s (vs ++ rest) children children' s'
      hfollow hdefined' hcounts
      hfuel hat hrun
    dsimp only
    rw [ih' depth after s' rest children' steered (fun x hx =>
      hdefined x (List.mem_cons_of_mem _ hx)) hat' hrest]
    omega

/-- A rule takes one level more than what is in it. -/
theorem needs_rule (predictive : g.Predictive starts follow) {r : Rule} (hr : r ∈ g.rules)
    {es : List Element} (hes : es ∈ r.alternatives) {us : List Token} {a : Nat}
    (hd : Derives g (.elements es) (us.map (·.kind)))
    (ih : (Phrase.elements es).Needs g starts follow separator us a) :
    (Phrase.rule r.id).Needs g starts follow separator us (a + 1) := by
  intro q hq hid depth s rest hat hrest
  obtain rfl : q = r := List.inj_on_of_nodup_map predictive.distinct hq hr hid
  cases depth with
  | zero => exact iff_of_false (not_enough_error _) (Nat.not_succ_le_zero a)
  | succ depth =>
    obtain ⟨alternative, hchoose, helements⟩ := chooseAlternative_at predictive hr hes hd hat
    have hneeds := ih depth _ s rest [] (predictive.steered q hr es hes)
      (fun e he id hid => predictive.exists_rule hr hes he hid) hat hrest
    rw [parseRule, hchoose]
    dsimp only
    rw [helements, Nat.succ_le_succ_iff, ← hneeds]
    cases hrun : parseElements g.ready separator (parseRule g.ready separator depth)
      (es.map (Element.ready g.facts)) []
        s with
    | error place => exact iff_of_false (not_enough_error place) (not_enough_error place)
    | ok result => exact iff_of_true (enough_ok _) (enough_ok result)

/-- The parser needs as many levels as rules stand within one another. -/
theorem Nested.parses (predictive : g.Predictive starts follow) {p : Phrase}
    {ks : List Kind} {a : Nat}
    (h : Nested g p ks a) {us : List Token} (hus : us.map (·.kind) = ks) :
    p.Needs g starts follow separator us a := by
  induction h generalizing us with
  | rule hr hes h ih => exact needs_rule predictive hr hes (hus ▸ h.derives) (ih hus)
  | nil =>
    intro depth after s rest children _ _ _ _
    exact iff_of_true (enough_ok _) (Nat.zero_le depth)
  | cons counts h h' ih ih' =>
    obtain ⟨us, vs, rfl, hus, hvs⟩ := List.map_eq_append_iff.1 hus
    exact needs_cons predictive counts (hus ▸ h.derives) (hvs ▸ h'.derives) (ih hus) (ih' hvs)
  | none =>
    rw [List.map_eq_nil_iff.1 hus]
    exact needs_none predictive
  | token he _ ih =>
    obtain ⟨u, us, rfl, rfl, htail⟩ := List.map_eq_cons_iff.1 hus
    exact needs_token he (ih htail)
  | copy he h h' ih ih' =>
    obtain ⟨us, vs, rfl, hus, hvs⟩ := List.map_eq_append_iff.1 hus
    exact needs_copy predictive he (hus ▸ h.derives) (hvs ▸ h'.derives) (ih hus) (ih' hvs)

end Threshold

/-- A parse that fails because its text is nested too deeply. -/
def TooComplex (out : Except ParseFault Tree) : Prop :=
  ∃ fault, out = .error fault ∧ fault.error.reason = .tooComplex

theorem tooComplex_tooDeep (limit : Nat) (place : Lexical.Place) :
    TooComplex (.error (.tooDeep limit place)) :=
  ⟨_, rfl, rfl⟩

theorem not_tooComplex_verdict (tree : Option Tree) (s : State) :
    ¬ TooComplex (verdict tree s) := by
  rintro ⟨fault, hfault, hreason⟩
  unfold verdict at hfault
  split at hfault
  · cases hfault
  · cases hfault
    cases hreason

/-- A parse gives up exactly if its first rule runs out of depth. -/
theorem tooComplex_parse (l : Lexer) (text : Text) {r : ReadyRule}
    (hr : expressionReady.rule? expressionReady.start = some r) :
    TooComplex (parse l text) ↔ ¬ Enough (parseRule expressionReady l.options.separator
      l.options.depth r
      (State.start (l.read text).1 (l.read text).2)) := by
  rw [parse_eq l text hr]
  cases parseRule expressionReady l.options.separator l.options.depth r
    (State.start (l.read text).1 (l.read text).2) with
  | error place => exact iff_of_true (tooComplex_tooDeep _ place) (not_enough_error place)
  | ok result => exact iff_of_false (not_tooComplex_verdict _ _) (not_not_intro (enough_ok result))

section Limited

/-- The lexical settings with another limit of the depth. -/
def limited (o : Options) (d : Int) : Options := { o with maxDepth := d }

theorem depth_limited (o : Options) {d : Int} (hd : 1 ≤ d) : (limited o d).depth = d.toNat :=
  if_neg (by show ¬ d ≤ 0; omega)

theorem patterns_limited (o : Options) (d : Int) : (limited o d).patterns = o.patterns := rfl

theorem dictionary_limited (o : Options) (d : Int) :
    (Lexer.ofOptions (limited o d)).dictionary = (Lexer.ofOptions o).dictionary := by
  rw [Lexer.ofOptions, Lexer.ofOptions, patterns_limited]

theorem scanners_limited (o : Options) (d : Int) :
    Lexical.scanners (Lexer.ofOptions (limited o d)).options =
      Lexical.scanners (Lexer.ofOptions o).options := rfl

/-- The limit of the depth is nothing to the lexer. -/
theorem tokenAt?_limited (o : Options) (d : Int) (gs : List Text.Glyph) :
    (Lexer.ofOptions (limited o d)).tokenAt? gs = (Lexer.ofOptions o).tokenAt? gs := by
  rw [Lexer.tokenAt?, Lexer.tokenAt?, dictionary_limited, scanners_limited]

theorem lexemes_limited (o : Options) (d : Int) (place : Lexical.Place) (gs : List Text.Glyph) :
    (Lexer.ofOptions (limited o d)).lexemes place gs = (Lexer.ofOptions o).lexemes place gs := by
  fun_induction (Lexer.ofOptions o).lexemes place gs with
  | case1 => rw [Lexer.lexemes]
  | case2 place g rest hblank ih => rw [Lexer.lexemes, if_pos hblank, ih]
  | case3 place g rest hblank hnone more last hmore ih =>
    rw [Lexer.lexemes, if_neg hblank, tokenAt?_limited, hnone]
    dsimp only
    rw [ih, hmore]
  | case4 place g rest hblank k n hsome taken more last hmore ih =>
    rw [Lexer.lexemes, if_neg hblank, tokenAt?_limited, hsome]
    dsimp only
    rw [ih, hmore]

theorem read_limited (o : Options) (d : Int) (text : Text) :
    (Lexer.ofOptions (limited o d)).read text = (Lexer.ofOptions o).read text := by
  rw [Lexical.read_eq, Lexical.read_eq, Lexer.outline, lexemes_limited, Lexer.outline]

end Limited

/-- The limit of the depth only rejects: every parse comes to an end; one that does not give up
comes to the same with every higher limit; and a text of the language is given up exactly if more
rules stand within one another in its derivation than the limit allows. -/
theorem parse_limited (o : Options) (text : Text) (d : Int) (hd : 1 ≤ d) :
    TextEnds expressionReady (.ofOptions (limited o d)) text
      (parse (.ofOptions (limited o d)) text) ∧
      (¬ TooComplex (parse (.ofOptions (limited o d)) text) →
        ∀ d', d ≤ d' → parse (.ofOptions (limited o d')) text =
          parse (.ofOptions (limited o d)) text) ∧
      (((Lexer.ofOptions o).tokenize text).2 = [] →
        Derives expressionGrammar (.rule Form.expression.number)
          (((Lexer.ofOptions o).tokenize text).1.map (·.kind)) →
        (∃ a, Nested expressionGrammar (.rule Form.expression.number)
          (((Lexer.ofOptions o).tokenize text).1.map (·.kind)) a) ∧
        ∀ a, Nested expressionGrammar (.rule Form.expression.number)
          (((Lexer.ofOptions o).tokenize text).1.map (·.kind)) a →
          (TooComplex (parse (.ofOptions (limited o d)) text) ↔ d < a)) := by
  obtain ⟨r, hr, hid, hrule⟩ := exists_startRule
  refine ⟨textEnds_parse _ text, fun henough d' hle => ?_, fun hnone hderives =>
    ⟨hderives.nested, fun a ha => ?_⟩⟩
  · rw [tooComplex_parse _ _ hrule, not_not] at henough
    obtain ⟨⟨tree, s⟩, hrun⟩ := henough
    have hdepth : (limited o d).depth ≤ (limited o d').depth := by
      rw [depth_limited o hd, depth_limited o (hd.trans hle)]
      omega
    have hrun' : parseRule expressionReady (Lexer.ofOptions (limited o d')).options.separator
        (Lexer.ofOptions (limited o d')).options.depth (r.ready expressionGrammar.facts)
        (State.start ((Lexer.ofOptions (limited o d)).read text).1
          ((Lexer.ofOptions (limited o d)).read text).2) =
          .ok (tree, s) := parseRule_mono hdepth _ _ _ hrun
    rw [parse_eq _ text hrule, parse_eq _ text hrule, read_limited o d',
      ← read_limited o d, hrun, hrun']
    rfl
  · have hat := start_at hnone
    rw [tooComplex_parse _ _ hrule, read_limited]
    have hend : comes [] ∈ byNumber Form.follows Form.expression.number := by decide
    have hlimit : Enough (parseRule expressionReady o.separator (limited o d).depth
      (r.ready expressionGrammar.facts)
        (State.start ((Lexer.ofOptions o).read text).1 ((Lexer.ofOptions o).read text).2)) ↔
          a ≤ d.toNat := by
      rw [depth_limited o hd]
      exact ha.parses expressionGrammar_predictive rfl r hr hid d.toNat _ []
        (by rwa [List.append_nil]) hend
    refine (not_congr hlimit).trans ?_
    omega

/-- The number `1` takes fifteen rules within one another. -/
theorem parse_limited_one :
    TooComplex (parse (.ofOptions (limited {} 14)) (Text.ofString "1")) ∧
      (∃ t, parse (.ofOptions (limited {} 15)) (Text.ofString "1") = .ok t) ∧
      parse (.ofOptions (limited {} 100)) (Text.ofString "1") =
        parse (.ofOptions (limited {} 15)) (Text.ofString "1") ∧
      Nested expressionGrammar (.rule Form.expression.number)
        (((Lexer.ofOptions {}).tokenize (Text.ofString "1")).1.map (·.kind)) 15 := by
  have hdeep : (match parse (.ofOptions (limited {} 14)) (Text.ofString "1") with
      | .error (.tooDeep ..) => true
      | _ => false) = true := by
    rw [parse_standing]
    decide +kernel
  have hfits : (match parse (.ofOptions (limited {} 15)) (Text.ofString "1") with
      | .ok _ => true
      | _ => false) = true := by
    rw [parse_standing]
    decide +kernel
  have hdeep : TooComplex (parse (.ofOptions (limited {} 14)) (Text.ofString "1")) := by
    split at hdeep
    · rename_i hparse
      exact hparse ▸ tooComplex_tooDeep _ _
    · cases hdeep
  have hfits : ∃ t, parse (.ofOptions (limited {} 15)) (Text.ofString "1") = .ok t := by
    split at hfits
    · rename_i hparse
      exact ⟨_, hparse⟩
    · cases hfits
  obtain ⟨t, ht⟩ := hfits
  have hnot : ¬ TooComplex (parse (.ofOptions (limited {} 15)) (Text.ofString "1")) := by
    rw [ht]
    rintro ⟨fault, hfault, -⟩
    cases hfault
  obtain ⟨-, hsame, hfifteen⟩ := parse_limited {} (Text.ofString "1") 15 (by decide)
  obtain ⟨-, -, hfourteen⟩ := parse_limited {} (Text.ofString "1") 14 (by decide)
  obtain ⟨hnone, -, hderives⟩ := parse_sound ht
  rw [Lexer.tokenize, read_limited] at hnone hderives
  obtain ⟨⟨a, ha⟩, hlimit⟩ := hfifteen hnone hderives
  have habove := ((hfourteen hnone hderives).2 a ha).1 hdeep
  have hbelow := mt (hlimit a ha).2 hnot
  obtain rfl : a = 15 := by omega
  exact ⟨hdeep, ⟨t, ht⟩, hsame hnot 100 (by decide), ha⟩

end Formulary.Grammar
