import Formulary.Yaml.Scan

/-!
# The nodes of a document

A node is a scalar, a sequence or a mapping. Nodes are read from the tokens of a document by the
rules of block and flow collections; an alias is the node of its anchor again.
-/

namespace Formulary.Yaml

inductive Node where
  | scalar (line : Nat) (tag : Option String) (plain : Bool) (text : String)
  | sequence (line : Nat) (tag : Option String) (items : List Node)
  | mapping (line : Nat) (tag : Option String) (keys values : List Node)
  deriving Inhabited

namespace Node

def line : Node → Nat
  | .scalar line .. | .sequence line .. | .mapping line .. => line

def absent (place : Place) : Node := .scalar (place.line + 1) none true ""

end Node

def sameKey : Node → Node → Bool
  | .scalar _ _ _ a, .scalar _ _ _ b => a == b
  | .sequence .., .sequence .. => true
  | .mapping .., .mapping .. => true
  | _, _ => false

/-- Whether a key merges the mapping behind it. -/
def isMerge : Node → Bool
  | .scalar _ tag plain s => s == "<<" && plain && (tag.isNone || tag == some "!!merge")
  | _ => false

/-- The pairs of some keys and values with those of a mapping whose keys are not among them. -/
def mergeInto (pairs : List (Node × Node)) : Node → Option (List (Node × Node))
  | .mapping _ _ ks vs => some (pairs ++ (ks.zip vs).filter fun p =>
      !(pairs.any fun q => sameKey q.1 p.1))
  | _ => none

/-- A mapping of keys and values. Where a key asks for it, the mapping behind it, or each of a
sequence of them, adds the keys that are not there yet. -/
def Node.ofPairs (line : Nat) (tag : Option String) (ks vs : List Node) : Except Fault Node :=
  let pairs := ks.zip vs
  let own := pairs.filter fun p => !isMerge p.1
  let merged :=
    match (pairs.reverse.find? fun p => isMerge p.1).map (·.2) with
    | none => some own
    | some (.sequence _ _ items) => items.foldlM mergeInto own
    | some n => mergeInto own n
  match merged with
  | some pairs => .ok (.mapping line tag (pairs.map (·.1)) (pairs.map (·.2)))
  | none => .error ⟨"map merge requires map or sequence of maps as the value", 0⟩

/-- The short form of a tag as it is written; a bare mark is no tag. -/
def shortTag? (written : String) : Option String :=
  if written == "!" then none
  else if written.startsWith "!<tag:yaml.org,2002:" then
    some ("!!" ++ ((written.drop 20).dropEnd 1).toString)
  else if written.startsWith "!<" then some ((written.drop 2).dropEnd 1).toString
  else some written

/-- The state of reading nodes: the number of the next token, and the anchors with their nodes. The
node of an anchor is missing while it is read. -/
structure Reading where
  position : Nat
  anchors : List (String × Option Node) := []

variable (ts : Tokens)

def Reading.peek (r : Reading) : Except Fault Token := ts.get r.position

def Reading.skip (r : Reading) : Reading := { r with position := r.position + 1 }

/-- The anchor and the tag before a node, in any order. -/
def properties : Nat → Option String → Option String → Reading →
    Except Fault (Option String × Option String × Reading)
  | 0, anchor, tag, r => .ok (anchor, tag, r)
  | fuel + 1, anchor, tag, r => do
    match (← r.peek ts).sign with
    | .anchor name =>
      if anchor.isSome then .ok (anchor, tag, r) else properties fuel (some name) tag r.skip
    | .tag name =>
      if tag.isSome then .ok (anchor, tag, r) else properties fuel anchor (some name) r.skip
    | _ => .ok (anchor, tag, r)

mutual

/-- Reads a node. In a block it may be a block collection; the value of a key may be a sequence that
is not indented further. -/
def readNode : Nat → Bool → Bool → Reading → Except Fault (Node × Reading)
  | 0, _, _, r => .ok (.absent {}, r)
  | fuel + 1, block, indentless, r => do
    let first ← r.peek ts
    match first.sign with
    | .alias name =>
      match r.anchors.find? (·.1 == name) with
      | some (_, some node) => .ok (node, r.skip)
      | some (_, none) => .error ⟨s!"anchor '{name}' value contains itself", 0⟩
      | none => .error ⟨s!"unknown anchor '{name}' referenced", 0⟩
    | _ =>
      let (anchor, written, r) ← properties ts 2 none none r
      let tag := written.bind shortTag?
      let r := match anchor with
        | some name => { r with anchors := (name, none) :: r.anchors }
        | none => r
      let token ← r.peek ts
      let line := first.place.line + 1
      let absent : Except Fault (Node × Reading) :=
        if anchor.isSome || written.isSome then .ok (.scalar line tag true "", r)
        else .error (.ofStructure first.place token.place "did not find expected node content")
      let (node, r) ←
        match token.sign with
        | .scalar plain text => .ok (.scalar line tag plain text, r.skip)
        | .flowSequence =>
          (readItems fuel token.place true [] r.skip).map fun (items, r) =>
          (.sequence line tag items, r)
        | .flowMapping =>
          let (ks, vs, r) ← readPairs fuel token.place true [] [] r.skip
          .ok (← Node.ofPairs line tag ks vs, r)
        | .dash =>
          if indentless then
            (readLevel fuel [] r).map fun (items, r) => (.sequence line tag items, r)
          else absent
        | .blockSequence =>
          if block then
            (readEntries fuel token.place [] r.skip).map fun (items, r) =>
            (.sequence line tag items, r)
          else absent
        | .blockMapping =>
          if block then
            let (ks, vs, r) ← readKeys fuel token.place [] [] r.skip
            .ok (← Node.ofPairs line tag ks vs, r)
          else absent
        | _ => absent
      let r := match anchor with
        | some name => { r with anchors := (name, some node) :: r.anchors }
        | none => r
      .ok (node, r)

def readEntries : Nat → Place → List Node → Reading → Except Fault (List Node × Reading)
  | 0, _, items, r => .ok (items, r)
  | fuel + 1, start, items, r => do
    let token ← r.peek ts
    match token.sign with
    | .dash =>
      let r := r.skip
      let after ← r.peek ts
      if after.sign == .dash || after.sign == .blockEnd then
        readEntries fuel start (items ++ [.absent token.place]) r
      else
        let (item, r) ← readNode fuel true false r
        readEntries fuel start (items ++ [item]) r
    | .blockEnd => .ok (items, r.skip)
    | _ => .error (.ofStructure start token.place "did not find expected '-' indicator")

/-- Reads the entries of a sequence that is indented like the key it belongs to. -/
def readLevel : Nat → List Node → Reading → Except Fault (List Node × Reading)
  | 0, items, r => .ok (items, r)
  | fuel + 1, items, r => do
    let token ← r.peek ts
    if token.sign == .dash then
      let r := r.skip
      let after ← r.peek ts
      if [Sign.dash, .key, .value, .blockEnd].contains after.sign then
        readLevel fuel (items ++ [.absent token.place]) r
      else
        let (item, r) ← readNode fuel true false r
        readLevel fuel (items ++ [item]) r
    else .ok (items, r)

def readKeys : Nat → Place → List Node → List Node → Reading →
    Except Fault (List Node × List Node × Reading)
  | 0, _, ks, vs, r => .ok (ks, vs, r)
  | fuel + 1, start, ks, vs, r => do
    let token ← r.peek ts
    match token.sign with
    | .key =>
      let (k, r) ← readPart fuel token r.skip
      let colon ← r.peek ts
      if colon.sign == .value then
        let (v, r) ← readPart fuel colon r.skip
        readKeys fuel start (ks ++ [k]) (vs ++ [v]) r
      else readKeys fuel start (ks ++ [k]) (vs ++ [.absent colon.place]) r
    | .blockEnd => .ok (ks, vs, r.skip)
    | _ => .error (.ofStructure start token.place "did not find expected key")

/-- Reads the key or the value behind a mark of a block mapping, which may be absent. -/
def readPart : Nat → Token → Reading → Except Fault (Node × Reading)
  | 0, mark, r => .ok (.absent mark.place, r)
  | fuel + 1, mark, r => do
    let token ← r.peek ts
    if [Sign.key, .value, .blockEnd].contains token.sign then .ok (.absent mark.place, r)
    else readNode fuel true true r

/-- Reads the items of a sequence in brackets. A pair among them is a mapping of its own. -/
def readItems : Nat → Place → Bool → List Node → Reading → Except Fault (List Node × Reading)
  | 0, _, _, items, r => .ok (items, r)
  | fuel + 1, start, first, items, r => do
    let token ← r.peek ts
    if token.sign == .flowSequenceEnd then .ok (items, r.skip)
    else if !first && token.sign != .comma then
      .error (.ofStructure start token.place "did not find expected ',' or ']'")
    else
      let r := if first then r else r.skip
      let token ← r.peek ts
      match token.sign with
      | .flowSequenceEnd => .ok (items, r.skip)
      | .key =>
        let (k, r) ← readFlowPart fuel token .flowSequenceEnd true r.skip
        let (v, r) ← readFlowValue fuel .flowSequenceEnd r
        readItems fuel start false (items ++ [.mapping (token.place.line + 1) none [k] [v]]) r
      | _ =>
        let (item, r) ← readNode fuel false false r
        readItems fuel start false (items ++ [item]) r

/-- Reads the key or the value behind a mark within brackets, which may be absent. -/
def readFlowPart : Nat → Token → Sign → Bool → Reading → Except Fault (Node × Reading)
  | 0, mark, _, _, r => .ok (.absent mark.place, r)
  | fuel + 1, mark, close, isKey, r => do
    let token ← r.peek ts
    if (isKey && token.sign == .value) || token.sign == .comma || token.sign == close then
      .ok (.absent mark.place, r)
    else readNode fuel false false r

def readFlowValue : Nat → Sign → Reading → Except Fault (Node × Reading)
  | 0, _, r => .ok (.absent {}, r)
  | fuel + 1, close, r => do
    let token ← r.peek ts
    if token.sign == .value then readFlowPart fuel token close false r.skip
    else .ok (.absent token.place, r)

/-- Reads the keys and values of a mapping in brackets. -/
def readPairs : Nat → Place → Bool → List Node → List Node → Reading →
    Except Fault (List Node × List Node × Reading)
  | 0, _, _, ks, vs, r => .ok (ks, vs, r)
  | fuel + 1, start, first, ks, vs, r => do
    let token ← r.peek ts
    if token.sign == .flowMappingEnd then .ok (ks, vs, r.skip)
    else if !first && token.sign != .comma then
      .error (.ofStructure start token.place "did not find expected ',' or '\x7d'")
    else
      let r := if first then r else r.skip
      let token ← r.peek ts
      match token.sign with
      | .flowMappingEnd => .ok (ks, vs, r.skip)
      | .key =>
        let (k, r) ← readFlowPart fuel token .flowMappingEnd true r.skip
        let (v, r) ← readFlowValue fuel .flowMappingEnd r
        readPairs fuel start false (ks ++ [k]) (vs ++ [v]) r
      | _ =>
        let (k, r) ← readNode fuel false false r
        readPairs fuel start false (ks ++ [k]) (vs ++ [.absent token.place]) r

end

/-- The number of the first token that is no directive. -/
def afterDirectives : Nat → Nat → Except Fault Nat
  | 0, n => .ok n
  | fuel + 1, n => do if (← ts.get n).sign == .directive then
      afterDirectives fuel (n + 1) else .ok n

/-- Reads the root from the token of a number. What follows it has to be a token, too. -/
def readRoot (fuel n : Nat) : Except Fault (Option Node) := do
  let (node, r) ← readNode ts fuel true false ⟨n, []⟩
  let _ ← r.peek ts
  .ok (some node)

/-- The first document of a text; an empty text has none. -/
def Node.read? (document : List Char) : Except Fault (Option Node) := do
  let ts := Tokens.read document
  let _ ← ts.get 0
  let n ← afterDirectives ts ts.list.size 1
  let token ← ts.get n
  let fuel := 8 * ts.list.size + 8
  match token.sign with
  | .streamEnd => .ok none
  | .documentStart =>
    let after ← ts.get (n + 1)
    if [Sign.directive, .documentStart, .documentEnd, .streamEnd].contains after.sign then
      .ok (some (.absent after.place))
    else readRoot ts fuel (n + 1)
  | _ =>
    if n == 1 then readRoot ts fuel 1
    else .error (.ofStructure {} token.place "did not find expected <document start>")

end Formulary.Yaml
