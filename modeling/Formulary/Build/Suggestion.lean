import Formulary.Text.Case
import Formulary.Text.Quote

/-!
# Suggestions

Names offered in place of one that is not known: first those that contain it as a subsequence in any
letter case, the closest first, then those within a small edit distance.
-/

namespace Formulary.Build

def isSubsequence : List Nat → List Nat → Bool
  | [], _ => true
  | _ :: _, [] => false
  | a :: as, b :: bs => if a == b then isSubsequence as bs else isSubsequence (a :: as) bs

/-- The next row of the table of edit distances: `row` holds the distances of a text to the
beginnings of the other one, `left` is the distance already entered on the left. -/
def editRow (c : Nat) (left : Nat) : List Nat → List Nat → List Nat
  | d :: corner :: row, a :: as =>
    let best := min (min (corner + 1) (left + 1)) (if a == c then d else d + 1)
    left :: editRow c best (corner :: row) as
  | _, _ => [left]

/-- The number of characters to insert, delete or replace to turn one text into another. -/
def editDistance (a b : List Nat) : Nat :=
  let first := List.range (a.length + 1)
  let last := b.zipIdx.foldl (fun row (c, i) => editRow c (i + 1) row a) first
  last.getLastD 0

/-- Whether a name is contained in another as a subsequence, letter case aside. -/
def resembles (name known : String) : Bool :=
  let n := Text.simpleLower (Text.ofString name)
  let k := Text.simpleLower (Text.ofString known)
  n.length ≤ k.length && isSubsequence n.codes k.codes

def nameDistance (a b : Text) : Nat := editDistance a.codes b.codes

def mostSuggestions : Nat := 3

/-- The names offered for a name among known ones. -/
def suggestions (name : String) (known : List String) : List String :=
  let distance (k : String) : Nat := nameDistance (Text.ofString name) (Text.ofString k)
  let alike := (known.filter (resembles name)).mergeSort fun a b => distance a ≤ distance b
  let small := Text.simpleLower (Text.ofString name)
  let limit := max 1 ((Text.ofString name).length / 3)
  let near := known.filter fun k => nameDistance small (Text.simpleLower (Text.ofString k)) ≤ limit
  (((alike ++ near).eraseDups).filter (· != name)).take mostSuggestions

def withSuggestions (message name : String) (known : List String) : String :=
  match suggestions name known with
  | [] => message
  | names => message ++ "; did you mean " ++ " or ".intercalate (names.map Text.quoteString) ++ "?"

end Formulary.Build
