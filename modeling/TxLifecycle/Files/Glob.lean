/-!
# Name patterns

Patterns for paths, read and matched byte by byte:

* `?` is one byte and `*` any run of bytes, but never a slash;
* `**` as a whole component is any number of components;
* `[a-z]` is one byte of a set and `[!a-z]` or `[^a-z]` one byte outside it;
* `{a,b}` is either of several patterns;
* a backslash takes the next character for itself.
-/

namespace TxLifecycle

inductive Piece where
  | byte (b : UInt8)
  | one
  | run
  /-- Any number of components at the front. -/
  | leading
  /-- Any number of components at the end, with a slash before them. -/
  | trailing
  /-- Any number of components, with a slash on both sides. -/
  | between
  /-- A byte in one of the ranges, or in none of them. -/
  | oneOf (negated : Bool) (ranges : List (UInt8 × UInt8))
  | either (branches : List (List Piece))
deriving Inhabited

def slash : UInt8 := 47

namespace Piece

def afterSlashes : List UInt8 → List (List UInt8)
  | [] => []
  | b :: rest => (if b == slash then [rest] else []) ++ afterSlashes rest

/-- What is left after each run without a slash. -/
def afterRuns : List UInt8 → List (List UInt8)
  | [] => [[]]
  | b :: rest => (b :: rest) :: (if b == slash then [] else afterRuns rest)

def ends : List UInt8 → List (List UInt8)
  | [] => [[]]
  | b :: rest => (b :: rest) :: ends rest

/-- Keep one of several ends of the same length. -/
def distinct (rests : List (List UInt8)) : List (List UInt8) :=
  rests.eraseDupsBy fun a b => a.length == b.length

/-- What is left of an input if its first byte has a property. -/
def afterOne (p : UInt8 → Bool) : List UInt8 → List (List UInt8)
  | [] => []
  | b :: rest => if p b then [rest] else []

/-- The byte lies in one of the ranges. -/
def inRanges (ranges : List (UInt8 × UInt8)) (b : UInt8) : Bool :=
  ranges.any fun (lo, hi) => lo ≤ b && b ≤ hi

mutual

/-- Nothing is left of the piece but branches without content. -/
def isVoid : Piece → Bool
  | .either branches => allVoid branches
  | _ => false

def isVoidList : List Piece → Bool
  | [] => true
  | p :: ps => p.isVoid && isVoidList ps

def allVoid : List (List Piece) → Bool
  | [] => true
  | b :: bs => isVoidList b && allVoid bs

end

mutual

/-- What can be left of an input after a piece. -/
def rests (input : List UInt8) : Piece → List (List UInt8)
  | .byte b => afterOne (· == b) input
  | .one => afterOne (· != slash) input
  | .run => afterRuns input
  | .leading => input :: afterSlashes input
  | .trailing => (afterOne (· == slash) input).flatMap ends
  | .between => (afterOne (· == slash) input).flatMap fun rest => rest :: afterSlashes rest
  | .oneOf negated ranges => afterOne (fun b => inRanges ranges b != negated) input
  | .either branches => if allVoid branches then [input] else branchRests input branches

/-- What can be left of one of several inputs after pieces. -/
def listRests (inputs : List (List UInt8)) : List Piece → List (List UInt8)
  | [] => inputs
  | p :: ps => listRests (distinct (inputs.flatMap fun input => rests input p)) ps

/-- What can be left of an input after one of several branches; a branch without content counts
for nothing beside others. -/
def branchRests (input : List UInt8) : List (List Piece) → List (List UInt8)
  | [] => []
  | b :: bs => (if isVoidList b then [] else listRests [input] b) ++ branchRests input bs

end

end Piece

structure Glob where
  pieces : List Piece
deriving Inhabited

namespace Glob

/-- The pattern fits the whole path. A pattern that is nothing but `**` fits every path. -/
def fits (glob : Glob) (path : List UInt8) : Bool :=
  match glob.pieces with
  | [.leading] => true
  | pieces => (Piece.listRests [path] pieces).any List.isEmpty

/-- What has been read of a pattern. Pieces stand in reverse. -/
structure Draft where
  current : List Piece := []
  /-- For each open brace, the branches before this one and the pieces before the brace. -/
  outer : List (List (List Piece) × List Piece) := []
  previous : Option Char := none
  /-- A bracket was found that is never closed. -/
  unclosed : Bool := false

def Draft.push (draft : Draft) (pieces : List Piece) (previous : Char) : Draft :=
  { draft with current := pieces.reverse ++ draft.current, previous := some previous }

/-- The pieces of a character that stands for itself. -/
def literal (c : Char) : List Piece :=
  (String.utf8EncodeChar c).map .byte

/-- What reading a set of characters gives. -/
inductive SetReading where
  | found (negated : Bool) (ranges : List (Char × Char)) (rest : List Char)
  | unclosed
  | malformed

/-- Read the members of a set. `inRange` holds after a dash that can join two of them. -/
def readMembers (negated first inRange : Bool) (ranges : List (Char × Char)) :
    List Char → SetReading
  | [] => .unclosed
  | c :: rest =>
    if c == ']' && !first then
      .found negated (ranges ++ if inRange then [('-', '-')] else []) rest
    else if c == '-' && !first && !inRange then readMembers negated false true ranges rest
    else if inRange then
      match ranges.getLast? with
      | some (low, _) =>
        if c < low then .malformed
        else readMembers negated false false (ranges.dropLast ++ [(low, c)]) rest
      | none => .malformed
    else readMembers negated false false (ranges ++ [(c, c)]) rest

/-- Read a set of characters after its opening bracket. -/
def readSet : List Char → SetReading
  | '!' :: rest => readMembers true true false [] rest
  | '^' :: rest => readMembers true true false [] rest
  | rest => readMembers false true false [] rest

/-- The byte ranges of a range of characters: the bytes of its ends one by one, and the range
between the last byte of the first end and the first byte of the second. -/
def byteRanges (range : Char × Char) : List (UInt8 × UInt8) :=
  let low := String.utf8EncodeChar range.1
  let high := String.utf8EncodeChar range.2
  let singles (bytes : List UInt8) := bytes.map fun b => (b, b)
  if range.1 == range.2 then singles low
  else singles low.dropLast ++ [(low.getLast?.getD 0, high.head?.getD 0)] ++ singles high.tail

/-- Read two stars. They stand for components if slashes or the ends of a pattern enclose them, and
take the slash with them; otherwise they are two runs. -/
def readStars (draft : Draft) (rest : List Char) : Draft × List Char :=
  let twoRuns := (draft.push [.run, .run] '*', rest)
  let ended := rest.isEmpty || rest.head? == some '/'
  let after := rest.head?.getD '*'
  let enclosed := draft.previous == some '/'
    || (!draft.outer.isEmpty && (draft.previous == some ',' || draft.previous == some '\x7b'))
  let inGroup := !draft.outer.isEmpty && (after == ',' || after == '\x7d')
  match draft.current with
  | [] => if ended then (draft.push [.leading] after, rest.drop 1) else twoRuns
  | last :: before =>
    if !enclosed || !(ended || inGroup) then twoRuns
    else
      let atEnd := rest.isEmpty || inGroup
      let piece := match last with
        | .leading => .leading
        | .trailing => .trailing
        | _ => if atEnd then .trailing else .between
      let previous := if atEnd then '*' else '/'
      ({ draft with current := piece :: before, previous := some previous },
        if atEnd then rest else rest.drop 1)

/-- Read the rest of a pattern. `lenient` takes a bracket that is never closed for itself. -/
def readFrom (lenient : Bool) : (fuel : Nat) → Draft → List Char → Option Draft
  | 0, _, _ => none
  | _, draft, [] => some draft
  | fuel + 1, draft, c :: rest =>
    match c with
    | '?' => readFrom lenient fuel (draft.push [.one] c) rest
    | '*' =>
      match rest with
      | '*' :: after =>
        let (draft, rest) := readStars draft after
        readFrom lenient fuel draft rest
      | _ => readFrom lenient fuel (draft.push [.run] c) rest
    | '\x7b' =>
      readFrom lenient fuel
        { draft with
          current := [], outer := ([], draft.current) :: draft.outer, previous := some c }
        rest
    | '\x7d' =>
      match draft.outer with
      | [] => none
      | (branches, before) :: outer =>
        let piece := Piece.either ((draft.current :: branches).reverse.map List.reverse)
        readFrom lenient fuel
          { draft with current := piece :: before, outer, previous := some c } rest
    | ',' =>
      match draft.outer with
      | [] => readFrom lenient fuel (draft.push (literal c) c) rest
      | (branches, before) :: outer =>
        readFrom lenient fuel
          { draft with
            current := [], outer := (draft.current :: branches, before) :: outer
            previous := some c }
          rest
    | '\\' =>
      match rest with
      | [] => none
      | d :: rest => readFrom lenient fuel (draft.push (literal d) d) rest
    | '[' =>
      if draft.unclosed then readFrom lenient fuel (draft.push (literal c) c) rest
      else match readSet rest with
        | .found negated ranges rest =>
          readFrom lenient fuel (draft.push [.oneOf negated (ranges.flatMap byteRanges)] ']') rest
        | .malformed => none
        | .unclosed =>
          if lenient then
            readFrom lenient fuel { draft.push (literal c) c with unclosed := true } rest
          else none
    | c => readFrom lenient fuel (draft.push (literal c) c) rest

/-- The pattern of a text; nothing if a brace or a set is malformed. -/
def parse? (lenient : Bool) (text : List Char) : Option Glob :=
  match readFrom lenient (text.length + 1) {} text with
  | some { current, outer := [], .. } => some ⟨current.reverse⟩
  | _ => none

end Glob

end TxLifecycle
