/-! # Glob patterns

A pattern is matched against a whole text, character by character; the slash is a character like
any other to `?`, `*` and sets. Two stars in a row stand for whole folders: they must fill the
space between slashes, take the slash behind them along, and match nothing, any text that ends
with a slash, or all that is left. There are no escapes. These are the patterns that the `glob`
library documents, matched with its usual options.
-/

namespace LayerGuard

namespace Glob

/-- A member of a character set. -/
inductive Member where
  | one (c : Char)
  | range (low high : Char)
  deriving DecidableEq, Repr

/-- A part of a pattern. -/
inductive Token where
  | literal (c : Char)
  | anyChar
  | anyRun
  | anyFolders
  | oneOf (set : List Member)
  | noneOf (set : List Member)
  deriving DecidableEq, Repr

/-- The members of a set as written; a dash between two characters makes a range. -/
def members : List Char → List Member
  | low :: '-' :: high :: rest => .range low high :: members rest
  | c :: rest => .one c :: members rest
  | [] => []

def inSet (set : List Member) (c : Char) : Bool :=
  set.any fun
    | .one d => c == d
    | .range low high => low ≤ c && c ≤ high

/-- The set behind an opening bracket: at least one character, up to the next closing bracket.
Gives the characters of the set and what follows the bracket. -/
def setText? : List Char → Option (List Char × List Char)
  | [] => none
  | first :: rest =>
    let more := rest.takeWhile (· != ']')
    match rest.drop more.length with
    | _ :: behind => some (first :: more, behind)
    | [] => none

/-- The set that an opening bracket begins, and what follows it. -/
def set? : List Char → Option (Token × List Char)
  | '!' :: rest => (setText? rest).map fun (text, behind) => (.noneOf (members text), behind)
  | rest => (setText? rest).map fun (text, behind) => (.oneOf (members text), behind)

/-- The tokens of a pattern from some place on, where `previous?` is the character before that
place. Each round of fuel reads one token. -/
def tokens? (fuel : Nat) (previous? : Option Char) (cs : List Char) : Option (List Token) :=
  match fuel, cs with
  | _, [] => some []
  | 0, _ => none
  | fuel + 1, '?' :: rest => (tokens? fuel (some '?') rest).map (.anyChar :: ·)
  | fuel + 1, '*' :: rest =>
    let more := (rest.takeWhile (· == '*')).length
    let behind := rest.drop more
    if more == 0 then (tokens? fuel (some '*') rest).map (.anyRun :: ·)
    else if more == 1 && (previous?.isNone || previous? == some '/') then
      match behind with
      | [] => some [.anyFolders]
      | '/' :: rest => (tokens? fuel (some '/') rest).map (.anyFolders :: ·)
      | _ => none
    else none
  | fuel + 1, '[' :: rest =>
    match set? rest with
    | some (token, behind) => (tokens? fuel (some ']') behind).map (token :: ·)
    | none => none
  | fuel + 1, c :: rest => (tokens? fuel (some c) rest).map (.literal c :: ·)

/-- The texts left when something is taken off the front, the whole text first. -/
def suffixes : List Char → List (List Char)
  | [] => [[]]
  | c :: cs => (c :: cs) :: suffixes cs

/-- The texts that follow a slash. -/
def behindSlashes : List Char → List (List Char)
  | [] => []
  | c :: cs => if c == '/' then cs :: behindSlashes cs else behindSlashes cs

def Token.accepts : Token → Char → Bool
  | .literal d, c => c == d
  | .anyChar, _ => true
  | .oneOf set, c => inSet set c
  | .noneOf set, c => !inSet set c
  | .anyRun, _ => false
  | .anyFolders, _ => false

def matchTokens : List Token → List Char → Bool
  | [], cs => cs.isEmpty
  | .anyRun :: tokens, cs => (suffixes cs).any fun rest => matchTokens tokens rest
  | .anyFolders :: tokens, cs =>
    matchTokens tokens cs || (behindSlashes cs).any (fun rest => matchTokens tokens rest) ||
      matchTokens tokens []
  | token :: tokens, c :: cs => token.accepts c && matchTokens tokens cs
  | _ :: _, [] => false

end Glob

/-- A well-formed glob pattern. -/
structure Glob where
  tokens : List Glob.Token
  deriving DecidableEq, Repr

namespace Glob

/-- The pattern that a text writes down, if it is well-formed. -/
def parse? (s : String) : Option Glob :=
  (tokens? s.length none s.toList).map Glob.mk

def isMatch (g : Glob) (s : String) : Bool := matchTokens g.tokens s.toList

def matcher? (s : String) : Option (String → Bool) := (parse? s).map isMatch

end Glob
end LayerGuard
