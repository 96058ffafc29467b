import LayerGuard.Text.Blank

/-! # The declared namespace of a source

The namespace of a source is looked for in its text, not in its tokens: it stands between the
first suitable word `namespace` and the semicolon after it. A word is suitable if a blank follows
it and at least two characters lie between it and its semicolon. When these are all blank the
source declares no namespace, and later words are not tried.
-/

namespace LayerGuard.Source

def declarationWord : List Char := "namespace".toList

/-- The text between a declaring word at the front of `cs` and its semicolon, if the word is
suitable. -/
def declarationText? (cs : List Char) : Option (List Char) :=
  if declarationWord.isPrefixOf cs then
    let behind := cs.drop declarationWord.length
    let body := behind.takeWhile (· != ';')
    if behind.head?.any Text.isBlank && body.length < behind.length && 2 ≤ body.length then
      some body
    else none
  else none

/-- The text of the first suitable declaration. -/
def firstDeclaration? : List Char → Option (List Char)
  | [] => none
  | c :: cs =>
    match declarationText? (c :: cs) with
    | some body => some body
    | none => firstDeclaration? cs

def declaredNamespace (source : String) : Option String := do
  let body ← firstDeclaration? source.toList
  let name := Text.trimEnds Text.isBlank body
  if name.isEmpty then none else some (String.ofList name)

end LayerGuard.Source
