/-! # Texts as bytes

A text is written as UTF-8 bytes and read back in two ways. The strict reading refuses bytes that
are no UTF-8. The tolerant reading puts U+FFFD in the place of each ill-formed piece, where a
piece is the longest run of bytes that could have begun a character, and at least one byte.
-/

namespace LayerGuard.Text

def utf8Bytes (cs : List Char) : List UInt8 :=
  cs.flatMap String.utf8EncodeChar

def bytesOf (s : String) : List UInt8 :=
  utf8Bytes s.toList

/-- What stands at the front of a byte sequence: a character, or an ill-formed piece, and how
many bytes after the first it takes. -/
structure Piece where
  char? : Option Char
  more : Nat

/-- A byte that continues a character. -/
def isContinuation (b : UInt8) : Bool := 0x80 ≤ b && b ≤ 0xBF

/-- The second bytes that may follow a leading byte of a character of three or four bytes. -/
def secondFits (lead second : UInt8) : Bool :=
  if lead == 0xE0 then 0xA0 ≤ second && second ≤ 0xBF
  else if lead == 0xED then 0x80 ≤ second && second ≤ 0x9F
  else if lead == 0xF0 then 0x90 ≤ second && second ≤ 0xBF
  else if lead == 0xF4 then 0x80 ≤ second && second ≤ 0x8F
  else isContinuation second

/-- The six bits a continuation byte carries. -/
def payload (b : UInt8) : Nat := b.toNat % 64

/-- The piece at the front of `lead :: rest`. -/
def piece (lead : UInt8) (rest : List UInt8) : Piece :=
  if lead < 0x80 then ⟨some (Char.ofNat lead.toNat), 0⟩
  else if 0xC2 ≤ lead && lead ≤ 0xDF then
    match rest with
    | b :: _ =>
      if isContinuation b then ⟨some (Char.ofNat (lead.toNat % 32 * 64 + payload b)), 1⟩
      else ⟨none, 0⟩
    | [] => ⟨none, 0⟩
  else if 0xE0 ≤ lead && lead ≤ 0xEF then
    match rest with
    | b :: c :: _ =>
      if !secondFits lead b then ⟨none, 0⟩
      else if !isContinuation c then ⟨none, 1⟩
      else ⟨some (Char.ofNat (lead.toNat % 16 * 4096 + payload b * 64 + payload c)), 2⟩
    | [b] => if secondFits lead b then ⟨none, 1⟩ else ⟨none, 0⟩
    | [] => ⟨none, 0⟩
  else if 0xF0 ≤ lead && lead ≤ 0xF4 then
    match rest with
    | b :: c :: d :: _ =>
      if !secondFits lead b then ⟨none, 0⟩
      else if !isContinuation c then ⟨none, 1⟩
      else if !isContinuation d then ⟨none, 2⟩
      else
        ⟨some (Char.ofNat
          (lead.toNat % 8 * 262144 + payload b * 4096 + payload c * 64 + payload d)), 3⟩
    | [b, c] =>
      if !secondFits lead b then ⟨none, 0⟩ else if isContinuation c then ⟨none, 2⟩ else ⟨none, 1⟩
    | [b] => if secondFits lead b then ⟨none, 1⟩ else ⟨none, 0⟩
    | [] => ⟨none, 0⟩
  else ⟨none, 0⟩

/-- The pieces of a byte sequence in order, in front of those already found. -/
def piecesOnto (found : List (Option Char)) : List UInt8 → List (Option Char)
  | [] => found.reverse
  | lead :: rest =>
    let front := piece lead rest
    piecesOnto (front.char? :: found) (rest.drop front.more)
termination_by bytes => bytes.length
decreasing_by simp only [List.length_cons, List.length_drop]; omega

/-- The pieces of a byte sequence in order: a character, or `none` for an ill-formed piece. -/
def pieces (bytes : List UInt8) : List (Option Char) :=
  piecesOnto [] bytes

/-- The tolerant reading: every ill-formed piece becomes U+FFFD. -/
def decodeLossy (bytes : List UInt8) : String :=
  String.ofList ((pieces bytes).map fun c => c.getD '\uFFFD')

/-- The strict reading: the text whose bytes these are, if there is one. -/
def decode? (bytes : List UInt8) : Option String :=
  ((pieces bytes).mapM id).map String.ofList

end LayerGuard.Text
