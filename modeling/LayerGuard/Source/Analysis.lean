import LayerGuard.Source.Declaration
import LayerGuard.Source.Scan
import LayerGuard.Text.Utf8

/-! # What a source declares and uses -/

namespace LayerGuard

/-- A qualified name used by a source, without a leading separator, and its line. -/
structure Reference where
  line : Nat
  name : String
  deriving DecidableEq, Repr

namespace Source

def Occurrence.toReference (o : Occurrence) : Reference :=
  ⟨o.line, Text.decodeLossy o.name⟩

/-- The qualified names a source uses outside its own declaration, in order, with repetitions. -/
def references (source : String) : List Reference :=
  (occurrences (Text.bytesOf source)).map Occurrence.toReference

/-- What is known of a source: the namespace it declares and the names it uses. -/
structure Analysis where
  declared : Option String
  references : List Reference
  deriving DecidableEq, Repr

def analyze (source : String) : Analysis :=
  ⟨declaredNamespace source, references source⟩

/-- The file extensions of sources that this analysis reads. -/
def extensions : List String := [".php"]

end Source
end LayerGuard
