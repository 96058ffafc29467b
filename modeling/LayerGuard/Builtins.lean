import LayerGuard.Builtins.Table

/-! # Built-in names

Strict layers may use what the runtime provides without listing it. Names are looked up without
regard to the case of ASCII letters and to leading separators, because the runtime resolves them
so.
-/

namespace LayerGuard

/-- The names taken as provided by the runtime, all in the form they are looked up in. -/
structure Builtins where
  names : List String
  deriving DecidableEq, Repr

namespace Builtins

/-- The form in which names are looked up: no leading separators, small ASCII letters. -/
def normalize (name : String) : String :=
  String.ofList ((name.toList.dropWhile (· == '\\')).map Char.toLower)

def none : Builtins := ⟨[]⟩

def php : Builtins := ⟨runtimeNames⟩

/-- Further names; those made of separators only are left out. -/
def withNames (b : Builtins) (extra : List String) : Builtins :=
  ⟨b.names ++ (extra.map normalize).filter (· != "")⟩

def contains (b : Builtins) (name : String) : Bool := b.names.contains (normalize name)

instance : Coe Builtins (String → Bool) := ⟨contains⟩

end Builtins
end LayerGuard
