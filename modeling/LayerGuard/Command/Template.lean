/-! # A first configuration -/

namespace LayerGuard.Command

def templateLines : List String :=
  ["# arch-enforcer configuration",
   "#",
   "# Every key under [architecture] is a layer: a namespace prefix. Its list",
   "# holds the namespaces the layer may use. A layer that lists itself is",
   "# strict and may use nothing else except PHP built-ins.",
   "",
   "# Namespace that maps to the source directory (needed by --pure)",
   "# root_namespace = 'App'",
   "",
   "# Paths excluded from scanning, relative to the source directory",
   "ignore = ['vendor', 'var']",
   "",
   "# Extra runtime-provided classes and functions, e.g. from PHP extensions",
   "# builtins = ['Redis']",
   "",
   "[architecture]",
   "'App\\Domain' = ['App\\Domain']",
   "'App\\Application' = ['App\\Domain']",
   "'App\\Infrastructure' = ['App\\Domain', 'App\\Application']"]

/-- The configuration that a new project starts with. -/
def template : String := String.join (templateLines.map (· ++ "\n"))

end LayerGuard.Command
