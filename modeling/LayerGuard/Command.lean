import LayerGuard.Command.Arguments
import LayerGuard.Command.Template

/-! # Running the program

A run of the program takes its arguments and a tree of files to an outcome: what it prints, the
exit code, and the tree that it leaves. Violations exit with 1 as errors do, wrong usage with 2.
-/

namespace LayerGuard

/-- Why a command failed. -/
inductive CommandError where
  /-- The project has no configuration. -/
  | noConfig
  | validation (error : ValidationError)
  /-- The configuration to be created is there already. -/
  | configExists (path : Path)
  | notWritten (path : Path)
  deriving DecidableEq, Repr

def CommandError.message : CommandError → String
  | noConfig => "No architecture config found. Run `arch-enforcer init` to create one."
  | validation error => error.message
  | configExists path =>
    "Configuration file already exists at " ++ path.text ++ ". Use --force to overwrite."
  | notWritten path => "Failed to write " ++ path.text

/-- The first line of an error as the program prints it. A fault of the architecture starts with its
code. -/
def CommandError.headline (error : CommandError) : String :=
  match error with
  | .validation (.architecture fault) => fault.code
  | _ => String.ofList (error.message.toList.takeWhile (· != '\n'))

/-- An error as the program prints it. A fault of the architecture comes with its message and, if
there is any, what to do about it. -/
def CommandError.report (error : CommandError) : String :=
  match error with
  | .validation (.architecture fault) =>
    fault.code ++ "\n\n  " ++ fault.message ++ "\n" ++
      (fault.help?.map fun help => "  help: " ++ help ++ "\n").getD ""
  | _ => error.message ++ "\n"

/-- How a run of the program ends. -/
structure Outcome where
  exitCode : UInt32
  output : String
  error? : Option CommandError
  tree : FileTree
  deriving Repr

namespace Command

def versionLine : String := "arch-enforcer 0.1.0\n"

def usageText : String :=
  "Usage: arch-enforcer validate [OPTIONS] <SOURCE> [CONFIG]\n" ++
  "       arch-enforcer self-validate [OPTIONS]\n" ++
  "       arch-enforcer init [--force]\n\n" ++
  "Options:\n" ++
  "  -i, --ignore <PATHS>   Comma-separated list of ignored paths\n" ++
  "  -c, --no-circular      Fail when two layers depend on each other\n" ++
  "  -p, --pure             Require a directory under SOURCE for every layer\n" ++
  "  -f, --format <FORMAT>  text, json or compact\n" ++
  "  -v, --verbose          Enable verbose output\n" ++
  "  -h, --help             Print help\n" ++
  "  -V, --version          Print version\n"

def failed (tree : FileTree) (error : CommandError) : Outcome := ⟨1, "", some error, tree⟩

def project : Path := ⟨"."⟩

/-- The directory that a project validates of itself. -/
def ownSource : Path := ⟨"./"⟩

/-- The configuration file of a new project. -/
def configFile : String := "architecture.toml"

def runValidation (tree : FileTree) (source : Path) (config? : Option Path)
    (options : ValidationOptions) (elapsed : UInt64 := 0) : Outcome :=
  match (Config.locate tree project config?).path? with
  | none => failed tree .noConfig
  | some configPath =>
    match Validation.run tree source configPath options false elapsed with
    | .error error => failed tree (.validation error)
    | .ok validation =>
      ⟨if validation.result.hasViolations then 1 else 0, validation.output, none, tree⟩

def runInit (tree : FileTree) (force : Bool) : Outcome :=
  let path := project.join ⟨configFile⟩
  if tree.contains path && !force then failed tree (.configExists path)
  else match tree.write? path (Text.bytesOf template) with
    | none => failed tree (.notWritten path)
    | some tree =>
      ⟨0, "Created " ++ path.text ++ "\n\nNext steps:\n  1. Edit " ++ configFile ++
        " to describe your layers\n  2. Run: arch-enforcer validate <SOURCE>\n", none, tree⟩

def run (tree : FileTree) (command : Command) (elapsed : UInt64 := 0) : Outcome :=
  match command with
  | .validate source config? options => runValidation tree source config? options elapsed
  | .selfValidate options => runValidation tree ownSource none options elapsed
  | .init force => runInit tree force

def runArguments (tree : FileTree) (arguments : List String) (elapsed : UInt64 := 0) : Outcome :=
  match parse arguments with
  | .ok command => command.run tree elapsed
  | .error .usage => ⟨2, "", none, tree⟩
  | .error .help => ⟨0, usageText, none, tree⟩
  | .error .version => ⟨0, versionLine, none, tree⟩

end Command
end LayerGuard
