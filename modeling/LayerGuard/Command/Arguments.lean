import LayerGuard.Validation

/-! # Arguments of the command line

The first argument that is no option names a command, and what follows belongs to it. Options may
stand anywhere among its arguments until two hyphens end them; short ones can be bundled, and a
value follows in the same argument or in the next one. Arguments are taken in order, and the first
that is wrong, or that asks for help or the version, decides.
-/

namespace LayerGuard

/-- What the program is asked to do. -/
inductive Command where
  | validate (source : Path) (config? : Option Path) (options : ValidationOptions)
  | selfValidate (options : ValidationOptions)
  | init (force : Bool)
  deriving DecidableEq, Repr

/-- Why there is no command. -/
inductive Command.Refusal where
  | usage
  | help
  | version
  deriving DecidableEq, Repr

namespace Command

/-- The kinds of commands. -/
inductive Kind where
  | validate
  | selfValidate
  | init
  deriving DecidableEq, Repr

def Kind.words : List (String × Kind) :=
  [("validate", .validate), ("v", .validate), ("self-validate", .selfValidate),
   ("s", .selfValidate), ("init", .init)]

/-- How many arguments a command takes that are no options. -/
def Kind.places : Kind → Nat
  | .validate => 2
  | .selfValidate => 0
  | .init => 0

/-- The options without a value. -/
inductive Flag where
  | verbose
  | noCircular
  | pureLayout
  | force
  deriving DecidableEq, Repr

/-- The options with a value. -/
inductive Setter where
  | ignore
  | format
  deriving DecidableEq, Repr

/-- What an option can be. -/
inductive Switch where
  | flag (flag : Flag)
  | setter (setter : Setter)
  | stop (reason : Refusal)
  deriving DecidableEq, Repr

/-- The options of a level: those in front of the command, or those of a command; each with its
letter and its word. -/
def switches : Option Kind → List (Option Char × String × Switch)
  | none =>
    [(some 'v', "verbose", .flag .verbose), (some 'h', "help", .stop .help),
     (some 'V', "version", .stop .version)]
  | some .init =>
    [(some 'v', "verbose", .flag .verbose), (some 'h', "help", .stop .help),
     (none, "force", .flag .force)]
  | some _ =>
    [(some 'v', "verbose", .flag .verbose), (some 'h', "help", .stop .help),
     (some 'i', "ignore", .setter .ignore), (some 'c', "no-circular", .flag .noCircular),
     (some 'p', "pure", .flag .pureLayout), (some 'f', "format", .setter .format)]

def ofLetter? (level : Option Kind) (letter : Char) : Option Switch :=
  ((switches level).find? (·.1 == some letter)).map (·.2.2)

def ofWord? (level : Option Kind) (word : String) : Option Switch :=
  ((switches level).find? (·.2.1 == word)).map (·.2.2)

/-- The arguments of one level taken so far. -/
structure Taken where
  flags : List Flag
  ignored : List String
  format? : Option Report.Format
  places : List Path
  deriving DecidableEq, Repr

namespace Taken

def start : Taken := ⟨[], [], none, []⟩

/-- An option without a value may not be given twice. -/
def addFlag (t : Taken) (flag : Flag) : Except Refusal Taken :=
  if t.flags.contains flag then .error .usage else .ok { t with flags := flag :: t.flags }

/-- An option with its value. Ignored paths are separated by commas and add up; the format may not
be given twice. -/
def addValue (t : Taken) (value : String) : Setter → Except Refusal Taken
  | .ignore => .ok { t with ignored := t.ignored ++ Text.split ',' value }
  | .format =>
    match t.format?, Report.Format.ofName? value with
    | none, some format => .ok { t with format? := some format }
    | _, _ => .error .usage

/-- An argument that is no option, if the command has a place for it; it may not be empty. -/
def addPlace (t : Taken) (kind : Kind) (value : String) : Except Refusal Taken :=
  if value == "" || kind.places ≤ t.places.length then .error .usage
  else .ok { t with places := t.places ++ [⟨value⟩] }

/-- An option without a value takes effect. -/
def apply (t : Taken) : Switch → Except Refusal Taken
  | .flag flag => t.addFlag flag
  | .stop reason => .error reason
  | .setter _ => .error .usage

end Taken

/-- What an argument asks for: options that take effect at once, and then either nothing, or an
option that takes the next argument for its value. -/
structure Effect where
  taken : Taken
  waiting? : Option Setter
  deriving DecidableEq, Repr

/-- The letters of a bundle, in order. A letter for an option with a value takes the rest of the
bundle for it, behind an equals sign or not, or else waits. -/
def takeLetters (level : Option Kind) (t : Taken) : List Char → Except Refusal Effect
  | [] => .ok ⟨t, none⟩
  | letter :: rest =>
    match ofLetter? level letter with
    | none => .error .usage
    | some (.setter setter) =>
      match rest with
      | [] => .ok ⟨t, some setter⟩
      | '=' :: value => do return ⟨← t.addValue (String.ofList value) setter, none⟩
      | value => do return ⟨← t.addValue (String.ofList value) setter, none⟩
    | some switch => do takeLetters level (← t.apply switch) rest

/-- An option written as a word, with a value behind an equals sign if there is one. -/
def takeWord (level : Option Kind) (t : Taken) (cs : List Char) : Except Refusal Effect :=
  let word := cs.takeWhile (· != '=')
  match ofWord? level (String.ofList word), cs.drop word.length with
  | none, _ => .error .usage
  | some (.setter setter), [] => .ok ⟨t, some setter⟩
  | some (.setter setter), _ :: value => do
    return ⟨← t.addValue (String.ofList value) setter, none⟩
  | some switch, [] => do return ⟨← t.apply switch, none⟩
  | some _, _ :: _ => .error .usage

/-- What an argument is by its first characters. -/
inductive Shape where
  /-- Two hyphens alone. -/
  | optionsEnd
  | word (cs : List Char)
  | letters (cs : List Char)
  | place
  deriving DecidableEq, Repr

/-- The shape of an argument. A single hyphen alone is no option. -/
def shape (argument : String) : Shape :=
  match argument.toList with
  | ['-', '-'] => .optionsEnd
  | '-' :: '-' :: cs => .word cs
  | ['-'] => .place
  | '-' :: cs => .letters cs
  | _ => .place

/-- The option that an argument is, if it is one. -/
def takeOption? (level : Option Kind) (t : Taken) : Shape → Option (Except Refusal Effect)
  | .word cs => some (takeWord level t cs)
  | .letters cs => some (takeLetters level t cs)
  | _ => none

/-- The arguments of a command. -/
def takeAll (kind : Kind) (t : Taken) : List String → Except Refusal Taken
  | [] => .ok t
  | argument :: rest =>
    match takeOption? (some kind) t (shape argument) with
    | some outcome => do
      let ⟨t, waiting?⟩ ← outcome
      match waiting?, rest with
      | none, rest => takeAll kind t rest
      | some _, [] => .error .usage
      | some setter, value :: rest =>
        if shape value == .place then do takeAll kind (← t.addValue value setter) rest
        else .error .usage
    | none =>
      if shape argument == .optionsEnd then rest.foldlM (fun t value => t.addPlace kind value) t
      else do takeAll kind (← t.addPlace kind argument) rest

/-- What a command of a kind is asked to do. Without a format the report is a text. -/
def ofTaken (kind : Kind) (t : Taken) : Except Refusal Command :=
  let options : ValidationOptions :=
    ⟨t.ignored, t.flags.contains .noCircular, t.flags.contains .pureLayout, t.format?.getD .text⟩
  match kind, t.places with
  | .validate, source :: places => .ok (.validate source places.head? options)
  | .validate, [] => .error .usage
  | .selfValidate, _ => .ok (.selfValidate options)
  | .init, _ => .ok (.init (t.flags.contains .force))

def helpOn : List String → Refusal
  | [] => .help
  | [word] => if word == "help" || (Kind.words.lookup word).isSome then .help else .usage
  | _ => .usage

/-- What the arguments of the program ask for, with the options in front of the command taken so
far. -/
def parseFrom (t : Taken) : List String → Except Refusal Command
  | [] => .error .usage
  | argument :: rest =>
    match takeOption? none t (shape argument) with
    | some outcome => do parseFrom (← outcome).taken rest
    | none =>
      match Kind.words.lookup argument with
      | some kind => do ofTaken kind (← takeAll kind .start rest)
      | none => .error (if argument == "help" then helpOn rest else .usage)

def parse (arguments : List String) : Except Refusal Command := parseFrom .start arguments

end Command
end LayerGuard
