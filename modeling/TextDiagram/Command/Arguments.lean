import TextDiagram.Config.Basic

/-!
# Command line

The arguments name the source and may give settings: an output, a configuration, a format and a
level for the log. A setting is given at most once, with its value in the same argument or as the
next one. Two dashes alone end the settings.
-/

namespace TextDiagram.Command

structure Arguments where
  input : String
  output? : Option String := none
  config? : Option String := none
  format? : Option ExportFormat := none
  logLevel : String := "info"
  deriving DecidableEq, Repr

/-- Why there is nothing to run. Asking for help or for the version is no mistake. -/
inductive UsageError where
  | missingInput
  | invalidValue
  | unneededValue
  | unknownArgument
  | repeatedSetting
  | helpRequested
  | versionRequested
  deriving DecidableEq, Repr

def UsageError.exitCode : UsageError → Nat
  | helpRequested | versionRequested => 0
  | _ => 2

inductive Setting where
  | output
  | config
  | format
  | logLevel
  deriving DecidableEq, Repr

namespace Setting

def all : List Setting :=
  [output, config, format, logLevel]

/-- The name behind two dashes. -/
def name : Setting → String
  | output => "output"
  | config => "config"
  | format => "format"
  | logLevel => "log-level"

/-- The letter behind one dash. -/
def letter? : Setting → Option Char
  | output => some 'o'
  | config => some 'c'
  | format => some 'f'
  | logLevel => none

def ofName? (name : String) : Option Setting :=
  all.find? fun s => s.name == name

def ofLetter? (letter : Char) : Option Setting :=
  all.find? fun s => s.letter? == some letter

@[simp] theorem ofName?_name (s : Setting) : ofName? s.name = some s := by
  cases s <;> decide

/-- Any text is a value, except that formats have names. -/
def accepts (s : Setting) (value : String) : Bool :=
  s != .format || (ExportFormat.ofName? value).isSome

end Setting

/-- What one argument says. -/
inductive Word where
  | endOfSettings
  /-- A setting, with the value if it is in the same argument. -/
  | setting (s : Setting) (value? : Option String)
  | help
  | version
  /-- A value for what takes none. -/
  | unneededValue
  | unknown
  | plain (text : String)
  deriving DecidableEq, Repr

namespace Word

/-- An argument behind its two dashes. A value is set off by the first equals sign. -/
def ofLong (text : List Char) : Word :=
  let name := String.ofList (text.takeWhile fun c => c != '=')
  let value? := match text.dropWhile fun c => c != '=' with
    | [] => none
    | _ :: value => some (String.ofList value)
  match Setting.ofName? name with
  | some s => .setting s value?
  | none =>
    if name = "help" then if value?.isSome then .unneededValue else .help
    else if name = "version" then if value?.isSome then .unneededValue else .version
    else .unknown

/-- An argument behind its single dash: a letter, then the value with or without an equals sign. -/
def ofShort (letter : Char) (rest : List Char) : Word :=
  match Setting.ofLetter? letter with
  | some s =>
    match rest with
    | [] => .setting s none
    | '=' :: value => .setting s (some (String.ofList value))
    | value => .setting s (some (String.ofList value))
  | none => if letter = 'h' then .help else if letter = 'V' then .version else .unknown

def ofText (text : String) : Word :=
  match text.toList with
  | ['-', '-'] => .endOfSettings
  | '-' :: '-' :: long => ofLong long
  | '-' :: letter :: rest => ofShort letter rest
  | _ => .plain text

end Word

/-- What has been gathered from the arguments so far. -/
structure Gathered where
  input? : Option String := none
  settings : List (Setting × String) := []
  /-- The setting that was named last, if it was not yet stored. -/
  pending? : Option (Setting × Option String) := none
  /-- After the end of the settings every argument is plain. -/
  onlyPlain : Bool := false
  deriving DecidableEq, Repr

namespace Gathered

def value? (g : Gathered) (s : Setting) : Option String :=
  (g.settings.find? fun e => e.1 == s).map Prod.snd

/-- A setting that was given before is refused before its value is looked at. -/
def store (g : Gathered) (s : Setting) (value : String) : Except UsageError Gathered :=
  if (g.value? s).isSome then .error .repeatedSetting
  else if s.accepts value then .ok { g with settings := g.settings ++ [(s, value)] }
  else .error .invalidValue

/-- Stores the pending setting. -/
def settle (g : Gathered) : Except UsageError Gathered :=
  match g.pending? with
  | none => .ok g
  | some (_, none) => .error .invalidValue
  | some (s, some value) => { g with pending? := none }.store s value

/-- Only the first plain argument that is no value names the source. -/
def takeInput (g : Gathered) (text : String) : Except UsageError Gathered :=
  if g.input?.isSome then .error .unknownArgument
  else g.settle.map fun g => { g with input? := some text }

/-- A plain argument is the value of a setting that waits for one. -/
def takePlain (g : Gathered) (text : String) : Except UsageError Gathered :=
  match g.pending? with
  | some (s, none) => .ok { g with pending? := some (s, some text) }
  | _ => g.takeInput text

def take (g : Gathered) : Word → Except UsageError Gathered
  | .endOfSettings => .ok { g with onlyPlain := true }
  | .setting s none => g.settle.map fun g => { g with pending? := some (s, none) }
  | .setting s (some value) => g.settle.bind fun g => g.store s value
  | .help => g.settle.bind fun _ => .error .helpRequested
  | .version => g.settle.bind fun _ => .error .versionRequested
  | .unneededValue => .error .unneededValue
  | .unknown => .error .unknownArgument
  | .plain text => g.takePlain text

def step (g : Gathered) (text : String) : Except UsageError Gathered :=
  if g.onlyPlain then g.takeInput text else g.take (Word.ofText text)

def finish (g : Gathered) : Except UsageError Arguments :=
  g.settle.bind fun g =>
    match g.input? with
    | none => .error .missingInput
    | some input =>
      .ok {
        input
        output? := g.value? .output
        config? := g.value? .config
        format? := (g.value? .format).bind ExportFormat.ofName?
        logLevel := (g.value? .logLevel).getD "info" }

end Gathered

def Arguments.ofList (texts : List String) : Except UsageError Arguments :=
  (texts.foldlM Gathered.step {}).bind Gathered.finish

end TextDiagram.Command
