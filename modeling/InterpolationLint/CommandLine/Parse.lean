import InterpolationLint.CommandLine.Basic

/-!
# Reading the command line

Words are read from left to right. The value of an option or a path is pending until something
follows it, and is looked at only then; an unknown argument or an unwanted value is reported before
that.
-/

namespace InterpolationLint

inductive WordForm where
  /-- Two dashes: only plain words follow. -/
  | divider
  | long (name : String) (value : Option String)
  /-- One dash and letters, the first of which is apart. -/
  | letters (first : Char) (rest : List Char)
  | plain
deriving DecidableEq, Repr

def longForm (text : List Char) : WordForm :=
  let name := String.ofList (text.takeWhile (· != '='))
  match text.dropWhile (· != '=') with
  | [] => .long name none
  | _ :: value => .long name (some (String.ofList value))

def wordForm (word : String) : WordForm :=
  match word.toList with
  | ['-', '-'] => .divider
  | '-' :: '-' :: text => longForm text
  | '-' :: first :: rest => .letters first rest
  | _ => .plain

inductive Slot where
  | path
  | option (option : CliOption)
deriving DecidableEq, Repr

def Slot.kind : Slot → OptionKind
  | path => .path
  | option o => o.kind

structure Progress where
  switches : List CliOption
  values : List (Slot × String)
  /-- A slot whose value is not looked at yet, or still missing. -/
  pending : Option (Slot × Option String)
deriving DecidableEq, Repr

namespace Progress

def start : Progress := ⟨[], [], none⟩

def has (progress : Progress) (slot : Slot) : Bool := progress.values.any (·.1 = slot)

def hasPath (progress : Progress) : Bool :=
  progress.has .path || (progress.pending.any (·.1 = .path))

/-- Takes a value for a slot. A slot for one value takes no second one, and no path is empty. -/
def give (progress : Progress) (slot : Slot) (value : Option String) :
    Except UsageStop Progress :=
  match value with
  | none => .error .invalidValue
  | some text =>
    if slot.kind ≠ .texts ∧ progress.has slot then .error .repeatedOption
    else if slot.kind = .path ∧ text = "" then .error .invalidValue
    else .ok { progress with values := progress.values ++ [(slot, text)] }

def commit (progress : Progress) : Except UsageStop Progress :=
  match progress.pending with
  | none => .ok progress
  | some (slot, value) => { progress with pending := none }.give slot value

def giveSwitch (progress : Progress) (option : CliOption) : Except UsageStop Progress := do
  let progress ← progress.commit
  match option.kind with
  | .stop reason => throw reason
  | _ =>
    if option ∈ progress.switches then throw .repeatedOption
    return { progress with switches := progress.switches ++ [option] }

/-- Takes an option that has a value: one attached to it, or the word that follows. -/
def giveOption (progress : Progress) (option : CliOption) (attached : Option String) :
    Except UsageStop Progress := do
  let progress ← progress.commit
  match attached with
  | some text => progress.give (.option option) (some text)
  | none => return { progress with pending := some (.option option, none) }

end Progress

def CliOption.takesValue (option : CliOption) : Bool :=
  match option.kind with
  | .stop _ => false
  | .switch => false
  | _ => true

namespace CliLevel

def readLong (level : CliLevel) (progress : Progress) (name : String) (value : Option String) :
    Except UsageStop Progress :=
  match level.withName? name with
  | none => .error .unknownArgument
  | some option =>
    if option.takesValue then progress.giveOption option value
    else if value.isSome then .error .unwantedValue
    else progress.giveSwitch option

/-- The value attached to a letter, if there is any. An equals sign before it is left out. -/
def attachedValue : List Char → Option String
  | [] => none
  | '=' :: text => some (String.ofList text)
  | text => some (String.ofList text)

/-- Letters are switches up to the first that takes a value, which is the rest of the word. -/
def readLetters (level : CliLevel) (progress : Progress) : List Char → Except UsageStop Progress
  | [] => .ok progress
  | letter :: rest =>
    match level.withLetter? letter with
    | none => .error .unknownArgument
    | some option =>
      if option.takesValue then progress.giveOption option (attachedValue rest)
      else do level.readLetters (← progress.giveSwitch option) rest

def readPath (level : CliLevel) (progress : Progress) (word : String) :
    Except UsageStop Progress :=
  if level.takesPath ∧ !progress.hasPath then do
    return { ← progress.commit with pending := some (.path, some word) }
  else .error .unknownArgument

/-- A plain word is the value that is still missing, or else the path. -/
def readPlain (level : CliLevel) (progress : Progress) (word : String) :
    Except UsageStop Progress :=
  match progress.pending with
  | some (slot, none) => .ok { progress with pending := some (slot, some word) }
  | _ => level.readPath progress word

def readWords (level : CliLevel) (progress : Progress) : List String → Except UsageStop Progress
  | [] => progress.commit
  | word :: rest =>
    match wordForm word with
    | .divider => do (← rest.foldlM level.readPath progress).commit
    | .long name value => do level.readWords (← level.readLong progress name value) rest
    | .letters first more => do
      level.readWords (← level.readLetters progress (first :: more)) rest
    | .plain => do level.readWords (← level.readPlain progress word) rest

end CliLevel

namespace Progress

def texts (progress : Progress) (slot : Slot) : List String :=
  (progress.values.filter (·.1 = slot)).map Prod.snd

def text? (progress : Progress) (option : CliOption) : Option String :=
  (progress.texts (.option option)).head?

end Progress

namespace CommandName

def ofArguments (name : CommandName) (words : List String) : Except UsageStop Command := do
  let given ← name.level.readWords Progress.start words
  match name with
  | lint =>
    match (given.texts .path).head? with
    | none => throw .missingPath
    | some path =>
      return .lint {
        path
        config := given.text? .config
        format := (given.text? .format).getD "pretty"
        showSuppressed := .showSuppressed ∈ given.switches
        failLevel := (given.text? .failLevel).getD "warning"
        disabled := given.texts (.option .disable) }
  | rules => return .rules
  | init => return .init ((given.text? .output).getD "interpcheck.yaml")

end CommandName

def readHelp : List String → UsageStop
  | [] => .helpAsked
  | [word] =>
    if (CommandName.ofWord? word).isSome ∨ word = helpWord then .helpAsked else .unknownCommand
  | _ => .unknownCommand

def withoutCommand (progress : Progress) : UsageStop :=
  if progress.switches.isEmpty then .nothingAsked else .missingCommand

/-- Words behind a divider, where a command is not looked for. -/
def behindDivider (progress : Progress) : List String → UsageStop
  | [] => withoutCommand progress
  | word :: _ =>
    if (CommandName.ofWord? word).isSome ∨ word = helpWord then .unknownArgument
    else .unknownCommand

def readCommand (progress : Progress) : List String → Except UsageStop Command
  | [] => .error (withoutCommand progress)
  | word :: rest =>
    if word = helpWord then .error (readHelp rest)
    else
      match CommandName.ofWord? word with
      | some name => name.ofArguments rest
      | none =>
        match wordForm word with
        | .divider => .error (behindDivider progress rest)
        | .long name value => do readCommand (← topLevel.readLong progress name value) rest
        | .letters first more => do
          readCommand (← topLevel.readLetters progress (first :: more)) rest
        | .plain => .error .unknownCommand

def Command.ofArguments (words : List String) : Except UsageStop Command :=
  readCommand Progress.start words

end InterpolationLint
