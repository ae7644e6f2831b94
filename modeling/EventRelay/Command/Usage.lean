/-!
# Reading one level of a command line

A command line is read word by word, level by level: the options of the program, then a command,
then the options of that command.  This module reads one level, whatever its options are.

* A word `--name` or `--name=value` is an option; `-h` and `--help` ask for help.
* The value of an option is joined to it by `=` or is the next word, which must not look like an
  option itself.  The value is checked only when the next option or plain argument comes, or when
  the level ends; a word that the level does not know is refused first.
* A plain word is the name of a command, if the level has commands, or else a plain argument.
* After a word `--` every word is a plain argument.
-/

namespace EventRelay.Command

/-- Why a command line is refused. -/
inductive UsageError where
  /-- A word stands where a command belongs and names none. -/
  | unknownCommand
  /-- An option that the level does not have, or one plain argument too many. -/
  | unknownArgument
  /-- An option stands without its value, or a path is empty. -/
  | noValue
  /-- A value that does not read as what it stands for. -/
  | badValue
  /-- A plain argument that the command needs is missing. -/
  | missingArgument
  /-- An option that may stand once stands twice. -/
  | repeated
  /-- A value was joined to an option that takes none. -/
  | valueForSwitch
  /-- Help was asked for. -/
  | helpAsked
  /-- Neither an option nor a command was given where a command is needed. -/
  | nothingGiven
  /-- Options were given, but no command. -/
  | missingCommand
  deriving Repr, DecidableEq

/-- Takes in the value of an option or a plain argument; `σ` is what a level has gathered. -/
abbrev Take (σ : Type) := String → σ → Except UsageError σ

/-- What an option does. -/
inductive Choice (σ : Type) where
  /-- It takes a value. -/
  | value (take : Take σ)
  /-- It stands alone. -/
  | switch (turn : σ → Except UsageError σ)

/-- What one level of a command line understands. -/
structure Level (σ : Type) where
  /-- The options, by name. -/
  option? : String → Option (Choice σ) := fun _ => none
  /-- The commands, by name. -/
  commands : List String := []
  /-- What becomes of a plain argument, as long as one may still come. -/
  plain? : σ → Option (Take σ) := fun _ => none

/-- An option or plain argument whose value has not been checked yet. -/
inductive Pending (σ : Type) where
  /-- There is none. -/
  | nothing
  /-- An option that waits for its value. -/
  | opened (take : Take σ)
  /-- A value that waits to be taken in. -/
  | filled (take : Take σ) (value : String)

/-- Takes in what is pending. -/
def Pending.settle {σ : Type} (p : Pending σ) (s : σ) : Except UsageError σ :=
  match p with
  | .nothing => .ok s
  | .opened _ => .error .noValue
  | .filled take value => take value s

/-- How a word looks, before the level is asked about it. -/
inductive Word where
  /-- The word `--`. -/
  | divider
  /-- `--name`, with the value joined to it. -/
  | long (name : String) (value : Option String)
  /-- A dash and the letters after it. -/
  | short (letter : Char)
  /-- Any other word. -/
  | plain
  deriving Repr, DecidableEq

/-- The part before the first `=`, and the part after it if there is one. -/
def splitEquals (cs : List Char) : String × Option String :=
  (String.ofList (cs.takeWhile (· != '=')),
    match cs.dropWhile (· != '=') with
    | [] => none
    | _ :: value => some (String.ofList value))

/-- Looks at a word.  A dash alone is a plain word. -/
def Word.ofString (s : String) : Word :=
  match s.toList with
  | ['-', '-'] => .divider
  | '-' :: '-' :: cs => let (name, value) := splitEquals cs; .long name value
  | '-' :: c :: _ => .short c
  | _ => .plain

/-- How the reading of a level ended. -/
structure Reading (σ : Type) where
  /-- What was gathered. -/
  gathered : σ
  /-- What is still pending. -/
  pending : Pending σ
  /-- The command that was met, and the words after it. -/
  command : Option (String × List String)

/-- Asks for help, which comes after a pending value in the order of the words. -/
def askHelp {α σ : Type} (p : Pending σ) (s : σ) : Except UsageError α := do
  let _ ← p.settle s
  throw .helpAsked

/-- Why a plain word is refused that the level has no place for. -/
def Level.refusal {σ : Type} (l : Level σ) (divided : Bool) (word : String) : UsageError :=
  if l.commands.isEmpty ∨ (divided ∧ word ∈ l.commands) then .unknownArgument else .unknownCommand

/-- Reads the words of one level.  `divided` says that a word `--` has gone before. -/
def Level.read {σ : Type} (l : Level σ) (divided : Bool) (p : Pending σ) (s : σ) :
    List String → Except UsageError (Reading σ)
  | [] => .ok ⟨s, p, none⟩
  | word :: words =>
    let asArgument (_ : Unit) : Except UsageError (Reading σ) :=
      match l.plain? s with
      | none => .error (l.refusal divided word)
      | some take =>
        match p.settle s with
        | .error e => .error e
        | .ok s =>
          match take word s with
          | .error e => .error e
          | .ok s => l.read divided .nothing s words
    if divided then asArgument ()
    else
      match Word.ofString word, p with
      | .divider, _ => l.read true p s words
      | .long name value, _ =>
        match l.option? name, value with
        | some (.value take), none => do l.read false (.opened take) (← p.settle s) words
        | some (.value take), some v => do l.read false .nothing (← take v (← p.settle s)) words
        | some (.switch _), some _ => .error .valueForSwitch
        | some (.switch turn), none => do l.read false .nothing (← turn (← p.settle s)) words
        | none, value =>
          if name ≠ "help" then .error .unknownArgument
          else if value.isSome then .error .valueForSwitch
          else askHelp p s
      | .short letter, _ => if letter = 'h' then askHelp p s else .error .unknownArgument
      | .plain, .opened take => l.read false (.filled take word) s words
      | .plain, _ => if word ∈ l.commands then .ok ⟨s, p, some (word, words)⟩ else asArgument ()

end EventRelay.Command
