import Hetnet.CommandLine.Options

/-!
# Reading the command line

A command line is read word by word. A word that begins with two dashes is an option by
its long name, one that begins with a single dash is a row of letters, and the
first plain word names the command. The value of an option follows it, after an equals
sign in the same word or as the next word, which then does not begin with a dash. Two
dashes alone end the options. What is read so far is the state of the reader, and what
no command line can go on from is refused at the word where it shows.
-/

namespace Hetnet

namespace CommandLine

/-- Why a command line is not carried out. -/
inductive Stop
  /-- It is not a command line. -/
  | usage
  /-- It asks how to use the program. -/
  | help
  /-- It asks for the version of the program. -/
  | version
deriving DecidableEq, Inhabited

/-- What the plain words are about. -/
inductive Topic
  /-- The program: the next word names the command. -/
  | program
  /-- A command: the next word is the path of the graph. -/
  | command (command : Command)
  /-- Help; whether it is known about what. -/
  | help (named : Bool)
deriving DecidableEq, Inhabited

/-- What has been read. -/
structure Reader where
  topic : Topic := .program
  /-- What the program was given before the command. -/
  program : Given := {}
  /-- What the current level is given. -/
  given : Given := {}
  /-- The option that waits for values, and those it has. -/
  pending : Option (Switch × List String) := none
  /-- Whether two dashes have ended the options. -/
  plainOnly : Bool := false

namespace Reader

/-- Goes on unless there is nothing to go on with. -/
def orUsage {α : Type} : Option α → Except Stop α
  | some value => .ok value
  | none => .error .usage

/-- The options that can stand at this point. -/
def allowed (r : Reader) : List Switch :=
  match r.topic with
  | .program => Switch.allowed none
  | .command command => Switch.allowed (some command)
  | .help _ => []

/-- Gives an option all its values. -/
def give (r : Reader) (switch : Switch) (values : List String) : Except Stop Reader := do
  match switch, values with
  | .help, [] => throw .help
  | .version, [] => throw .version
  | _, _ => return { r with given := ← orUsage (r.given.take switch values), pending := none }

/-- Goes on after an option that stands without an attached value. -/
def begin (r : Reader) (switch : Switch) : Except Stop Reader :=
  if switch.arity = 0 then r.give switch [] else .ok { r with pending := some (switch, []) }

/-- Reads a value of the option that waits for it. -/
def readValue (r : Reader) (switch : Switch) (values : List String) (word : String) :
    Except Stop Reader :=
  let values := values ++ [word]
  if values.length = switch.arity then r.give switch values
  else .ok { r with pending := some (switch, values) }

/-- Reads what follows two dashes. -/
def readLong (r : Reader) (word : List Char) : Except Stop Reader := do
  let name := String.ofList (word.takeWhile (· ≠ '='))
  let switch ← orUsage (r.allowed.find? fun switch => switch.long = name)
  match word.dropWhile (· ≠ '=') with
  | [] => r.begin switch
  | _ :: value =>
      if switch.arity = 0 then throw .usage
      r.give switch [String.ofList value]

/-- Reads what follows a single dash. The letters of flags can stand in a row; what follows
the letter of any other option is its value. -/
def readLetters (r : Reader) : List Char → Except Stop Reader
  | [] => .ok r
  | c :: rest => do
      let switch ← orUsage (r.allowed.find? fun switch => switch.letter? = some c)
      if switch.arity = 0 then
        (← r.give switch []).readLetters rest
      else
        match rest with
        | [] => r.begin switch
        | '=' :: value => r.give switch [String.ofList value]
        | value => r.give switch [String.ofList value]

/-- Reads a word that belongs to no option. -/
def readPlain (r : Reader) (word : String) : Except Stop Reader :=
  match r.topic with
  | .program =>
      if r.plainOnly then .error .usage
      else if word = "help" then .ok { r with topic := .help false }
      else do
        let command ← orUsage (Command.read? word)
        return { r with topic := .command command, program := r.given, given := {} }
  | .command _ => do return { r with given := ← orUsage (r.given.takePath word) }
  | .help named =>
      if !named && (word = "help" || (Command.read? word).isSome) then
        .ok { r with topic := .help true }
      else .error .usage

/-- Whether a word can only be an option or the end of the options. -/
def isOption (word : List Char) : Bool := word.head? = some '-' && 1 < word.length

/-- Whether all words are plain from here on. What help is asked about is never an option. -/
def takesPlainOnly (r : Reader) : Bool :=
  r.plainOnly || match r.topic with
    | .help _ => true
    | _ => false

/-- Reads one word. -/
def read (r : Reader) (word : String) : Except Stop Reader :=
  let cs := word.toList
  if r.takesPlainOnly then
    if r.pending.isSome then .error .usage else r.readPlain word
  else
    match r.pending with
    | some (switch, values) =>
        if isOption cs then .error .usage else r.readValue switch values word
    | none =>
        match cs with
        | ['-', '-'] => .ok { r with plainOnly := true }
        | '-' :: '-' :: name => r.readLong name
        | '-' :: c :: letters => r.readLetters (c :: letters)
        | _ => r.readPlain word

end Reader

end CommandLine

end Hetnet
