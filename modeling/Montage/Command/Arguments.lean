import Montage.Settings

/-!
# Arguments

What a command line asks for. Switches may stand before or behind the name of the command, alone
or joined, with their values attached or apart; each may be given once at each of the two places,
and behind the command counts more. Words behind a double dash are never switches. Words are read
one after the other, and the first one that asks for help or is not understood decides.
-/

namespace Montage.Command

/-- Where a script goes. -/
inductive Target where
  /-- A file in a directory, by default the current one. -/
  | file (directory : Option String)
  | screen
  deriving DecidableEq, Repr

/-- What is to be done. -/
inductive Task where
  /-- Write the script of a project. -/
  | generate (project : String) (target : Target)
  /-- Show the timeline records of a project. -/
  | timeline (project : String)
  /-- Show what is wrong with a project. -/
  | check (project : String)
  /-- Build a project whenever it changes. -/
  | watch (project : String)
  /-- Write a settings file with all defaults. -/
  | initSettings (path : String)
  deriving DecidableEq, Repr

/-- A task and how to do it. -/
structure Invocation where
  task : Task
  settingsPath : Option String
  platform : Option Platform
  verbose : Bool
  deriving DecidableEq, Repr

/-- The commands. -/
inductive Name where
  | generate
  | timeline
  | check
  | watch
  | initSettings
  deriving DecidableEq, Repr

/-- The commands by their words. -/
def names : List (String × Name) :=
  [("generate", .generate), ("timeline", .timeline), ("check", .check), ("watch", .watch),
    ("init-config", .initSettings)]

/-- What a page of help is about. -/
inductive Topic where
  /-- The program as a whole, in short or in full. -/
  | program (full : Bool)
  | command (name : Name)
  /-- The command that shows help. -/
  | help
  deriving DecidableEq, Repr

/-- Why a command line asks for no task. -/
inductive Stop where
  /-- It is not understood. -/
  | usage
  | help (topic : Topic)
  | version
  deriving DecidableEq, Repr

/-- The switches. -/
inductive Switch where
  | settings
  | platform
  | verbose
  | output
  | screen
  | help
  | version
  deriving DecidableEq, Repr

namespace Switch

/-- The letter of a switch. -/
def letter? : Switch → Option Char
  | settings => some 'c'
  | platform => none
  | verbose => some 'v'
  | output => some 'o'
  | screen => none
  | help => some 'h'
  | version => some 'V'

/-- The word of a switch. -/
def word : Switch → String
  | settings => "config"
  | platform => "platform"
  | verbose => "verbose"
  | output => "output"
  | screen => "stdout"
  | help => "help"
  | version => "version"

/-- What the value of a switch is called, if it has one. -/
def valueName? : Switch → Option String
  | settings => some "CONFIG"
  | platform => some "PLATFORM"
  | output => some "OUTPUT"
  | _ => none

/-- Whether a switch has a value. -/
def hasValue (s : Switch) : Bool :=
  s.valueName?.isSome

end Switch

/-- Where a word stands: in front of the command, or behind it. -/
inductive Side where
  | front
  | behind (name : Name)
  deriving DecidableEq, Repr

namespace Side

/-- The switches that may stand on a side. -/
def switches : Side → List Switch
  | front => [.settings, .platform, .verbose, .help, .version]
  | behind .generate => [.settings, .output, .platform, .screen, .verbose, .help]
  | behind _ => [.settings, .platform, .verbose, .help]

/-- What help on a side is about. Only for the whole program is there more of it when it is asked
for by its word. -/
def topic (byWord : Bool) : Side → Topic
  | front => .program byWord
  | behind name => .command name

end Side

/-- What the switches on one side said. -/
structure Given where
  settings : Option String := none
  platform : Option Platform := none
  verbose : Bool := false
  output : Option String := none
  screen : Bool := false
  deriving DecidableEq, Repr

/-- Takes a path, which must not be empty, for a place that is still free. -/
def freshPath (old : Option String) (path : String) : Except Stop (Option String) :=
  if old.isSome || path.isEmpty then .error .usage else .ok (some path)

/-- Records a switch with its value; a second time is refused. -/
def Given.add (g : Given) (s : Switch) (value : String) : Except Stop Given :=
  match s with
  | .settings => do return { g with settings := ← freshPath g.settings value }
  | .output => do return { g with output := ← freshPath g.output value }
  | .platform =>
    match g.platform, Platform.parse value with
    | none, .ok p => .ok { g with platform := some p }
    | _, _ => .error .usage
  | .verbose => if g.verbose then .error .usage else .ok { g with verbose := true }
  | .screen => if g.screen then .error .usage else .ok { g with screen := true }
  | .help | .version => .ok g

/-- The words of one side as far as they were read. -/
structure Scan where
  given : Given := {}
  /-- A switch whose value is still to come. -/
  pending : Option Switch := none
  /-- A switch whose value came as a word of its own. It is looked at before the next word is. -/
  waiting : Option (Switch × String) := none
  /-- Whether a double dash was met. -/
  plainOnly : Bool := false
  /-- The word that is no switch. -/
  word : Option String := none
  deriving DecidableEq, Repr

namespace Scan

/-- Looks at a value that came as a word of its own. -/
def settle (s : Scan) : Except Stop Scan :=
  match s.waiting with
  | some (w, value) => do return { s with given := ← s.given.add w value, waiting := none }
  | none => .ok s

/-- Reads a switch without a value. -/
def addFlag (side : Side) (byWord : Bool) (s : Scan) (w : Switch) : Except Stop Scan :=
  match w with
  | .help => .error (.help (side.topic byWord))
  | .version => .error .version
  | w => do return { s with given := ← s.given.add w "" }

/-- Reads a switch given by its word. -/
def addLong (side : Side) (s : Scan) (body : List Char) : Except Stop Scan :=
  let name := String.ofList (body.takeWhile (· ≠ '='))
  match side.switches.find? fun w => w.word = name, body.dropWhile (· ≠ '=') with
  | none, _ => .error .usage
  | some w, [] => if w.hasValue then .ok { s with pending := some w } else s.addFlag side true w
  | some w, _ :: value =>
    if w.hasValue then do return { s with given := ← s.given.add w (String.ofList value) }
    else .error .usage

/-- Reads switches given by their letters. The value of the last one may follow at once. -/
def addShort (side : Side) (s : Scan) : List Char → Except Stop Scan
  | [] => .ok s
  | c :: rest =>
    match side.switches.find? fun w => w.letter? = some c with
    | none => .error .usage
    | some w =>
      if w.hasValue then
        match rest with
        | [] => .ok { s with pending := some w }
        | '=' :: value => do return { s with given := ← s.given.add w (String.ofList value) }
        | value => do return { s with given := ← s.given.add w (String.ofList value) }
      else do addShort side (← s.addFlag side false w) rest

/-- Reads a word that is no switch. Behind a command there is one such word, and it is not empty; in
front of it there is none. -/
def addWord (side : Side) (s : Scan) (word : String) : Except Stop Scan :=
  match side with
  | .front => .error .usage
  | .behind _ =>
    if s.word.isSome || word.isEmpty then .error .usage else .ok { s with word := some word }

/-- Reads a word. -/
def add (side : Side) (s : Scan) (word : String) : Except Stop Scan :=
  match s.pending, word.toList with
  | some _, '-' :: _ :: _ => .error .usage
  | some w, _ => .ok { s with pending := none, waiting := some (w, word) }
  | none, cs => do
    let s ← s.settle
    if s.plainOnly then s.addWord side word
    else
      match cs with
      | ['-', '-'] => .ok { s with plainOnly := true }
      | '-' :: '-' :: body => s.addLong side body
      | '-' :: c :: body => s.addShort side (c :: body)
      | _ => s.addWord side word

/-- Reads all words behind a command. -/
def all (name : Name) (words : List String) : Except Stop Scan := do
  let s ← words.foldlM (add (.behind name)) {}
  if s.pending.isSome then .error .usage else s.settle

end Scan

/-- What the words behind the command for help ask for. -/
def helpOn : List String → Stop
  | [] => .help (.program true)
  | [word] =>
    match names.lookup word with
    | some name => .help (.command name)
    | none => if word = "help" then .help .help else .usage
  | _ => .usage

/-- Reads the words in front of a command, and yields the command with the words behind it. -/
def front : Scan → List String → Except Stop (Scan × Name × List String)
  | _, [] => .error .usage
  | s, word :: rest =>
    match s.pending.isNone && !s.plainOnly, names.lookup word with
    | true, some name => .ok (s, name, rest)
    | isCommand, _ =>
      if isCommand && word = "help" then .error (helpOn rest)
      else do front (← s.add .front word) rest

/-- The task of a command with its one word and its switches. -/
def taskOf (name : Name) (given : Given) (word : String) : Except Stop Task :=
  match name with
  | .generate =>
    match given.output, given.screen with
    | some _, true => .error .usage
    | none, true => .ok (.generate word .screen)
    | directory, false => .ok (.generate word (.file directory))
  | .timeline => .ok (.timeline word)
  | .check => .ok (.check word)
  | .watch => .ok (.watch word)
  | .initSettings => .ok (.initSettings word)

/-- What a command line asks for. A value right in front of the command is looked at last. -/
def parse (arguments : List String) : Except Stop Invocation := do
  let (before, name, rest) ← front {} arguments
  let behind ← Scan.all name rest
  match behind.word with
  | some word =>
    let task ← taskOf name behind.given word
    let before ← before.settle
    return {
      task := task
      settingsPath := behind.given.settings <|> before.given.settings
      platform := behind.given.platform <|> before.given.platform
      verbose := behind.given.verbose || before.given.verbose }
  | none => .error .usage

end Montage.Command
