import Montage.Command.Arguments

/-!
# Help

The pages that say how the program is used. A page tells what it is about, how to call it, and
what can be given, in lists of two columns. The full page of the program has the descriptions of
its switches on lines of their own.
-/

namespace Montage.Command

/-- The word the program is called by. -/
def programName : String :=
  "videoml"

/-- What the program says about its version. -/
def versionText : String :=
  programName ++ " 0.1.0\n"

/-- The word of a command. -/
def Name.word : Name → String
  | generate => "generate"
  | timeline => "timeline"
  | check => "check"
  | watch => "watch"
  | initSettings => "init-config"

/-- What a command does. -/
def Name.summary : Name → String
  | generate => "Generate the MoviePy script for a project"
  | timeline => "Print the resolved timeline as JSON"
  | check => "Validate a project and print its diagnostics"
  | watch => "Rebuild a project on every change, printing one JSON document per build"
  | initSettings => "Write the default configuration to a file"

/-- What the command for help does. -/
def helpSummary : String :=
  "Print this message or the help of the given subcommand(s)"

/-- A line of a list: what can be given, and what it does. -/
structure Line where
  label : String
  summary : String
  deriving DecidableEq, Repr

namespace Line

/-- The lines of a list in two columns. -/
def columns (lines : List Line) : String :=
  let width := lines.foldl (fun n l => max n l.label.length) 0
  "\n".intercalate (lines.map fun l =>
    "  " ++ l.label ++ String.ofList (List.replicate (width - l.label.length) ' ') ++ "  " ++
      l.summary)

/-- The lines of a list, each with its description below it. -/
def stacked (lines : List Line) : String :=
  "\n\n".intercalate (lines.map fun l => "  " ++ l.label ++ "\n          " ++ l.summary)

end Line

/-- What the word behind a command is. -/
def Name.argument : Name → Line
  | initSettings => ⟨"<PATH>", "Destination of the TOML file"⟩
  | _ => ⟨"<PROJECT>", "Project document (JSON)"⟩

namespace Switch

/-- The ways to write a switch. -/
def label (s : Switch) : String :=
  let letter := match s.letter? with
    | some c => String.ofList ['-', c, ',', ' ']
    | none => "    "
  let value := match s.valueName? with
    | some name => " <" ++ name ++ ">"
    | none => ""
  letter ++ "--" ++ s.word ++ value

/-- What a switch does on a page. -/
def summary (topic : Topic) : Switch → String
  | settings => "Configuration file (optional)"
  | platform => "Platform the generated script runs on (windows, other)"
  | verbose => "Enable verbose logging"
  | output => "Directory to write `<output_name>.py` into"
  | screen => "Print the script instead of writing it"
  | help =>
    match topic with
    | .program true => "Print help (see a summary with '-h')"
    | .program false => "Print help (see more with '--help')"
    | _ => "Print help"
  | version => "Print version"

end Switch

namespace Topic

/-- What a page says about its topic. -/
def about : Topic → String
  | program true =>
    "VideoML turns a declarative description of a video (clips, cuts, text, audio and a timeline) " ++
      "into a Python script that renders it with MoviePy."
  | program false => "Compile VideoML projects into MoviePy scripts"
  | command name => name.summary
  | help => helpSummary

/-- How a topic is called, behind the word of the program. -/
def usage : Topic → String
  | program _ => "[OPTIONS] <COMMAND>"
  | command name => name.word ++ " [OPTIONS] " ++ name.argument.label
  | help => "help [COMMAND]..."

/-- The switches of a topic. -/
def switchLines (topic : Topic) (side : Side) : List Line :=
  side.switches.map fun s => ⟨s.label, s.summary topic⟩

/-- The lists of a page. -/
def sections : Topic → List String
  | program full =>
    let commands := names.map (fun n => (⟨n.1, n.2.summary⟩ : Line)) ++ [⟨"help", helpSummary⟩]
    let switches := switchLines (program full) .front
    ["Commands:\n" ++ Line.columns commands,
      "Options:\n" ++ if full then Line.stacked switches else Line.columns switches]
  | command name =>
    ["Arguments:\n" ++ Line.columns [name.argument],
      "Options:\n" ++ Line.columns (switchLines (command name) (.behind name))]
  | help => ["Arguments:\n" ++ Line.columns [⟨"[COMMAND]...", "Print help for the subcommand(s)"⟩]]

/-- The page on a topic. -/
def page (topic : Topic) : String :=
  "\n\n".intercalate
    (topic.about :: s!"Usage: {programName} {topic.usage}" :: topic.sections) ++ "\n"

end Topic

end Montage.Command
