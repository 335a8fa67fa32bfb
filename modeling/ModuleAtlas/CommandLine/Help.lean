import ModuleAtlas.CommandLine.Command

/-!
# Texts of the program about itself
-/

namespace ModuleAtlas.CommandLine

/-- How the program is called. -/
def help : String :=
  String.join (List.map (· ++ "\n")
    ["Dependency graphs for JavaScript/TypeScript source trees",
     "",
     "Usage: module-atlas [-v] analyze [PATH] [--layout layered|zoned] [--seed SEED]",
     "                         [--config FILE] [--format json|text] [--pretty] [--focus FILE]",
     "       module-atlas [-v] metrics FILE [--pretty]",
     "       module-atlas [-v] metrics --stdin [--name NAME] [--pretty]",
     "",
     "The files are taken from a listing on the standard input."])

def version : String := "module-atlas 0.3.0\n"

def UsageFault.message : UsageFault → String
  | unknownArgument => "unexpected argument"
  | unknownCommand => "unknown command"
  | invalidValue => "invalid value"
  | malformedValue => "malformed value"
  | needlessValue => "unexpected value"
  | conflict => "arguments exclude each other"
  | missingArgument => "an argument is missing"
  | helpWanted => help
  | versionWanted => version

end ModuleAtlas.CommandLine
