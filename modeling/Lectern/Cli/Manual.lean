-- What the command line tells about itself.
import Lectern.Text.Basic

namespace Lectern.Cli.Manual

/-- How the command is called. -/
def usage : Text := Text.ofLines [
  "usage: context-slides [-h] [-o OUTPUT] [--raw-block \x7bpassthrough,fail\x7d]",
  "                      [--verbose]",
  "                      [input]"]

/-- The help text. -/
def help : Text := usage ++ Text.ofLines [
  "",
  "Convert pandoc JSON into ConTeXt presentation slides.",
  "",
  "positional arguments:",
  "  input                 Pandoc JSON file (default: stdin)",
  "",
  "options:",
  "  -h, --help            show this help message and exit",
  "  -o OUTPUT, --output OUTPUT",
  "                        Output file (default: stdout)",
  "  --raw-block \x7bpassthrough,fail\x7d",
  "                        How to handle RawBlock nodes (default: passthrough)",
  "  --verbose             Enable debug logging",
  "",
  "ctxslides/cli.py -- Command-line entry point.",
  "",
  "Reads pandoc JSON and writes a ConTeXt slide deck.",
  "",
  "Usage:",
  "    pandoc -t json talk.md | context-slides > talk.tex",
  "    context-slides talk.json -o talk.tex",
  "",
  "Options:",
  "    -o, --output FILE        Where to write the ConTeXt source (default: stdout)",
  "    --raw-block MODE         \"passthrough\" | \"fail\" (default: passthrough)",
  "    --verbose                Show debug logging"]

/-- The line behind the usage when a command line makes no sense. -/
def error (message : Text) : Text :=
  Text.ofString "context-slides: error: " ++ message ++ [CodePoint.lineFeed]

end Lectern.Cli.Manual
