/-!
Texts on the command itself.
-/

namespace TreeSelect.CommandLine

def versionText : String := "sift 0.1.0\n"

def usageText : String := "Usage: sift [OPTIONS] <SELECTOR>\n"

def helpText : String := String.join [
  "Command-line front end for the sift CSS selector engine\n\n",
  usageText,
  "\nArguments:\n",
  "  <SELECTOR>  Selector to evaluate\n",
  "\nOptions:\n",
  "  -d, --document <PATH>  JSON document to search (reads stdin when omitted)\n",
  "      --json             Print matches as a JSON array\n",
  "      --explain          Print the parsed selector as JSON and exit\n",
  "      --tokens           Print the token stream and exit\n",
  "  -v, --verbose...       Raise the log level (-v info, -vv debug, -vvv trace)\n",
  "      --no-color         Disable colored output\n",
  "  -h, --help             Print help\n",
  "  -V, --version          Print version\n",
  "\nEXAMPLES:\n",
  "    # Select from a document file\n",
  "    sift 'ul > li:nth-child(odd)' --document page.json\n\n",
  "    # Read the document from stdin\n",
  "    cat page.json | sift '.note, #main p'\n\n",
  "    # Print matches as JSON\n",
  "    sift 'a[href^=\"https:\"]' --document page.json --json\n\n",
  "    # Show the token stream or the parsed selector without a document\n",
  "    sift --tokens 'div:not(.a, .b)'\n",
  "    sift --explain 'h1 + p ~ p'\n\n",
  "    # Trace the parser and evaluator\n",
  "    sift -vvv 'p:first-of-type' --document page.json\n"]

end TreeSelect.CommandLine
