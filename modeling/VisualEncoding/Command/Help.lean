import VisualEncoding.Command.Arguments

/-!
# Help

The texts that the command shows about itself.
-/

namespace VisualEncoding.Command

/-- The name of the command and its version. -/
def versionText : String := "encodable 0.1.0"

/-- The help about all tasks. -/
def overviewHelp : List String :=
  ["Channel encoding and scale resolution for declarative visualization",
   "",
   "Usage: encodable [OPTIONS] <COMMAND>",
   "",
   "Commands:",
   "  complete  Print the completed form of a channel definition",
   "  encode    Encode every row of a dataset",
   "  help      Print this message or the help of the given subcommand(s)",
   "",
   "Options:",
   "      --local-time  Use local time instead of UTC for temporal fields",
   "  -h, --help        Print help",
   "  -V, --version     Print version"]

/-- The help about the completion of a definition. -/
def completeHelp : List String :=
  ["Print the completed form of a channel definition",
   "",
   "Usage: encodable complete [OPTIONS] --channel-type <CHANNEL_TYPE> --def <DEF>",
   "",
   "Options:",
   "      --channel-type <CHANNEL_TYPE>  Channel role (X, Y, XBand, YBand, Color, Size, Numeric, Category, Text)",
   "      --local-time                   Use local time instead of UTC for temporal fields",
   "      --def <DEF>                    Channel definition as JSON",
   "  -h, --help                         Print help"]

/-- The help about the encoding of a dataset. -/
def encodeHelp : List String :=
  ["Encode every row of a dataset",
   "",
   "Usage: encodable encode [OPTIONS] --channels <CHANNELS> --encoding <ENCODING> --data <DATA>",
   "",
   "Options:",
   "      --channels <CHANNELS>  JSON file with the declared channels: \x60[\x7b\"name\": \"x\", \"type\": \"X\"\x7d, ...]\x60",
   "      --local-time           Use local time instead of UTC for temporal fields",
   "      --encoding <ENCODING>  JSON file with the encoding (channel name to definition)",
   "      --data <DATA>          JSON file with the dataset (array of records)",
   "      --output <OUTPUT>      Output file path",
   "  -h, --help                 Print help"]

/-- The help about help. -/
def helpHelp : List String :=
  ["Print this message or the help of the given subcommand(s)",
   "",
   "Usage: encodable help [COMMAND]...",
   "",
   "Arguments:",
   "  [COMMAND]...  Print help for the subcommand(s)"]

/-- The help about a topic. -/
def Topic.text : Topic → String
  | .overview => "\n".intercalate overviewHelp
  | .complete => "\n".intercalate completeHelp
  | .encode => "\n".intercalate encodeHelp
  | .help => "\n".intercalate helpHelp

end VisualEncoding.Command
