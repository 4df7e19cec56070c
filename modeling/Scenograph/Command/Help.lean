import Scenograph.Command.Basic

namespace Scenograph

namespace Topic

def about : Topic → String
  | .program => "LottieGen: generates code that instantiates composition graphs"
  | .generate => "Generate the instantiator class for a graph document"
  | .check => "Validate a graph document without writing anything"
  | .optimize => "Optimize a rendering context and print it as JSON"
  | .initConfig => "Write a default lottiegen.toml"
  | .help => "Print this message or the help of the given subcommand(s)"

def usage : Topic → String
  | .program => "Usage: lottiegen <COMMAND>"
  | .generate => "Usage: lottiegen generate [OPTIONS] <INPUT>"
  | .check => "Usage: lottiegen check <INPUT>"
  | .optimize => "Usage: lottiegen optimize <INPUT>"
  | .initConfig => "Usage: lottiegen init-config [PATH]"
  | .help => "Usage: lottiegen help [COMMAND]..."

def parts : Topic → List (String × List String)
  | .program =>
      [("Commands:",
          ["  generate     " ++ about .generate,
            "  check        " ++ about .check,
            "  optimize     " ++ about .optimize,
            "  init-config  " ++ about .initConfig,
            "  help         " ++ about .help]),
        ("Options:",
          ["  -h, --help     Print help",
            "  -V, --version  Print version"])]
  | .generate =>
      [("Arguments:", ["  <INPUT>  Path to the graph document (JSON)"]),
        ("Options:",
          ["  -c, --config <CONFIG>          Path to a lottiegen.toml configuration file",
            "  -l, --language <LANGUAGE>      Target language: csharp, cppwinrt, cx",
            "      --namespace <NAMESPACE>    Namespace of the generated class",
            "      --class-name <CLASS_NAME>  Name of the generated class",
            "      --modern                   Target the modern composition runtime",
            "  -o, --out-dir <OUT_DIR>        Directory to write the generated files to",
            "  -h, --help                     Print help"])]
  | .check =>
      [("Arguments:", ["  <INPUT>  Path to the graph document (JSON)"]),
        ("Options:", ["  -h, --help  Print help"])]
  | .optimize =>
      [("Arguments:", ["  <INPUT>  Path to the rendering context (JSON)"]),
        ("Options:", ["  -h, --help  Print help"])]
  | .initConfig =>
      [("Arguments:", ["  [PATH]  Where to write the file [default: lottiegen.toml]"]),
        ("Options:", ["  -h, --help  Print help"])]
  | .help => [("Arguments:", ["  [COMMAND]...  Print help for the subcommand(s)"])]

def text (topic : Topic) : String :=
  let sections := topic.parts.map fun p => "\n" ++ String.intercalate "\n" (p.1 :: p.2) ++ "\n"
  topic.about ++ "\n\n" ++ topic.usage ++ "\n" ++ String.join sections

end Topic

end Scenograph
