/-!
# Command line options

Options are read from left to right; of two settings of the same option the
later one counts.  The first argument that is no option, or lacks its value,
ends the reading.
-/

namespace SlotGraph

/-- What the command line asks for; an empty file name stands for none. -/
structure Options where
  schemaFile : String
  schemaName : String
  rootType : String
  indexType : Option String
  importFile : String
  graphFile : String
  buildFile : String
  saveGraphFile : String
  settingsFile : String
  demo : Bool
  describe : Bool
  help : Bool

inductive UsageFault where
  | missingValue (option : String)
  | unknownOption (option : String)

def UsageFault.message : UsageFault → String
  | .missingValue option => "missing value for " ++ option
  | .unknownOption option => "unknown option " ++ option

namespace Options

def standard : Options :=
  { schemaFile := ""
    schemaName := "schema"
    rootType := ""
    indexType := none
    importFile := ""
    graphFile := ""
    buildFile := ""
    saveGraphFile := ""
    settingsFile := ""
    demo := false
    describe := false
    help := false }

def flag? (arg : String) : Option (Options → Options) :=
  match arg with
  | "--demo" => some fun o => { o with demo := true }
  | "--describe" => some fun o => { o with describe := true }
  | "--help" | "-h" => some fun o => { o with help := true }
  | _ => none

/-- The effect of an option that takes a value; the log level changes no result. -/
def setting? (arg : String) : Option (Options → String → Options) :=
  match arg with
  | "--index" => some fun o value => { o with indexType := some value }
  | "--log-level" => some fun o _ => o
  | "--schema" => some fun o value => { o with schemaFile := value }
  | "--name" => some fun o value => { o with schemaName := value }
  | "--root" => some fun o value => { o with rootType := value }
  | "--import" => some fun o value => { o with importFile := value }
  | "--graph" => some fun o value => { o with graphFile := value }
  | "--build" => some fun o value => { o with buildFile := value }
  | "--save-graph" => some fun o value => { o with saveGraphFile := value }
  | "--settings" => some fun o value => { o with settingsFile := value }
  | _ => none

def readFrom (options : Options) : List String → Except UsageFault Options
  | [] => .ok options
  | arg :: rest =>
      match flag? arg with
      | some effect => (effect options).readFrom rest
      | none =>
          match setting? arg, rest with
          | none, _ => .error (.unknownOption arg)
          | some _, [] => .error (.missingValue arg)
          | some effect, value :: rest => (effect options value).readFrom rest

def read (args : List String) : Except UsageFault Options :=
  standard.readFrom args

def usage : String :=
  String.join
    ([ "usage: config_graph [options]"
     , "  --schema <file>       schema source to register"
     , "  --name <name>         schema name (default: schema)"
     , "  --root <class>        root class of the schema"
     , "  --index <type>        index/reference type name (default: Index)"
     , "  --import <file>       import a config document (added to a --graph document)"
     , "  --graph <file>        load a graph document"
     , "  --build <file|->      write the config built from the graph"
     , "  --save-graph <file>   write the graph document"
     , "  --settings <file>     JSON settings (log_level, log_file, " ++
         "default_index_type, import_layout)"
     , "  --log-level <level>   trace, debug, info, warn, error, critical, off"
     , "  --describe            print classes and node slots of the schema"
     , "  --demo                use the built-in agent schema and config" ].map
        fun line => line ++ "\n")

end Options

end SlotGraph
