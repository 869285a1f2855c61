import SlotGraph.Json.Basic

/-!
# An example

A schema for an application of agents, models and tools, and a config document
for it: references by index, one inline tool and a default agent.
-/

namespace SlotGraph

namespace Example

def schemaName : String :=
  "agents"

def rootType : String :=
  "AppConfig"

def indexType : String :=
  "Index"

def sourceLines : List String :=
  [ "# Agent application"
  , "from typing import Any, Dict, List, Optional, Union"
  , ""
  , "Index = int"
  , ""
  , ""
  , "class ModelConfig(BaseModel):"
  , "    provider: str = \"openai\""
  , "    name: str"
  , "    temperature: Optional[float] = None"
  , ""
  , ""
  , "class ToolConfig(BaseModel):"
  , "    type: str"
  , "    args: Optional[Dict[str, Any]] = None"
  , ""
  , ""
  , "class AgentConfig(BaseModel):"
  , "    name: str"
  , "    model: Union[ModelConfig, Index]"
  , "    tools: Optional[List[Union[ToolConfig, Index]]] = None"
  , "    max_steps: int = 10"
  , "    verbose: bool = False"
  , ""
  , ""
  , "class AppConfig(BaseModel):"
  , "    port: int = 8000"
  , "    models: List[Union[ModelConfig, Index]] = []"
  , "    tools: Optional[List[Union[ToolConfig, Index]]] = None"
  , "    agents: List[Union[AgentConfig, Index]] = []"
  , "    default_agent: Optional[Union[AgentConfig, Index]] = None" ]

def source : String :=
  String.join (sourceLines.map fun line => line ++ "\n")

def models : Json :=
  .arr
    [ .obj [("name", .str "gpt-4o"), ("provider", .str "openai"), ("temperature", .float 0.2)]
    , .obj [("name", .str "llama3"), ("provider", .str "local")] ]

def tools : Json :=
  .arr
    [ .obj [("type", .str "search")]
    , .obj [("args", .obj [("precision", .int 4)]), ("type", .str "calculator")] ]

def agents : Json :=
  .arr
    [ .obj
        [ ("max_steps", .int 12)
        , ("model", .int 0)
        , ("name", .str "researcher")
        , ("tools", .arr [.int 0, .int 1])
        , ("verbose", .bool true) ]
    , .obj
        [ ("max_steps", .int 5)
        , ("model", .int 1)
        , ("name", .str "writer")
        , ("tools", .arr [.obj [("type", .str "editor")]])
        , ("verbose", .bool false) ] ]

def config : Json :=
  .obj
    [ ("agents", agents)
    , ("default_agent", .int 0)
    , ("models", models)
    , ("port", .int 8080)
    , ("tools", tools) ]

end Example

end SlotGraph
