import SlotGraph.Config.Layout
import SlotGraph.Graph.Document
import SlotGraph.Json.Reader
import SlotGraph.Schema.Basic

/-!
# Settings

Settings are a JSON object in which every key is optional; a missing or mistyped
one keeps its default.
-/

namespace SlotGraph

structure Settings where
  logLevel : String
  logFile : String
  defaultIndexType : String
  importLayout : ImportLayout

namespace Settings

def standard : Settings :=
  { logLevel := "info"
    logFile := ""
    defaultIndexType := Schema.defaultIndexType
    importLayout := ImportLayout.standard }

def numberOr (source : Json) (key : String) (default : Float) : Float :=
  ((source.get? key).bind Json.double?).getD default

def textOr (source : Json) (key : String) (default : String) : String :=
  ((source.get? key).bind Json.string?).getD default

/-- A placement with the fields that an object sets; the rest stay. -/
def layoutFrom (base : ImportLayout) (source : Json) : ImportLayout :=
  { columnStartX := numberOr source "column_start_x" base.columnStartX
    columnSpacing := numberOr source "column_spacing" base.columnSpacing
    rowStartY := numberOr source "row_start_y" base.rowStartY
    rowSpacing := numberOr source "row_spacing" base.rowSpacing
    rootX := numberOr source "root_x" base.rootX
    embeddedStartY := numberOr source "embedded_start_y" base.embeddedStartY
    embeddedSpacing := numberOr source "embedded_spacing" base.embeddedSpacing
    embeddedPerRow :=
      ((source.get? "embedded_per_row").bind Json.natural?).getD base.embeddedPerRow }

def ofJson? : Json → Option Settings
  | .obj ms =>
      let source := Json.obj ms
      some
        { logLevel := textOr source "log_level" standard.logLevel
          logFile := textOr source "log_file" standard.logFile
          defaultIndexType := textOr source "default_index_type" standard.defaultIndexType
          importLayout :=
            layoutFrom ImportLayout.standard
              ((source.get? "import_layout").getD Json.emptyObject) }
  | _ => none

def parse? (text : String) : Option Settings :=
  (Json.parse? text).bind ofJson?

end Settings

end SlotGraph
